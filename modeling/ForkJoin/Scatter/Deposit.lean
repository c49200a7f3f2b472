import ForkJoin.Scatter.Target

/-!
# Deposits

A scatter deposits each value at its target. The first value at a position replaces the default;
every later one is combined with what is there, the new value first. Without a conflict function
no position is hit twice, and a deposit would replace what is there.

## Main definitions
- `ScatterJob`: the values and targets that all workers read.
- `collide`: two values at one position.
- `OutputPart`: a window of the output.
- `PrivateOutput`: an output of a worker's own, empty where nothing was deposited.
-/

namespace ForkJoin

variable {α : Type}

/-- What all workers read: as many targets as values, the length of the output, and the function
that combines two values at one position, if there is one. -/
structure ScatterJob (α : Type) where
  values : Array α
  targets : Array Nat
  length : Nat
  conflict : Option (α → α → α)

/-- What a value leaves at a position that is taken. -/
def collide (conflict : Option (α → α → α)) (new existing : α) : Calling (α × α) α :=
  match conflict with
  -- The new value comes first, whatever the order of the calls.
  | some f => Calling.call (fun (a, b) => f a b) (new, existing)
  | none => return new

/-! ## §1 A part of the output -/

/-- A window of the output, with the positions of it that are taken. -/
structure OutputPart (α : Type) where
  span : Span
  cells : Array α
  written : WrittenSet
  deriving Repr

namespace OutputPart

/-- A window in which nothing was deposited. -/
def blank (span : Span) (cells : Array α) : OutputPart α :=
  ⟨span, cells, .ofSpan span⟩

/-- Deposits a value at a position of the window. -/
def deposit (conflict : Option (α → α → α)) (part : OutputPart α) (position : Nat) (value : α) :
    Calling (α × α) (OutputPart α) := do
  let ⟨span, cells, written⟩ := part
  let k ← Fault.checkedSub position span.start
  let (free, written) ← written.insert position
  if free then
    return ⟨span, ← Fault.checkedSet cells k value, written⟩
  else
    let existing ← Fault.checkedGet cells k
    let combined ← collide conflict value existing
    return ⟨span, ← Fault.checkedSet cells k combined, written⟩

/-- Deposits a value unless its position is outside the window. -/
def depositInside (conflict : Option (α → α → α)) (part : OutputPart α) (position : Nat)
    (value : α) : Calling (α × α) (OutputPart α) :=
  if part.span.contains position then part.deposit conflict position value else return part

end OutputPart

/-- The output with all values deposited in source order. -/
def scatterAlone (job : ScatterJob α) (default : α) : Calling (α × α) (Array α) := do
  let whole := OutputPart.blank ⟨0, job.length⟩ (Array.replicate job.length default)
  let hits := job.targets.toList.zip job.values.toList
  let part ← hits.foldlM (fun part (position, value) => part.deposit job.conflict position value)
    whole
  return part.cells

/-! ## §2 An output of one's own -/

/-- One slot for each position of the output. -/
abbrev PrivateOutput (α : Type) := Array (Option α)

namespace PrivateOutput

/-- An output in which nothing was deposited. -/
def blank (length : Nat) : PrivateOutput α :=
  Array.replicate length none

/-- What a value leaves in a slot. -/
def combine (conflict : Option (α → α → α)) (slot : Option α) (value : α) :
    Calling (α × α) (Option α) :=
  match slot with
  | some existing => some <$> collide conflict value existing
  | none => return some value

def deposit (conflict : Option (α → α → α)) (slots : PrivateOutput α) (position : Nat)
    (value : α) : Calling (α × α) (PrivateOutput α) := do
  let slot ← Fault.checkedGet slots position
  Fault.checkedSet slots position (← combine conflict slot value)

/-- Deposits the values of another output on top. -/
def merge (conflict : Option (α → α → α)) (slots later : PrivateOutput α) :
    Calling (α × α) (PrivateOutput α) :=
  (slots.zip later).mapM fun (slot, value) =>
    match value with
    | some value => combine conflict slot value
    | none => return slot

/-- The output, with a default where nothing was deposited. -/
def fill (slots : PrivateOutput α) (default : α) : Array α :=
  slots.map (·.getD default)

end PrivateOutput

end ForkJoin
