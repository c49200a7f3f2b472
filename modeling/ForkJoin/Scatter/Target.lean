import ForkJoin.InputError
import ForkJoin.Partition.Slice
import ForkJoin.Shape.Basic

/-!
# Scatter targets

A target is given as an unsigned, a signed or a floating-point number. It stands for a position
if it is whole, and the position has to lie in the output. All targets are resolved, and without
a conflict function checked for repetitions, before anything is written; the first bad one is
reported.

## Main definitions
- `Target.position?`: the position that a target stands for.
- `resolveTargets`: all positions, or the rejection of the first bad target.
- `WrittenSet`: the positions of a window that are taken.
- `requireDistinct`: the rejection of the first repeated position.
-/

namespace ForkJoin

/-! ## §1 Positions -/

/-- A target as it is given. -/
inductive Target where
  | unsigned (value : Nat)
  | signed (value : Int)
  | floating (value : Binary64)
  deriving DecidableEq, Repr

namespace Target

def maxPosition : Int := (1 <<< 63 : Nat) - 1

def minPosition : Int := -(1 <<< 63 : Nat)

/-- The position that a target stands for, if it is whole. Positions past either end are moved to
that end, which is outside every output. -/
def position? : Target → Option Int
  | .unsigned value => some (min value maxPosition)
  | .signed value => some value
  | .floating value => value.toInt?.map fun n => max minPosition (min n maxPosition)

/-- The position in an output of a given length. -/
def resolve (target : Target) (index length : Nat) : Except InputError Nat :=
  match target.position? with
  | none => .error (.argument (.fractionalTarget index))
  | some position =>
    if 0 ≤ position ∧ position < length then .ok position.toNat
    else .error (.targetOutOfBounds index position length)

end Target

/-- The positions of targets; `index` is the source index of the first. -/
def resolveTargets (length : Nat) : (index : Nat) → List Target → Except InputError (List Nat)
  | _, [] => .ok []
  | index, target :: rest => do
    let position ← target.resolve index length
    return position :: (← resolveTargets length (index + 1) rest)

/-! ## §2 Repetitions -/

/-- Which positions of a window are taken. The window begins at position `base`. -/
structure WrittenSet where
  base : Nat
  taken : Array Bool
  deriving Repr

namespace WrittenSet

/-- No position of a span is taken. -/
def ofSpan (span : Span) : WrittenSet :=
  ⟨span.start, Array.replicate span.length false⟩

/-- Takes a position, and says whether it was free. -/
def insert (set : WrittenSet) (position : Nat) : Except Fault (Bool × WrittenSet) := do
  let k ← Fault.checkedSub position set.base
  let taken ← Fault.checkedGet set.taken k
  return (!taken, { set with taken := ← Fault.checkedSet set.taken k true })

end WrittenSet

/-- Rejects the first position that occurs a second time; `index` is the source index of the
first position. -/
def requireDistinct : (index : Nat) → WrittenSet → List Nat → Except Fault (Except InputError Unit)
  | _, _, [] => .ok (.ok ())
  | index, set, position :: rest => do
    let (free, set) ← set.insert position
    if free then
      requireDistinct (index + 1) set rest
    else
      return .error (.targetConflict index position)

end ForkJoin
