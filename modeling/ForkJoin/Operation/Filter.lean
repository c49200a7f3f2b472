import ForkJoin.Operation.Map
import ForkJoin.Operation.Survivors

/-!
# Filtering views

The elements of the outermost dimension that satisfy a predicate are kept, in their order. The
predicate is evaluated chunk by chunk and may be interrupted; copying the survivors runs no user
function and is not.

## Main definitions
- `Survivors`: the verdicts of one worker.
- `View.collect`, `View.filter`: the view of the elements that are kept.
-/

namespace ForkJoin

variable {α : Type}

/-- The verdicts on the chunks of one slice. -/
structure Survivors where
  /-- The first chunk of the slice. -/
  firstChunk : Nat
  /-- One word per processed chunk. -/
  words : Array Word := #[]
  /-- The number of survivors. -/
  count : Nat := 0
  deriving Repr

def Survivors.indices (survivors : Survivors) : List Nat :=
  survivorIndices survivors.firstChunk survivors.words.toList

/-- Evaluates the predicate on the elements of one chunk. -/
def chunkVerdict (source : View α) (keep : Visit α → Bool) (chunk : Nat) :
    Calling (Visit α) Word :=
  let span := Span.ofChunk chunk source.length
  span.positions.foldlM (fun word i => do
    let visit ← source.visitAt i
    if ← Calling.call keep visit then
      let bit ← Fault.checkedSub i span.start
      Fault.require (bit < chunkSize)
      return word.setBit bit
    else
      return word) 0

def filterKernel (source : View α) (keep : Visit α → Bool) : Kernel (Visit α) Survivors where
  warmup := 1
  work chunk survivors := do
    let word ← chunkVerdict source keep chunk
    return { survivors with
      words := survivors.words.push word
      count := survivors.count + word.bitCount }

/-- The cells of the elements at some indices, each element being `inner` cells wide. -/
def gatherRows (cells : Array α) (inner : Nat) (indices : List Nat) : Except Fault (Array α) :=
  indices.foldlM (fun out i => do
    return out ++ (← Fault.checkedExtract cells (i * inner) ((i + 1) * inner))) #[]

/-- Appends the rows of the survivors of each slice; `before` counts the survivors of the slices
that are already there. -/
def gatherSurvivors (cells : Array α) (inner : Nat) :
    (before : Nat) → Array α → List Survivors → Except Fault (Array α)
  | _, out, [] => .ok out
  | before, out, part :: rest => do
    -- The cells that are there belong to the survivors counted so far.
    Fault.require (out.size == before * inner)
    let rows ← gatherRows cells inner part.indices
    gatherSurvivors cells inner (before + part.count) (out ++ rows) rest

/-- The view that the verdicts of all workers lead to. Without verdicts it is empty. -/
def View.collect (source : View α) (newBuffer : BufferId) :
    Option (List Survivors) → Except Fault (Except InputError (View α))
  | none => .ok (.ok (.empty newBuffer))
  | some parts => do
    let cells ← source.window
    let out ← gatherSurvivors cells source.innerSize 0 #[] parts
    let count := parts.foldr (fun part total => part.count + total) 0
    return do
      let shape ← Shape.ofDims? (count :: source.shape.inner)
      View.ofShape? newBuffer shape out

/-- The view of the elements that satisfy a predicate. -/
def View.filter (source : View α) (setting : Setting) (keep : Visit α → Bool) :
    Except Fault (Run (Visit α) (View α)) := do
  let run ← sweep setting .filter source.length (filterKernel source keep) fun slice =>
    { firstChunk := slice.start }
  run.conclude (source.collect setting.newBuffer)

end ForkJoin
