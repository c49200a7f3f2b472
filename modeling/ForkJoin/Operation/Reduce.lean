import ForkJoin.Operation.Fold
import ForkJoin.Operation.Run
import ForkJoin.Partition.Even
import ForkJoin.View.Basic

/-!
# Reducing sequences

A sequence is folded from the left with a binary function. In parallel each worker folds its own
chunks, and the partial results are folded in slice order. After a fallback the partial results
are given up and the sequence is folded anew: there is no empty result to return instead, so the
permission to run sequentially does not matter here.

## Main definitions
- `reduceKernel`: the fold of one slice.
- `View.reduce`: the value of a sequence.
-/

namespace ForkJoin

variable {α : Type}

def reduceKernel (cells : Array α) (f : α → α → α) : Kernel (α × α) (Option α) where
  warmup := 2
  work chunk acc := do
    let span := Span.ofChunk chunk cells.size
    let part ← Fault.checkedExtract cells span.start span.stop
    foldCells f acc part.toList

/-- Ends a run on values that are folded into one. -/
def concludeFold (result : Except Error Report) (calls : Array (α × α))
    (phases : List PhaseTrace) (f : α → α → α) (values : List α) :
    Except Fault (Run (α × α) α) :=
  match result with
  | .error cause => .ok { result := .error cause, calls, phases }
  | .ok report => do
    match ← (foldCells f none values).run calls with
    | (some value, calls) => return { result := .ok (value, report), calls, phases }
    | (none, calls) => return { result := .error (.input .emptyDomain), calls, phases }

def View.reduce (source : View α) (setting : Setting) (f : α → α → α) :
    Except Fault (Run (α × α) α) :=
  if source.rank ≠ 1 then
    .ok (.rejected (.unsupportedRank .reduce source.rank))
  else do
    let cells ← source.window
    if cells.isEmpty then
      return .rejected .emptyDomain
    let config := setting.config
    let plan := setting.plan .reduce cells.size
    if plan.isParallel then
      let kernel := reduceKernel cells f
      let slices := (Partition.even plan.chunks plan.slices).slices
      let phase := Phase.start (slices.map fun slice => (slice, none))
      let (outcome, phase) ← phase.run kernel setting.host .reduce config.mode
      -- After a fallback what the slices have come to is given up, and all cells are folded.
      let values := if outcome.isCompleted then phase.states.filterMap id else cells.toList
      concludeFold ((Report.ofPhase plan outcome).check config) phase.calls [phase.trace] f values
    else
      concludeFold ((Report.sequential plan).check config) #[] [] f cells.toList

end ForkJoin
