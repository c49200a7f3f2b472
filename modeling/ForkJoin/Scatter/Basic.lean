import ForkJoin.Operation.Run
import ForkJoin.Partition.Window
import ForkJoin.Partition.Even
import ForkJoin.Scatter.Deposit

/-!
# Scattering sequences

The value at each source index goes to the target at that index; positions that are no target
hold a default. Targets beyond the last value, and values beyond the last target, are ignored.
There are two parallel strategies. Either each worker owns a part of the output, walks all
targets and deposits those of its part; or each worker owns a part of the targets and deposits
them in an output of its own, and the outputs are merged in slice order.

## Main definitions
- `ScatterJob.divideOutputRange`, `ScatterJob.divideScatterVector`: the strategies.
- `View.scatter`: the scatter of a sequence.
-/

namespace ForkJoin

variable {α : Type}

/-! ## §1 Strategies -/

/-- What a parallel scatter leaves. There is no output when the sequential path was needed and
forbidden. -/
structure ScatterAttempt (α : Type) where
  report : Report
  cells : Option (Array α)
  calls : Array (α × α)
  phases : List PhaseTrace

/-- Runs the phase of a scatter, and does sequentially what a fallback leaves if that is
permitted. The states are there unless it was not. -/
def scatterPhase {σ : Type} (setting : Setting) (plan : Plan) (kernel : Kernel (α × α) σ)
    (shares : List (Slice × σ)) :
    Except Fault (Report × Option (List σ) × Array (α × α) × List PhaseTrace) := do
  let config := setting.config
  let (outcome, phase) ← (Phase.start shares).run kernel setting.host .scatter config.mode
  let report := Report.ofPhase plan outcome
  if outcome.isCompleted then
    return (report, some phase.states, phase.calls, [phase.trace])
  else if config.sequential then
    let phase ← phase.finishAlone kernel
    return (report, some phase.states, phase.calls, [phase.trace])
  else
    return (report, none, phase.calls, [phase.trace])

namespace ScatterJob

/-- Walks one target, depositing its value if it lies in the worker's part of the output. -/
def outputKernel (job : ScatterJob α) : Kernel (α × α) (OutputPart α) where
  warmup := chunkSize
  work i part := do
    let position ← Fault.checkedGet job.targets i
    let value ← Fault.checkedGet job.values i
    part.depositInside job.conflict position value

/-- Each worker owns a part of the output. -/
def divideOutputRange (job : ScatterJob α) (setting : Setting) (plan : Plan) (default : α) :
    Except Fault (ScatterAttempt α) := do
  let spans := (Partition.even job.length plan.slices).slices.map (·.toSpan)
  let windows ← splitWindows (Array.replicate job.length default) spans
  -- The output is divided, the targets are not: every slice is that of all targets.
  let shares := (spans.zip windows).map fun (span, window) =>
    (Slice.ofSpan ⟨0, job.targets.size⟩, OutputPart.blank span window)
  let (report, states, calls, phases) ← scatterPhase setting plan job.outputKernel shares
  return ⟨report, states.map fun parts => joinArrays (parts.map (·.cells)), calls, phases⟩

/-- Deposits the value of one target in the worker's own output. -/
def targetKernel (job : ScatterJob α) : Kernel (α × α) (PrivateOutput α) where
  warmup := chunkSize
  work i slots := do
    let position ← Fault.checkedGet job.targets i
    let value ← Fault.checkedGet job.values i
    slots.deposit job.conflict position value

def mergeOutputs (job : ScatterJob α) (outputs : List (PrivateOutput α)) :
    Calling (α × α) (PrivateOutput α) :=
  outputs.foldlM (PrivateOutput.merge job.conflict) (.blank job.length)

/-- Each worker owns a part of the targets. -/
def divideScatterVector (job : ScatterJob α) (setting : Setting) (plan : Plan) (default : α) :
    Except Fault (ScatterAttempt α) := do
  let count := job.targets.size
  -- By `Partition.toAddresses_even` these are also the slices in addresses.
  let slices := ((Partition.even (chunkCount count) plan.slices).toElements count).slices
  let shares := slices.map fun slice => (slice, PrivateOutput.blank job.length)
  let (report, states, calls, phases) ← scatterPhase setting plan job.targetKernel shares
  match states with
  | none => return ⟨report, none, calls, phases⟩
  | some outputs =>
    let (merged, calls) ← (job.mergeOutputs outputs).run calls
    return ⟨report, some (merged.fill default), calls, phases⟩

/-- The strategy that the caller insists on; otherwise the output is divided when it is longer
than the targets are many. -/
def strategy (job : ScatterJob α) (config : Config) : Strategy :=
  config.strategy.getD <|
    if job.targets.size < job.length then .divideOutputRange else .divideScatterVector

/-- Scatters validated values. The sequential plan is held against the expectation before
anything is written, a parallel one afterwards. -/
def run (job : ScatterJob α) (setting : Setting) (default : α) :
    Except Fault (Run (α × α) (View α)) := do
  let config := setting.config
  let plan := setting.plan .scatter job.targets.size
  if plan.isParallel then
    let attempt ←
      match job.strategy config with
      | .divideOutputRange => job.divideOutputRange setting plan default
      | .divideScatterVector => job.divideScatterVector setting plan default
    let view := attempt.cells.elim (.empty setting.newBuffer) (.ofArray setting.newBuffer)
    return { result := (attempt.report.check config).map fun report => (view, report)
             calls := attempt.calls
             phases := attempt.phases }
  else
    match (Report.sequential plan).check config with
    | .error cause => return { result := .error cause }
    | .ok report =>
      if config.sequential then
        let (out, calls) ← (scatterAlone job default).run #[]
        return { result := .ok (.ofArray setting.newBuffer out, report), calls }
      else
        return { result := .ok (.empty setting.newBuffer, report) }

end ScatterJob

/-! ## §2 Scattering a view -/

/-- Scatters a sequence into an output of `length` cells. Values with one target are combined by
the conflict function; without one they are rejected. -/
def View.scatter (source : View α) (setting : Setting) (targets : Array Target) (default : α)
    (length : Nat) (conflict : Option (α → α → α)) : Except Fault (Run (α × α) (View α)) :=
  if source.rank ≠ 1 then
    .ok (.rejected (.unsupportedRank .scatter source.rank))
  else do
    let count := min targets.size source.length
    let cells ← source.window
    let values ← Fault.checkedExtract cells 0 count
    match resolveTargets length 0 (targets.toList.take count) with
    | .error cause => return .rejected cause
    | .ok positions =>
      -- Repetitions are looked for after all targets are known to lie in the output.
      let distinct ←
        if conflict.isSome then pure (.ok ())
        else requireDistinct 0 (.ofSpan ⟨0, length⟩) positions
      match distinct with
      | .error cause => return .rejected cause
      | .ok () => ScatterJob.run ⟨values, positions.toArray, length, conflict⟩ setting default

end ForkJoin
