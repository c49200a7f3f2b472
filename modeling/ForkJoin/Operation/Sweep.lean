import ForkJoin.Operation.Run
import ForkJoin.Partition.Even

/-!
# Sweeps

A sweep processes the chunks of a domain one by one, none depending on another. Building, mapping
and filtering are sweeps. What a sweep leaves undone after a fallback is done sequentially, from
where each slice stands, so that no element is processed twice. When the sequential path is
forbidden but needed, a sweep has no states to return.

## Main definitions
- `attemptSweep`, `concludeSweep`: the parallel attempt, and the sequential rest.
- `sweep`: the states of the workers after all chunks, in slice order.
-/

namespace ForkJoin

variable {γ σ : Type}

/-- What the parallel attempt of a sweep leaves. Without one there is a single slice, and nothing
is done yet. -/
structure SweepAttempt (γ σ : Type) where
  phase : Phase γ σ
  report : Report
  phases : List PhaseTrace

/-- The parallel attempt, if the plan makes one. -/
def attemptSweep (setting : Setting) (op : Operation) (plan : Plan) (kernel : Kernel γ σ)
    (state : Slice → σ) : Except Fault (SweepAttempt γ σ) :=
  if plan.isParallel then do
    let slices := (Partition.even plan.chunks plan.slices).slices
    let phase := Phase.start (slices.map fun slice => (slice, state slice))
    let (outcome, phase) ← phase.run kernel setting.host op setting.config.mode
    return ⟨phase, .ofPhase plan outcome, [phase.trace]⟩
  else
    let whole := Slice.ofSpan ⟨0, plan.chunks⟩
    return ⟨Phase.start [(whole, state whole)], .sequential plan, []⟩

/-- Ends a sweep: what an attempt left undone is done sequentially if that is permitted. -/
def concludeSweep (setting : Setting) (kernel : Kernel γ σ) (attempt : SweepAttempt γ σ) :
    Except Fault (Run γ (Option (List σ))) := do
  let config := setting.config
  let unfinished := attempt.report.path == .sequential
  let phase ←
    if unfinished && config.sequential then attempt.phase.finishAlone kernel
    else .ok attempt.phase
  -- The states are withheld even if all of them happen to be finished.
  let states := if unfinished && !config.sequential then none else some phase.states
  return { result := (attempt.report.check config).map fun report => (states, report)
           calls := phase.calls
           phases := attempt.phases }

/-- Runs a kernel over all chunks of a domain. -/
def sweep (setting : Setting) (op : Operation) (length : Nat) (kernel : Kernel γ σ)
    (state : Slice → σ) : Except Fault (Run γ (Option (List σ))) := do
  let attempt ← attemptSweep setting op (setting.plan op length) kernel state
  concludeSweep setting kernel attempt

end ForkJoin
