import ForkJoin.Dispatch.Phase
import ForkJoin.View.Basic

/-!
# Runs of operations

A run of an operation ends in a result with a report, or in an error. Beside that it leaves to be
seen what its callback was called on and what its phases asked of the host. A rejected input
leaves nothing, for it is rejected before anything runs.

## Main definitions
- `Setting`: the host, the configuration, the pool and the identity of the buffer for the result.
- `Run`: what a run leaves.
- `Run.conclude`: turns the result of a run into that of the operation.
-/

namespace ForkJoin

/-- What an operation runs with. -/
structure Setting where
  host : Host := Host.never
  config : Config := {}
  /-- The number of threads of the pool. -/
  poolSize : Nat := 4
  /-- The identity of the buffer that a result gets. -/
  newBuffer : BufferId := 0

def Setting.workerCount (setting : Setting) : Nat :=
  setting.config.workerCount setting.poolSize

/-- The plan for an operation on `length` elements. -/
def Setting.plan (setting : Setting) (op : Operation) (length : Nat) : Plan :=
  .make op length setting.config setting.workerCount

/-- What a run leaves: its result and report or its error, the arguments its callback was called
on, and its phases. -/
structure Run (γ ρ : Type) where
  result : Except Error (ρ × Report)
  calls : Array γ := #[]
  phases : List PhaseTrace := []

namespace Run

variable {γ ρ τ : Type}

/-- A run that rejects its input. -/
def rejected (cause : InputError) : Run γ ρ :=
  { result := .error (.input cause) }

/-- The result without the report. -/
def value (run : Run γ ρ) : Except Error ρ :=
  run.result.map (·.1)

/-- Turns the result into another one, if there is a result. -/
def conclude (run : Run γ ρ) (next : ρ → Except Fault (Except InputError τ)) :
    Except Fault (Run γ τ) :=
  match run.result with
  | .error cause => .ok { run with result := .error cause }
  | .ok (result, report) => do
    match ← next result with
    | .error cause => return { run with result := .error (.input cause) }
    | .ok result => return { run with result := .ok (result, report) }

end Run

end ForkJoin
