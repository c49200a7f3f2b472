import ForkJoin.Dispatch.Host
import ForkJoin.Dispatch.Report
import ForkJoin.Fault
import ForkJoin.Partition.Window

/-!
# Phases

A phase runs one kernel over the slices of a domain. Every attempt warms up each slice, which
processes a few units without asking the host, and then dispatches all slices, each of which asks
the host before every unit and stops where it is told to. As long as a slice is unfinished and
attempts are left, the phase is attempted again, every slice from where it stands. When no
attempt is left the phase falls back: the rest is to be done sequentially, or not at all.

Workers share nothing, so a phase is the same whether its slices run side by side or one after
another. A worker carries its own state, its own log of calls, and its own record of what the
host was asked and answered.

## Main definitions
- `Kernel`: what is done with one unit.
- `Worker`: a slice with its state and its records.
- `Worker.proceed`: the one loop that all passes share.
- `Phase.run`: attempts until the phase completes or falls back.
- `Phase.finishAlone`: the rest, sequentially.
-/

namespace ForkJoin

variable {γ σ : Type}

/-! ## §1 Kernels and workers -/

/-- The work of a phase. Its units are chunks or elements; `γ` is what its callback is called
on, and `σ` the state of one worker. -/
structure Kernel (γ σ : Type) where
  /-- The number of units that a warmup processes at most. -/
  warmup : Nat
  /-- Processes one unit. -/
  work : (unit : Nat) → σ → Calling γ σ

/-- A question put to the host, with its answer. -/
structure Consultation where
  checkpoint : Checkpoint
  /-- Whether the worker had to bail out. -/
  bail : Bool
  deriving DecidableEq, Repr

def Host.consult (host : Host) (checkpoint : Checkpoint) : Consultation :=
  ⟨checkpoint, host checkpoint⟩

/-- A slice in the hands of a worker. -/
structure Worker (γ σ : Type) where
  slice : Slice
  /-- What the units processed so far have led to. -/
  state : σ
  /-- The arguments that the callback was called on, in order. -/
  calls : Array γ := #[]
  /-- What the host was asked, in order. -/
  asked : Array Consultation := #[]

namespace Worker

/-- Processes at most `fuel` units. A pass that consults the host asks before every unit, and
stops in front of the unit at which it has to bail out. -/
def proceed (kernel : Kernel γ σ) (consult : Option (Nat → Consultation)) :
    (fuel : Nat) → Worker γ σ → Except Fault (Worker γ σ)
  | 0, worker => .ok worker
  | fuel + 1, ⟨slice, state, calls, asked⟩ =>
    let question := consult.map (· slice.pos)
    let asked := question.elim asked asked.push
    if question.any (·.bail) then
      -- The unit is left for the next pass: neither the position nor the state moves.
      .ok ⟨slice, state, calls, asked⟩
    else
      match kernel.work slice.pos state calls with
      | .error fault => .error fault
      | .ok (state, calls) => proceed kernel consult fuel ⟨slice.advance, state, calls, asked⟩

/-- One warmup pass: a few units, without asking. -/
def warmUp (kernel : Kernel γ σ) (worker : Worker γ σ) : Except Fault (Worker γ σ) :=
  worker.proceed kernel none (worker.slice.passEnd true kernel.warmup - worker.slice.pos)

/-- One dispatched pass: up to the end of the slice, asking before every unit. -/
def dispatch (kernel : Kernel γ σ) (host : Host) (op : Operation) (attempt index : Nat)
    (worker : Worker γ σ) : Except Fault (Worker γ σ) :=
  worker.proceed kernel (some fun unit => host.consult ⟨op, attempt, index, unit⟩)
    (worker.slice.passEnd false kernel.warmup - worker.slice.pos)

/-- The sequential pass: up to the end of the slice, without asking. -/
def finishAlone (kernel : Kernel γ σ) (worker : Worker γ σ) : Except Fault (Worker γ σ) :=
  worker.proceed kernel none (worker.slice.passEnd false kernel.warmup - worker.slice.pos)

end Worker

/-! ## §2 Phases -/

/-- The attempts after which a phase falls back. -/
def maxBailouts : Nat := 3

/-- The workers of a phase and the number of compile requests it has made. -/
structure Phase (γ σ : Type) where
  workers : List (Worker γ σ)
  compiles : Nat := 0

/-- What a phase leaves to be seen: its compile requests and, slice by slice, its questions to
the host. -/
structure PhaseTrace where
  compiles : Nat
  asked : List (Array Consultation)
  deriving DecidableEq, Repr

namespace Phase

/-- A phase that has not begun: one worker for each slice with its state. -/
def start (shares : List (Slice × σ)) : Phase γ σ :=
  { workers := shares.map fun (slice, state) => { slice, state } }

/-- Requests a compilation and warms up every slice. -/
def warmUp (kernel : Kernel γ σ) (phase : Phase γ σ) : Except Fault (Phase γ σ) := do
  let workers ← phase.workers.mapM (·.warmUp kernel)
  return ⟨workers, phase.compiles + 1⟩

def dispatch (kernel : Kernel γ σ) (host : Host) (op : Operation) (attempt : Nat)
    (phase : Phase γ σ) : Except Fault (Phase γ σ) := do
  let workers ← phase.workers.zipIdx.mapM fun (worker, index) =>
    worker.dispatch kernel host op attempt index
  return { phase with workers }

/-- One attempt: a warmup and a dispatch. -/
def attempt (kernel : Kernel γ σ) (host : Host) (op : Operation) (number : Nat)
    (phase : Phase γ σ) : Except Fault (Phase γ σ) := do
  let warm ← phase.warmUp kernel
  warm.dispatch kernel host op number

def isFinished (phase : Phase γ σ) : Bool :=
  phase.workers.all (·.slice.isFinished)

/-- Attempts the phase until it is finished or no attempt is left. The number of bailouts so far
is also the number of the next attempt. -/
def attempts (kernel : Kernel γ σ) (host : Host) (op : Operation) :
    (left bailouts : Nat) → Phase γ σ → Except Fault (PhaseOutcome × Phase γ σ)
  | 0, bailouts, phase => .ok (.fallback bailouts, phase)
  | left + 1, bailouts, phase => do
    let phase ← phase.attempt kernel host op bailouts
    -- Whether it bailed out is told from the slices, not from what the host has answered.
    if phase.isFinished then
      return (.completed bailouts, phase)
    else
      attempts kernel host op left (bailouts + 1) phase

/-- Runs a phase. In compile mode there is one warmup and no dispatch. -/
def run (kernel : Kernel γ σ) (host : Host) (op : Operation) (mode : Mode) (phase : Phase γ σ) :
    Except Fault (PhaseOutcome × Phase γ σ) :=
  if mode = .compile then do
    return (.fallback 0, ← phase.warmUp kernel)
  else
    phase.attempts kernel host op maxBailouts 0

/-- Does sequentially what is left of every slice. -/
def finishAlone (kernel : Kernel γ σ) (phase : Phase γ σ) : Except Fault (Phase γ σ) := do
  let workers ← phase.workers.mapM (·.finishAlone kernel)
  return { phase with workers }

/-- The states of the workers, in slice order. -/
def states (phase : Phase γ σ) : List σ :=
  phase.workers.map (·.state)

/-- The calls of the workers, in slice order. -/
def calls (phase : Phase γ σ) : Array γ :=
  joinArrays (phase.workers.map (·.calls))

/-- What can be seen of the phase. -/
def trace (phase : Phase γ σ) : PhaseTrace :=
  ⟨phase.compiles, phase.workers.map (·.asked)⟩

end Phase

end ForkJoin
