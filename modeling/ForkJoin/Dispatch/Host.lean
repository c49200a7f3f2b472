import ForkJoin.Dispatch.Plan

/-!
# Hosts

A worker does not decide on its own when to give up. Before every unit of a dispatched pass it
puts a checkpoint to the host, which answers whether the worker has to bail out. A host may
answer in any way; a bail schedule is the host that makes a slice bail at a unit in the first few
attempts.

## Main definitions
- `Checkpoint`: what a worker puts to the host.
- `Host`: the answers.
- `BailSchedule`: hosts for trying out recovery and fallback.
-/

namespace ForkJoin

structure Checkpoint where
  op : Operation
  /-- The dispatch attempt, counted from zero. -/
  attempt : Nat
  /-- The slice that the worker owns. -/
  slice : Nat
  /-- The unit to be processed next, a chunk or an element. -/
  unit : Nat
  deriving DecidableEq, Repr

def Checkpoint.text (point : Checkpoint) : String :=
  s!"{point.op.name} attempt {point.attempt} slice {point.slice} unit {point.unit}"

/-- Whether the worker at a checkpoint has to bail out. -/
abbrev Host := Checkpoint → Bool

/-- The host that lets every worker finish. -/
def Host.never : Host :=
  fun _ => false

/-- A rule for bailing out. -/
structure BailSchedule where
  /-- The slice that bails; every slice when there is none. -/
  slice : Option Nat
  /-- The unit from which on the slice bails. -/
  unit : Nat
  /-- The number of attempts in which it does. -/
  failingAttempts : Nat
  /-- The operation that is concerned; every operation when there is none. -/
  op : Option Operation
  deriving DecidableEq, Repr

namespace BailSchedule

/-- The largest number of failing attempts. -/
def allAttempts : Nat := (1 <<< 32) - 1

/-- One slice bails in the first attempt. -/
def once (slice unit : Nat) : BailSchedule :=
  ⟨some slice, unit, 1, none⟩

/-- Every slice bails in every attempt. -/
def always : BailSchedule :=
  ⟨none, 0, allAttempts, none⟩

def withFailingAttempts (schedule : BailSchedule) (attempts : Nat) : BailSchedule :=
  { schedule with failingAttempts := attempts }

def forOperation (schedule : BailSchedule) (op : Operation) : BailSchedule :=
  { schedule with op := some op }

def host (schedule : BailSchedule) : Host := fun point =>
  point.attempt < schedule.failingAttempts
    && schedule.slice.all (· == point.slice)
    && schedule.op.all (· == point.op)
    && schedule.unit ≤ point.unit

end BailSchedule

/-- The host that bails at the listed attempts, slices and units, in every operation. -/
def Host.exactly (points : List (Nat × Nat × Nat)) : Host := fun point =>
  points.contains (point.attempt, point.slice, point.unit)

end ForkJoin
