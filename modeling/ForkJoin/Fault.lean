/-!
# Faults and calls

A fault is what a computation ends in when it is handed a state that no valid input leads to: a
cell outside its window, a stride of zero, windows that do not follow each other. Faults are
values here, so that the absence of one is a fact to be proved and not an assumption.

User functions are only ever applied through `Calling.call`, which logs the argument. The log is
therefore the exact record of how often a run invoked its callback, and on what.

## Main definitions
- `Fault`: the ways in which a computation can break off.
- `Calling γ`: a computation that may apply a user function to arguments of type `γ`.
- `Calling.call`: the only way to do so.
-/

namespace ForkJoin

/-- Why a computation broke off. -/
inductive Fault where
  /-- A position outside a sequence, or a sequence too short for what was asked of it. -/
  | outOfRange
  /-- A division or a remainder by zero. -/
  | zeroDivisor
  /-- A difference below zero. -/
  | negativeDifference
  /-- A condition that the computation relies on does not hold. -/
  | brokenInvariant
  deriving DecidableEq, Repr

namespace Fault

/-- The difference of two positions, the smaller one last. -/
def checkedSub (a b : Nat) : Except Fault Nat :=
  if b ≤ a then .ok (a - b) else .error .negativeDifference

def checkedDiv (a b : Nat) : Except Fault Nat :=
  if b = 0 then .error .zeroDivisor else .ok (a / b)

def checkedMod (a b : Nat) : Except Fault Nat :=
  if b = 0 then .error .zeroDivisor else .ok (a % b)

def checkedGet {α : Type} (xs : Array α) (i : Nat) : Except Fault α :=
  if h : i < xs.size then .ok xs[i] else .error .outOfRange

def checkedSet {α : Type} (xs : Array α) (i : Nat) (x : α) : Except Fault (Array α) :=
  if h : i < xs.size then .ok (xs.set i x) else .error .outOfRange

/-- The part of an array between two positions. -/
def checkedExtract {α : Type} (xs : Array α) (start stop : Nat) : Except Fault (Array α) :=
  if start ≤ stop ∧ stop ≤ xs.size then .ok (xs.extract start stop) else .error .outOfRange

/-- Breaks off unless a condition holds. -/
def require (condition : Bool) : Except Fault Unit :=
  if condition then .ok () else .error .brokenInvariant

end Fault

/-- A computation that may call a user function on arguments of type `γ` and may break off. Its
state is the log of the arguments so far. -/
abbrev Calling (γ : Type) := StateT (Array γ) (Except Fault)

/-- Applies a user function and logs its argument. -/
def Calling.call {γ β : Type} (f : γ → β) (x : γ) : Calling γ β :=
  fun log => .ok (f x, log.push x)

end ForkJoin
