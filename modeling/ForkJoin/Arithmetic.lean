import ForkJoin.Address
import ForkJoin.Fault

/-!
# Arithmetic of limited range

A machine does not keep every number: it wraps large ones, or stops at them. A computation in such an
arithmetic forms one number after another, and goes on with what is kept of each. Dividing by zero and
taking away more than there is break it off in any arithmetic.

## Main definitions
- `Arithmetic`: what is kept of the numbers that are formed.
- `Arithmetic.wrapping`, `Arithmetic.upTo`: the low 64 bits, and numbers up to a limit.
- `Arithmetic.times`, `plus`, `minus`, `quotient`, `remainder`: single operations.
-/

namespace ForkJoin

/-- What is kept of each number that a computation forms. -/
structure Arithmetic where
  keep : Nat → Except Fault Nat

namespace Arithmetic

/-- A number above the limit breaks off the computation that forms it. -/
def upTo (limit : Nat) : Arithmetic where
  keep n := if n ≤ limit then .ok n else .error .brokenInvariant

/-- The low 64 bits are kept. -/
def wrapping : Arithmetic where
  keep n := .ok (wrapAddress n)

variable (arithmetic : Arithmetic)

def times (a b : Nat) : Except Fault Nat :=
  arithmetic.keep (a * b)

def plus (a b : Nat) : Except Fault Nat :=
  arithmetic.keep (a + b)

def minus (a b : Nat) : Except Fault Nat := do
  arithmetic.keep (← Fault.checkedSub a b)

def quotient (a b : Nat) : Except Fault Nat := do
  arithmetic.keep (← Fault.checkedDiv a b)

def remainder (a b : Nat) : Except Fault Nat := do
  arithmetic.keep (← Fault.checkedMod a b)

end Arithmetic

end ForkJoin
