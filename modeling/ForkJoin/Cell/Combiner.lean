import ForkJoin.Cell.Basic

/-!
# Combiners

The binary functions that a session knows by name. Integers wrap around at 64 bits and texts are
compared byte by byte. A function that is not defined for two cells returns the first of them.

## Main definitions
- `Combiner`: the functions.
- `Combiner.apply`: their values.
-/

namespace ForkJoin

inductive Combiner where
  | add
  | sub
  | mul
  | poly
  | xor
  | max
  | min
  | second
  | paren
  | first
  deriving DecidableEq, Repr

namespace Combiner

/-- The function with a name; other names stand for the first argument. -/
def ofName : String → Combiner
  | "add" => .add
  | "sub" => .sub
  | "mul" => .mul
  | "poly" => .poly
  | "xor" => .xor
  | "max" => .max
  | "min" => .min
  | "second" => .second
  | "paren" => .paren
  | _ => .first

/-- The greater of two values, the first of equal ones. -/
def greater {α : Type} [LT α] [DecidableLT α] (a b : α) : α :=
  if a < b then b else a

/-- The lesser of two values, the first of equal ones. -/
def lesser {α : Type} [LT α] [DecidableLT α] (a b : α) : α :=
  if b < a then b else a

def applyInt (f : Combiner) (a b : Int64) : Int64 :=
  match f with
  | .add => a + b
  | .sub => a - b
  | .mul => a * b
  | .poly => a * 31 + b
  | .xor => a ^^^ b
  | .max => greater a b
  | .min => lesser a b
  | _ => a

def applyFloat (f : Combiner) (a b : Float) : Float :=
  match f with
  | .add => a + b
  | .sub => a - b
  | .mul => a * b
  | .max => greater a b
  | .min => lesser a b
  | _ => a

def applyText (f : Combiner) (a b : String) : String :=
  match f with
  | .add => a ++ b
  | .max => greater a b
  | .min => lesser a b
  | _ => a

def apply (f : Combiner) (a b : Cell) : Cell :=
  match f, a, b with
  | .second, _, b => b
  | .paren, a, b => .text ("(" ++ a.render ++ " " ++ b.render ++ ")")
  | f, .int a, .int b => .int (f.applyInt a b)
  | f, .float a, .float b => .float (f.applyFloat a b)
  | f, .text a, .text b => .text (f.applyText a b)
  | _, a, _ => a

end Combiner

end ForkJoin
