import ForkJoin.Address
import ForkJoin.InputError
import ForkJoin.Shape.FastPath

/-!
# Shapes

A shape has at least one dimension, and it is valid when its elements can be addressed with 64
bits. The dimensions are multiplied from the left, so a zero saves a shape only from the
dimensions after it.

## Main definitions
- `Shape`: an outer dimension and the dimensions of one element of it.
- `Shape.ofDims?`, `Shape.ofNumbers?`: validated construction.
- `Shape.suffix?`: the shape that leading coordinates select.
-/

namespace ForkJoin

/-- The dimensions of an array: the outermost one and those of each of its elements. -/
structure Shape where
  outer : Nat
  inner : Dims
  deriving DecidableEq, Repr

namespace Shape

/-- Multiplies dimensions from the left, as long as every product can be addressed. -/
def checkedSize (dims : Dims) : Option Nat :=
  dims.foldlM (fun product d => if product * d < addressLimit then some (product * d) else none) 1

/-- The shape with these dimensions. -/
def ofDims? : Dims → Except InputError Shape
  | [] => .error (.argument .noDimensions)
  | outer :: inner =>
    if (checkedSize (outer :: inner)).isSome then .ok ⟨outer, inner⟩
    else .error (.argument (.sizeOverflow (outer :: inner)))

/-- The shape of a sequence. -/
def vector (length : Nat) : Shape :=
  ⟨length, []⟩

/-- The largest dimension that can be given as a floating-point number. -/
def maxNumberedLength : Int := (1 <<< 32 : Nat) - 1

/-- The length that a number stands for: a whole number, not negative and not too large. -/
def lengthOfNumber? (x : Binary64) : Option Nat :=
  match x.toInt? with
  | some n => if 0 ≤ n ∧ n ≤ maxNumberedLength then some n.toNat else none
  | none => none

/-- Reads lengths from the given axis on; the first bad one is reported. -/
def lengthsOfNumbers? : (axis : Nat) → List Binary64 → Except InputError Dims
  | _, [] => .ok []
  | axis, x :: rest =>
    match lengthOfNumber? x with
    | none => .error (.argument (.badLength axis x))
    | some n => do return n :: (← lengthsOfNumbers? (axis + 1) rest)

/-- The shape whose dimensions are given as floating-point numbers. -/
def ofNumbers? (numbers : List Binary64) : Except InputError Shape := do
  ofDims? (← lengthsOfNumbers? 0 numbers)

def dims (shape : Shape) : Dims :=
  shape.outer :: shape.inner

def rank (shape : Shape) : Nat :=
  shape.dims.length

def size (shape : Shape) : Nat :=
  shape.dims.size

def isEmpty (shape : Shape) : Bool :=
  shape.size == 0

/-- The path that addressing takes. -/
def rankKind (shape : Shape) : RankKind :=
  .of shape.dims

/-- The shape that remains after the leading dimensions, if any dimension does. -/
def suffix? (shape : Shape) (leading : Nat) : Option Shape :=
  match shape.dims.drop leading with
  | [] => none
  | outer :: inner => some ⟨outer, inner⟩

/-- The dimensions in brackets. -/
def text (shape : Shape) : String :=
  shape.dims.text

end Shape

end ForkJoin
