import ForkJoin.Fault

/-!
# Row-major addressing

A list of dimensions, outermost first, says how a flat sequence is read as an array of several
dimensions. The stride of a dimension is the product of the dimensions after it: a position is
the sum of its coordinates times their strides, and dividing by the strides in turn gives the
coordinates back. All numbers are exact here; `Shape.Addressing` forms them in limited arithmetic.

## Main definitions
- `Dims.size`, `Dims.strides`, `Dims.partialProducts`: products of dimensions.
- `Dims.coordsAt`: the coordinates of a position.
- `Dims.offset?`: the position of coordinates, or of the block that leading coordinates select.
- `Dims.step`: the coordinates of the next position, wrapping to zeros after the last.
-/

namespace ForkJoin

/-- The dimensions of an array, outermost first. -/
abbrev Dims := List Nat

/-- One coordinate per dimension, or only for the leading ones. -/
abbrev Coords := List Nat

namespace Dims

/-! ## §1 Products -/

def size : Dims → Nat
  | [] => 1
  | d :: inner => d * size inner

/-- The product of the dimensions from `start` up to `limit`. -/
def sizeOfRange (dims : Dims) (start limit : Nat) : Except Fault Nat :=
  if start ≤ limit ∧ limit ≤ dims.length then
    .ok (size ((dims.take limit).drop start))
  else
    .error .outOfRange

/-- The stride of each dimension: `[A, B, C, D]` has strides `[BCD, CD, D, 1]`. -/
def strides : Dims → List Nat
  | [] => []
  | _ :: inner => size inner :: strides inner

/-- The products of the trailing dimensions, shortest first: `[A, B, C, D]` gives
`[1, D, CD, BCD]`. The empty product is always there. -/
def partialProducts : Dims → List Nat
  | [] => [1]
  | dims => (strides dims).reverse

/-! ## §2 Positions and coordinates -/

/-- The coordinates of a position. Past the last position the outermost coordinate is out of
range. A zero dimension after the first leaves a stride of zero. -/
def coordsAt : Dims → Nat → Except Fault Coords
  | [], _ => .ok []
  | _ :: inner, position => do
    let c ← Fault.checkedDiv position (size inner)
    let rest ← coordsAt inner (position % size inner)
    return c :: rest

/-- The position that coordinates select, or the first position of the block that leading
coordinates select. There is none when a coordinate is out of range or when there are more
coordinates than dimensions. -/
def offset? : Dims → Coords → Option Nat
  | _, [] => some 0
  | [], _ :: _ => none
  | d :: inner, c :: rest =>
    if c < d then (offset? inner rest).map (c * size inner + ·) else none

/-! ## §3 Stepping -/

/-- Adds one in the last dimension and carries outwards. The flag says whether a carry leaves
the outermost dimension. Coordinates beyond the dimensions stay as they are. -/
def increment : Dims → Coords → Bool × Coords
  | [], rest => (true, rest)
  | _ :: _, [] => (true, [])
  | d :: inner, c :: rest =>
    match increment inner rest with
    | (false, rest) => (false, c :: rest)
    -- A carry out of the inner dimensions moves this one on, or out of it in turn.
    | (true, rest) => if c + 1 < d then (false, (c + 1) :: rest) else (true, 0 :: rest)

/-- The coordinates of the next position; after the last one come all zeros. There has to be a
coordinate for every dimension. -/
def step (dims : Dims) (coords : Coords) : Except Fault Coords :=
  if dims.length ≤ coords.length then .ok (increment dims coords).2 else .error .outOfRange

/-! ## §4 Text -/

/-- The dimensions in brackets. -/
def text (dims : Dims) : String :=
  "[" ++ ", ".intercalate (dims.map toString) ++ "]"

end Dims

end ForkJoin
