import ForkJoin.Arithmetic
import ForkJoin.Shape.FastPath

/-!
# Addressing one operation after another

Row-major addressing as a machine goes about it: the products of the trailing dimensions are put
together first, whether the position needs them or not, and every product, every sum and every
difference is formed in an arithmetic that may keep only part of it. Dimensions that were validated
lose nothing on the way, but addressing can be asked for with any dimensions.

## Main definitions
- `Arithmetic.partialProducts`, `Arithmetic.sizeOfRange`: products of dimensions.
- `Arithmetic.offset?`, `Arithmetic.coordsAt`: both directions through the table of products.
- `Arithmetic.kindOffset?`, `Arithmetic.kindCoordsAt`: both directions on the path for the number of
  dimensions.
- `Arithmetic.step`: the coordinates of the next position.
-/

namespace ForkJoin

namespace Arithmetic

variable (arithmetic : Arithmetic)

/-! ## §1 Products -/

/-- The product of the dimensions from `start` up to `stop`, multiplied from the left. -/
def sizeOfRange (dims : Dims) (start stop : Nat) : Except Fault Nat :=
  if start ≤ stop ∧ stop ≤ dims.length then
    ((dims.take stop).drop start).foldlM arithmetic.times 1
  else
    .error .outOfRange

/-- The products with more and more dimensions, each formed of the one before. -/
def productsFrom : (product : Nat) → Dims → Except Fault (List Nat)
  | product, [] => .ok [product]
  | product, d :: rest => do
    let next ← arithmetic.times product d
    return product :: (← productsFrom next rest)

/-- The products of the trailing dimensions, shortest first. -/
def partialProducts (dims : Dims) : Except Fault (List Nat) :=
  arithmetic.productsFrom 1 dims.tail.reverse

/-! ## §2 Positions and coordinates -/

/-- Adds up coordinates times the entries of a table, as long as the coordinates are in range. -/
def offsetBy? : Dims → List Nat → Coords → Nat → Except Fault (Option Nat)
  | _, _, [], offset => .ok (some offset)
  | d :: inner, stride :: table, c :: rest, offset =>
    if c < d then do
      let term ← arithmetic.times c stride
      let next ← arithmetic.plus offset term
      offsetBy? inner table rest next
    else
      .ok none
  | _, _, _ :: _, _ => .ok none

/-- The position of coordinates, or of the block that leading coordinates select. -/
def offset? (dims : Dims) (coords : Coords) : Except Fault (Option Nat) :=
  if dims.length < coords.length then
    .ok none
  else do
    let table ← arithmetic.partialProducts dims
    arithmetic.offsetBy? dims table.reverse coords 0

/-- Divides by the entries of a table in turn, and takes away what each quotient stands for. -/
def divideInTurn : List Nat → Nat → Except Fault Coords
  | [], _ => .ok []
  | stride :: table, remaining => do
    let c ← arithmetic.quotient remaining stride
    let taken ← arithmetic.times c stride
    let left ← arithmetic.minus remaining taken
    return c :: (← divideInTurn table left)

/-- The coordinates of a position, one for each dimension. -/
def coordsAt : Dims → (position : Nat) → Except Fault Coords
  | [], _ => .ok []
  | dims, position => do
    let table ← arithmetic.partialProducts dims
    arithmetic.divideInTurn table.reverse position

/-! ## §3 One, two and three dimensions -/

/-- The position of a full coordinate list, on the path for the number of dimensions. With two and
three dimensions the number is formed before the coordinates are looked at, and is dropped if one of
them is out of range. -/
def kindOffset? (kind : RankKind) (dims : Dims) (coords : Coords) : Except Fault (Option Nat) :=
  match kind, coords with
  | .one xs, [x] => .ok (if x < xs then some x else none)
  | .two xs ys, [x, y] => do
    let row ← arithmetic.times x ys
    let position ← arithmetic.plus row y
    return if x < xs ∧ y < ys then some position else none
  | .three xs ys zs, [x, y, z] => do
    let row ← arithmetic.times y zs
    let inPlane ← arithmetic.plus z row
    let rows ← arithmetic.times x ys
    let planes ← arithmetic.times rows zs
    let position ← arithmetic.plus inPlane planes
    return if x < xs ∧ y < ys ∧ z < zs then some position else none
  | .general, coords =>
    if coords.length = dims.length then arithmetic.offset? dims coords else .ok none
  | _, _ => .ok none

/-- The coordinates of a position, on the path for the number of dimensions. -/
def kindCoordsAt (kind : RankKind) (dims : Dims) (position : Nat) : Except Fault Coords :=
  match kind with
  | .one _ => .ok [position]
  | .two _ ys => do
    return [← arithmetic.quotient position ys, ← arithmetic.remainder position ys]
  | .three _ ys zs => do
    let plane ← arithmetic.times ys zs
    let x ← arithmetic.quotient position plane
    let rows ← arithmetic.times x ys
    let planes ← arithmetic.times rows zs
    let rest ← arithmetic.minus position planes
    return [x, ← arithmetic.quotient rest zs, ← arithmetic.remainder rest zs]
  | .general => arithmetic.coordsAt dims position

/-! ## §4 Stepping -/

/-- Adds one in the last dimension and carries outwards. The flag says whether a carry leaves the
outermost dimension. -/
def increment : Dims → Coords → Except Fault (Bool × Coords)
  | [], rest => .ok (true, rest)
  | _ :: _, [] => .ok (true, [])
  | d :: inner, c :: rest => do
    let (carry, rest) ← increment inner rest
    if carry then
      let next ← arithmetic.plus c 1
      return if next < d then (false, next :: rest) else (true, 0 :: rest)
    else
      return (false, c :: rest)

/-- The coordinates of the next position; after the last one come all zeros. There has to be a
coordinate for every dimension. -/
def step (dims : Dims) (coords : Coords) : Except Fault Coords :=
  if dims.length ≤ coords.length then do
    let (_, next) ← arithmetic.increment dims coords
    return next
  else
    .error .outOfRange

end Arithmetic

end ForkJoin
