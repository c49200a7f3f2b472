import ForkJoin.Shape.Dims

/-!
# Addressing with one, two and three dimensions

Most arrays have at most three dimensions. For those the position of a full coordinate list and
the coordinates of a position are written out; arrays with more dimensions (or none) take the
general path through the strides.

## Main definitions
- `RankKind`: which path an array takes, with its dimensions.
- `RankKind.offset?`, `RankKind.coordsAt`: both directions of addressing.
- `RankKind.coordsIn`: all coordinate lists of a run of positions, in order.
-/

namespace ForkJoin

/-- The path that addressing takes. -/
inductive RankKind where
  | one (x : Nat)
  | two (x y : Nat)
  | three (x y z : Nat)
  | general
  deriving DecidableEq, Repr

namespace RankKind

/-- The path for some dimensions. -/
def of : Dims → RankKind
  | [x] => .one x
  | [x, y] => .two x y
  | [x, y, z] => .three x y z
  | _ => .general

/-- The position of a full coordinate list. There is none when a coordinate is out of range or
their number is not that of the dimensions. The number comes before the test, and is formed exactly
here; `Arithmetic.kindOffset?` forms it in limited arithmetic. -/
def offset? (kind : RankKind) (dims : Dims) (coords : Coords) : Option Nat :=
  match kind, coords with
  | .one xs, [x] => if x < xs then some x else none
  | .two xs ys, [x, y] =>
    let position := x * ys + y
    if x < xs ∧ y < ys then some position else none
  | .three xs ys zs, [x, y, z] =>
    let position := z + y * zs + x * ys * zs
    if x < xs ∧ y < ys ∧ z < zs then some position else none
  | .general, coords => if coords.length = dims.length then dims.offset? coords else none
  | _, _ => none

/-- The coordinates of a position. -/
def coordsAt (kind : RankKind) (dims : Dims) (position : Nat) : Except Fault Coords :=
  match kind with
  | .one _ => .ok [position]
  | .two _ ys => do
    return [← Fault.checkedDiv position ys, ← Fault.checkedMod position ys]
  | .three _ ys zs => do
    let x ← Fault.checkedDiv position (ys * zs)
    let rest ← Fault.checkedSub position (x * ys * zs)
    return [x, ← Fault.checkedDiv rest zs, ← Fault.checkedMod rest zs]
  | .general => dims.coordsAt position

/-- `count` coordinate lists in row-major order, the first one given. -/
def walk (dims : Dims) : Nat → Coords → Except Fault (List Coords)
  | 0, _ => .ok []
  | count + 1, coords => do
    let next ← dims.step coords
    return coords :: (← walk dims count next)

/-- The coordinate lists of the positions from `start` on. One to three dimensions divide every
position; more dimensions divide once and then step. -/
def coordsIn (kind : RankKind) (dims : Dims) (start count : Nat) : Except Fault (List Coords) :=
  match kind with
  | .one _ => .ok ((List.range' start count).map fun x => [x])
  | .two _ ys =>
    (List.range' start count).mapM fun i => do
      return [← Fault.checkedDiv i ys, ← Fault.checkedMod i ys]
  | .three _ ys zs =>
    (List.range' start count).mapM fun i => do
      let plane := ys * zs
      let rest ← Fault.checkedMod i plane
      return [← Fault.checkedDiv i plane, ← Fault.checkedDiv rest zs, ← Fault.checkedMod rest zs]
  | .general => do
    let first ← dims.coordsAt start
    walk dims count first

end RankKind

end ForkJoin
