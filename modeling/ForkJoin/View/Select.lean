import ForkJoin.Shape.Addressing
import ForkJoin.View.Basic

/-!
# Selection

Coordinates select from a view: as many as there are dimensions select a cell, fewer select the
sub-view of the remaining dimensions, which lies on the same buffer. Operations walk the
outermost dimension, whose elements are the cells of a sequence and the rows of a matrix.

## Main definitions
- `Element`: a cell or a sub-view.
- `View.get?`, `View.cell?`, `View.row?`: selection by coordinates.
- `View.elements`: the elements of the outermost dimension.
- `View.elementAt`: one of them, by its position.
- `Arithmetic.get?`: selection by coordinates in limited arithmetic.
-/

namespace ForkJoin

/-- What coordinates select. -/
inductive Element (α : Type) where
  /-- A single cell. -/
  | cell (value : α)
  /-- A sub-view on the same buffer. -/
  | view (sub : View α)
  deriving Repr

namespace View

variable {α : Type}

/-- The number of cells in one element of the outermost dimension, exactly. -/
def innerSize (view : View α) : Nat :=
  view.shape.inner.size

/-- What coordinates select. Nothing is selected by no coordinates, by too many, and by
coordinates out of range. -/
def get? (view : View α) (coords : Coords) : Option (Element α) :=
  let dims := view.shape.dims
  if coords = [] then
    none
  else if coords.length = dims.length then do
    let position ← view.shape.rankKind.offset? dims coords
    let value ← view.buffer.cells[view.offset + position]?
    return .cell value
  else do
    let position ← dims.offset? coords
    let shape ← view.shape.suffix? coords.length
    return .view { view with shape, offset := view.offset + position }

/-- An element of the outermost dimension. -/
def element? (view : View α) (index : Nat) : Option (Element α) :=
  view.get? [index]

/-- The cell at coordinates. -/
def cell? (view : View α) (coords : Coords) : Option α :=
  match view.get? coords with
  | some (.cell value) => some value
  | _ => none

/-- A row of an array with at least two dimensions. -/
def row? (view : View α) (index : Nat) : Option (View α) :=
  match view.element? index with
  | some (.view sub) => some sub
  | _ => none

/-- The elements of the outermost dimension. -/
def elements (view : View α) : List (Element α) :=
  (List.range view.length).filterMap view.element?

/-- An element of the outermost dimension, found from its index alone. The index has to be in
range, and so have the cells of a sequence. -/
def elementAt (view : View α) (index : Nat) : Except Fault (Element α) :=
  match view.shape.inner with
  | [] =>
    if view.offset + view.length ≤ view.buffer.cells.size ∧ index < view.length then
      .cell <$> Fault.checkedGet view.buffer.cells (view.offset + index)
    else
      .error .outOfRange
  | outer :: inner =>
    if index < view.length then
      .ok <| .view { view with
        shape := ⟨outer, inner⟩
        offset := view.offset + index * view.innerSize }
    else
      .error .outOfRange

end View

/-- What coordinates select, if the positions are found in an arithmetic. A position is formed of
coordinates out of range as well, and a cell that is selected has to be there. -/
def Arithmetic.get? {α : Type} (arithmetic : Arithmetic) (view : View α) (coords : Coords) :
    Except Fault (Option (Element α)) :=
  let dims := view.shape.dims
  if coords = [] then
    return none
  else if coords.length = dims.length then do
    match ← arithmetic.kindOffset? view.shape.rankKind dims coords with
    | none => return none
    | some position =>
      let place ← arithmetic.plus view.offset position
      return some (.cell (← Fault.checkedGet view.buffer.cells place))
  else do
    match ← arithmetic.offset? dims coords with
    | none => return none
    | some position =>
      let offset ← arithmetic.plus view.offset position
      return (view.shape.suffix? coords.length).map fun shape => .view { view with shape, offset }

end ForkJoin
