import ForkJoin.View.Select

/-!
# Text of views

The elements of a view are separated by commas, and an element that is itself a view is enclosed
in angle brackets.

## Main definitions
- `blockText`: the text of a block of cells with given dimensions.
- `View.text`: the text of a view, given that of its cells.
- `Element.text`: the text of an element.
-/

namespace ForkJoin

variable {α : Type}

/-- Encloses the text of an element with dimensions of its own. -/
def bracketed (inner : Dims) (text : String) : String :=
  match inner with
  | [] => text
  | _ :: _ => "<" ++ text ++ ">"

/-- The text of the block of cells that begins at a position. A block without dimensions is one
cell. -/
def blockText (cellText : α → String) (cells : Array α) : Dims → (start : Nat) → String
  | [], start => (cells[start]?).elim "" cellText
  | d :: inner, start =>
    ",".intercalate <| (List.range d).map fun i =>
      bracketed inner (blockText cellText cells inner (start + i * Dims.size inner))

def View.text (cellText : α → String) (view : View α) : String :=
  blockText cellText view.buffer.cells view.shape.dims view.offset

/-- The text of an element: that of a cell, or that of a view in angle brackets. -/
def Element.text (cellText : α → String) : Element α → String
  | .cell value => cellText value
  | .view sub => "<" ++ sub.text cellText ++ ">"

end ForkJoin
