import ForkJoin.Number.Positional
import ForkJoin.View.Text

/-!
# Cells

A session works on arrays whose cells are integers of 64 bits, floating-point numbers or texts.

## Main definitions
- `Cell`: a cell.
- `Cell.render`: its text.
- `Cell.key`, `Element.key`: the number that a filter compares.
-/

namespace ForkJoin

inductive Cell where
  | int (value : Int64)
  | float (value : Float)
  | text (value : String)

namespace Cell

def render : Cell → String
  | .int value => toString value.toInt
  | .float value => floatText value
  | .text value => value

/-- Whether two cells are of one kind and equal. What is not a number equals nothing, and the two
zeros are equal. -/
def equal : Cell → Cell → Bool
  | .int a, .int b => a == b
  | .float a, .float b => a == b
  | .text a, .text b => a == b
  | _, _ => false

instance : BEq Cell := ⟨equal⟩

/-- The number that a cell is compared by: its value without the fraction, or the number of bytes
of a text. -/
def key : Cell → Int64
  | .int value => value
  | .float value =>
    Int64.ofInt ((Binary64.ofFloat value).truncateInto Int64.minValue.toInt Int64.maxValue.toInt)
  | .text value => Int64.ofNat value.utf8ByteSize

end Cell

def View.render (view : View Cell) : String :=
  view.text Cell.render

namespace Element

/-- The text of an element, a view in angle brackets. -/
def render (element : Element Cell) : String :=
  element.text Cell.render

/-- The number that an element is compared by; that of a view is the sum over its cells. -/
def key : Element Cell → Int64
  | .cell value => value.key
  | .view sub => sub.toArray.foldl (fun sum value => sum + value.key) 0

end Element

end ForkJoin
