import ForkJoin.Cell.Combiner
import ForkJoin.Operation.Filter

/-!
# Rules

The functions that a session builds, maps and filters with.

## Main definitions
- `BuildRule.apply`: cells from coordinates.
- `MapRule.apply`: cells from elements in their place.
- `FilterRule.apply`: verdicts on elements in their place.
-/

namespace ForkJoin

/-! ## §1 Building -/

inductive BuildRule where
  /-- The coordinates, separated by slashes. -/
  | coords
  /-- The sum of the coordinates times some weights. -/
  | linear (weights : List Int)
  /-- The position. -/
  | offset
  /-- The sum of the coordinates, divided by two, three and so on. -/
  | fraction
  /-- Always the same cell. -/
  | constant (value : Cell)

/-- Adds coordinates divided by `divisor`, `divisor + 1` and so on. -/
def fractionSum : (divisor : Nat) → Float → Coords → Float
  | _, sum, [] => sum
  | divisor, sum, c :: rest =>
    fractionSum (divisor + 1) (sum + Float.ofNat c / Float.ofNat divisor) rest

def BuildRule.apply (rule : BuildRule) (shape : Shape) (coords : Coords) : Cell :=
  match rule with
  | .coords => .text ("/".intercalate (coords.map toString))
  | .linear weights =>
    .int (Int64.ofInt ((coords.zip weights).foldl (fun sum (c, w) => sum + c * w) 0))
  | .offset => .int (Int64.ofNat ((shape.dims.offset? coords).getD 0))
  | .fraction => .float (fractionSum 2 0 coords)
  | .constant value => value

/-! ## §2 Mapping -/

/-- A function of an element in its place. -/
inductive MapRule where
  /-- The cell, or the text of a view. -/
  | identity
  /-- The text of the element. -/
  | display
  /-- The index added to the cell, or the index alone for a view. -/
  | addIndex
  /-- The cell times a factor, or the length of a view times the factor. -/
  | scale (factor : Int)
  /-- The sum of the cells. -/
  | sum
  /-- The shape and offset of a view. -/
  | describe
  /-- The text of the element some places further on, counted around the end. -/
  | neighbour (distance : Int)
  /-- The text of what coordinates select from the source. -/
  | pick (coords : Coords)
  /-- The text of what coordinates select from the element. -/
  | pickInside (coords : Coords)

def selectedText (found : Option (Element Cell)) : String :=
  found.elim "none" Element.render

/-- The sum of the cells of a view; zero if there is none. -/
def cellSum (view : View Cell) : Cell :=
  match view.toArray.toList with
  | [] => .int 0
  | first :: rest => rest.foldl (Combiner.apply .add) first

def MapRule.apply (rule : MapRule) (visit : Visit Cell) : Cell :=
  let ⟨element, index, source⟩ := visit
  match rule, element with
  | .identity, .cell value => value
  | .identity, .view sub => .text sub.render
  | .display, element => .text element.render
  | .addIndex, .cell (.int value) => .int (value + Int64.ofNat index)
  | .addIndex, .cell (.float value) => .float (value + Float.ofNat index)
  | .addIndex, .cell (.text value) => .text (value ++ toString index)
  | .addIndex, .view _ => .int (Int64.ofNat index)
  | .scale factor, .cell (.int value) => .int (value * Int64.ofInt factor)
  | .scale factor, .cell (.float value) => .float (value * Float.ofInt factor)
  | .scale _, .cell (.text value) => .text value
  | .scale factor, .view sub => .int (Int64.ofNat sub.length * Int64.ofInt factor)
  | .sum, .cell value => value
  | .sum, .view sub => cellSum sub
  | .describe, .cell _ => .text "scalar"
  | .describe, .view sub => .text s!"{sub.shape.text}@{sub.offset}"
  | .neighbour distance, _ =>
    let place := (index + distance) % source.length
    .text (selectedText (source.element? place.toNat))
  | .pick coords, _ => .text (selectedText (source.get? coords))
  | .pickInside _, .cell _ => .text "scalar"
  | .pickInside coords, .view sub => .text (selectedText (sub.get? coords))

/-! ## §3 Filtering -/

/-- A predicate of an element in its place. -/
inductive FilterRule where
  | all
  | none
  /-- The index leaves a remainder. -/
  | indexRemainder (divisor remainder : Int)
  /-- The key leaves a remainder. -/
  | keyRemainder (divisor remainder : Int)
  /-- The key is above a bound. -/
  | above (bound : Int)
  /-- The index is listed. -/
  | listed (indices : List Int)
  /-- The key is above that of the element before; the first element has none before it. -/
  | rising

def FilterRule.apply (rule : FilterRule) (visit : Visit Cell) : Bool :=
  let ⟨element, index, source⟩ := visit
  match rule with
  | .all => true
  | .none => false
  | .indexRemainder divisor remainder => (index : Int) % divisor == remainder
  | .keyRemainder divisor remainder => element.key.toInt % divisor == remainder
  | .above bound => bound < element.key.toInt
  | .listed indices => indices.contains (index : Int)
  | .rising =>
    index == 0 || (source.element? (index - 1)).all fun before => before.key < element.key

end ForkJoin
