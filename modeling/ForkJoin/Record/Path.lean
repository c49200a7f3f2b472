import ForkJoin.Address
import ForkJoin.Record.Layout

/-!
# Paths into records

A path selects a part of a record step by step: the name of a field in a structure, an index in
an array. An index is written in decimal digits, possibly after one plus sign and possibly with
leading zeros.

## Main definitions
- `parseIndex?`: reads an index.
- `Layout.resolve`: the offset and the layout of the part that a path selects.
-/

namespace ForkJoin

/-- Reads decimal digits onto a number read so far, which stays below the address limit. -/
def parseDigits? : (sofar : Nat) → List Char → Option Nat
  | sofar, [] => some sofar
  | sofar, c :: rest =>
    if '0' ≤ c ∧ c ≤ '9' then
      let next := sofar * 10 + (c.toNat - '0'.toNat)
      if next < addressLimit then parseDigits? next rest else none
    else
      none

/-- Reads an index. There has to be a digit. -/
def parseIndex? (text : String) : Option Nat :=
  match text.toList with
  | [] => none
  | ['+'] => none
  | '+' :: digits => parseDigits? 0 digits
  | digits => parseDigits? 0 digits

/-- The first field of a given name at its place. -/
def Fields.find? (fields : Fields) (name : String) : Option Placement :=
  fields.placements.find? (·.name == name)

/-- One step into a record: where the selected part begins and how it is laid out. -/
def Layout.select (layout : Layout) (step : String) : Except InputError (Nat × Layout) :=
  match layout with
  | .structure fields =>
    match fields.find? step with
    | some place => .ok (place.offset, place.layout)
    | none => .error (.argument (.unknownField step))
  | .array element length =>
    match parseIndex? step with
    | some index =>
      if index < length then .ok (index * element.size, element)
      else .error (.argument (.badIndex step))
    | none => .error (.argument (.badIndex step))
  | .scalar _ => .error (.argument (.stepIntoScalar step))

/-- The offset and the layout of the part that a path selects. The offset is exact here;
`Wrapping.resolve` keeps 64 bits of it. -/
def Layout.resolve : Layout → List String → Except InputError (Nat × Layout)
  | layout, [] => .ok (0, layout)
  | layout, step :: rest => do
    let (start, part) ← layout.select step
    let (offset, target) ← part.resolve rest
    return (start + offset, target)

end ForkJoin
