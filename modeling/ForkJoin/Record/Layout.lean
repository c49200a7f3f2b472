import ForkJoin.InputError
import ForkJoin.Record.Scalar

/-!
# Record layouts

A layout says how one record lies in a byte buffer: a scalar, a fixed number of equal elements,
or a structure of named fields. Fields are placed in declaration order, each at the first offset
that its alignment permits, and a structure ends at a multiple of its alignment, so that records
can be packed back to back. Sizes and offsets are exact here; `Record.Wrapping` has those of which
64 bits are kept.

## Main definitions
- `Layout`, `Fields`: the types.
- `Layout.size`, `Layout.align`: bytes per record and alignment.
- `Fields.placements`: the fields with their offsets.
- `Layout.structure?`: a structure of fields with different names.
-/

namespace ForkJoin

mutual

/-- How one record lies in a byte buffer. -/
inductive Layout where
  | scalar (kind : ScalarKind)
  | array (element : Layout) (length : Nat)
  | structure (fields : Fields)

/-- Named fields, in declaration order. -/
inductive Fields where
  | nil
  | cons (name : String) (layout : Layout) (rest : Fields)

end

/-- The first multiple of an alignment at or after an offset, exactly. `Wrapping.alignUp` keeps 64 bits
of it. -/
def alignUp (offset align : Nat) : Nat :=
  (offset + align - 1) / align * align

mutual

/-- What the offset of a record has to be a multiple of. -/
def Layout.align : Layout → Nat
  | .scalar kind => kind.size
  | .array element _ => element.align
  | .structure fields => fields.align

def Fields.align : Fields → Nat
  | .nil => 1
  | .cons _ layout rest => max layout.align rest.align

end

mutual

/-- The number of bytes of a record, with the padding at its end. This is the exact number, of which
`Wrapping.size` keeps 64 bits. -/
def Layout.size : Layout → Nat
  | .scalar kind => kind.size
  | .array element length => element.size * length
  | .structure fields => alignUp (fields.endFrom 0) fields.align

/-- Where the last of the fields ends, the first of them being placed from `offset` on. -/
def Fields.endFrom : Fields → (offset : Nat) → Nat
  | .nil, offset => offset
  | .cons _ layout rest, offset => rest.endFrom (alignUp offset layout.align + layout.size)

end

/-- A field at its place in a record. -/
structure Placement where
  name : String
  offset : Nat
  layout : Layout

namespace Fields

/-- The fields at their places, the first of them placed from `offset` on. -/
def placementsFrom : Fields → (offset : Nat) → List Placement
  | .nil, _ => []
  | .cons name layout rest, offset =>
    let start := alignUp offset layout.align
    ⟨name, start, layout⟩ :: rest.placementsFrom (start + layout.size)

def placements (fields : Fields) : List Placement :=
  fields.placementsFrom 0

def ofList : List (String × Layout) → Fields
  | [] => .nil
  | (name, layout) :: rest => .cons name layout (ofList rest)

end Fields

namespace Layout

def duplicate? (seen : List String) : List String → Option String
  | [] => none
  | name :: rest => if seen.contains name then some name else duplicate? (name :: seen) rest

/-- The structure of some fields, whose names have to be different. -/
def structure? (fields : List (String × Layout)) : Except InputError Layout :=
  match duplicate? [] (fields.map (·.1)) with
  | some name => .error (.argument (.duplicateField name))
  | none => .ok (.structure (.ofList fields))

end Layout

end ForkJoin
