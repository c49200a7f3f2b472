import ForkJoin.Record.Records

/-!
# Records at 64 bits

Sizes and offsets as a machine forms them: of every product, every sum and every multiple of an
alignment the low 64 bits are kept, and the next number is formed of those. Nothing is lost of a
layout whose size can be addressed, but layouts of any size can be put together.

## Main definitions
- `Wrapping.size`, `Wrapping.placements`: sizes of layouts and places of fields.
- `Wrapping.text`: a layout as text, with the places of its fields.
- `Wrapping.resolve`: the offset and the layout of the part that a path selects.
- `Wrapping.ofBytes?`, `Wrapping.offset?`, `Wrapping.field`, `Wrapping.read`: packed records.
- `Wrapping.map`: all records.
-/

namespace ForkJoin

namespace Wrapping

/-! ## §1 Layouts -/

/-- The first multiple of an alignment at or after an offset. The quotient is rounded up, and its
product with the alignment is kept. -/
def alignUp (offset align : Nat) : Nat :=
  wrapAddress (ForkJoin.alignUp offset align)

mutual

/-- The number of bytes of a record, with the padding at its end. -/
def size : Layout → Nat
  | .scalar kind => kind.size
  | .array element length => wrapAddress (size element * length)
  | .structure fields => alignUp (endFrom fields 0) fields.align

/-- Where the last of the fields ends, the first of them being placed from `offset` on. -/
def endFrom : Fields → (offset : Nat) → Nat
  | .nil, offset => offset
  | .cons _ layout rest, offset =>
    endFrom rest (wrapAddress (alignUp offset layout.align + size layout))

end

/-- The fields at their places, the first of them placed from `offset` on. -/
def placementsFrom : Fields → (offset : Nat) → List Placement
  | .nil, _ => []
  | .cons name layout rest, offset =>
    let start := alignUp offset layout.align
    ⟨name, start, layout⟩ :: placementsFrom rest (wrapAddress (start + size layout))

def placements (fields : Fields) : List Placement :=
  placementsFrom fields 0

mutual

def text : Layout → String
  | .scalar kind => kind.name
  | .array element length => s!"[{text element}; {length}]"
  | .structure fields => "\x7b" ++ ", ".intercalate (textsFrom fields 0) ++ "\x7d"

/-- The texts of the fields, the first of them placed from `offset` on. -/
def textsFrom : Fields → (offset : Nat) → List String
  | .nil, _ => []
  | .cons name layout rest, offset =>
    let start := alignUp offset layout.align
    s!"{name}@{start}: {text layout}" :: textsFrom rest (wrapAddress (start + size layout))

end

/-! ## §2 Paths -/

/-- One step into a record: where the selected part begins and how it is laid out. -/
def select (layout : Layout) (step : String) : Except InputError (Nat × Layout) :=
  match layout with
  | .structure fields =>
    match (placements fields).find? (·.name == step) with
    | some place => .ok (place.offset, place.layout)
    | none => .error (.argument (.unknownField step))
  | .array element length =>
    match parseIndex? step with
    | some index =>
      if index < length then .ok (wrapAddress (index * size element), element)
      else .error (.argument (.badIndex step))
    | none => .error (.argument (.badIndex step))
  | .scalar _ => .error (.argument (.stepIntoScalar step))

/-- Adds the offset of every step to that of the steps before. -/
def resolveFrom : (offset : Nat) → Layout → List String → Except InputError (Nat × Layout)
  | offset, layout, [] => .ok (offset, layout)
  | offset, layout, step :: rest => do
    let (start, part) ← select layout step
    resolveFrom (wrapAddress (offset + start)) part rest

/-- The offset and the layout of the part that a path selects. -/
def resolve (layout : Layout) (path : List String) : Except InputError (Nat × Layout) :=
  resolveFrom 0 layout path

/-! ## §3 Records -/

/-- The number at an offset, if the bytes from there to its end are in the buffer. -/
def readScalar? (kind : ScalarKind) (bytes : Array UInt8) (offset : Nat) : Option Float :=
  let stop := wrapAddress (offset + kind.size)
  if offset ≤ stop ∧ stop ≤ bytes.size then
    some (kind.decode (ScalarKind.ofBytes (bytes.extract offset stop).toList))
  else
    none

/-- The records in a buffer, which has to hold a whole number of them. -/
def ofBytes? (bytes : Array UInt8) (layout : Layout) : Except InputError Records :=
  let size := size layout
  if size = 0 ∨ bytes.size % size ≠ 0 then
    .error (.argument (.brokenRecords bytes.size size))
  else
    .ok ⟨bytes, layout, bytes.size / size⟩

/-- Where a record begins. -/
def offset? (records : Records) (index : Nat) : Option Nat :=
  if index < records.length then some (wrapAddress (index * size records.layout)) else none

/-- Where a part of a record begins. -/
def field (records : Records) (index : Nat) (path : List String) : Except InputError Nat :=
  match offset? records index with
  | none => .error (.argument (.noRecord index records.length))
  | some start => do
    let (offset, _) ← resolve records.layout path
    return wrapAddress (start + offset)

/-- The scalar that a path selects in a record. The path is looked at first. -/
def read (records : Records) (index : Nat) (path : List String) : Except InputError Float := do
  let (offset, part) ← resolve records.layout path
  match part with
  | .scalar kind =>
    if records.length ≤ index then
      .error (.argument (.noRecord index records.length))
    else
      let start := wrapAddress (index * size records.layout)
      match readScalar? kind records.bytes (wrapAddress (start + offset)) with
      | some value => .ok value
      | none => .error (.argument .truncatedRecord)
  | _ => .error (.argument (.notScalar path))

section

variable {β : Type}

/-- Appends the values of `f` at the records of one chunk. -/
def mapKernel (records : Records) (f : RecordVisit → β) : Kernel RecordVisit (Array β) where
  warmup := 1
  work chunk out :=
    (Span.ofChunk chunk records.length).positions.foldlM (fun out i =>
      out.push <$> Calling.call f ⟨records.bytes, wrapAddress (i * size records.layout)⟩) out

/-- The values of `f` at all records. -/
def map (records : Records) (setting : Setting) (f : RecordVisit → β) :
    Except Fault (Run RecordVisit (View β)) := do
  let run ← sweep setting .map records.length (mapKernel records f) fun _ => #[]
  run.conclude fun
    | none => .ok (.ok (.empty setting.newBuffer))
    | some parts => .ok (.ok (.ofArray setting.newBuffer (joinArrays parts)))

end

end Wrapping

end ForkJoin
