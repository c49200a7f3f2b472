import ForkJoin.Operation.Sweep
import ForkJoin.Partition.Window
import ForkJoin.Record.Path

/-!
# Packed records

A byte buffer that holds a whole number of records of one layout. Records are not decoded until a
scalar of one is asked for. Mapping records applies a function to the bytes and the offset of
every record.

## Main definitions
- `Records.ofBytes?`: validated construction.
- `Records.offset?`, `Records.field`, `Records.read`: one record.
- `Records.map`: all records.
-/

namespace ForkJoin

/-- Records packed back to back. -/
structure Records where
  bytes : Array UInt8
  layout : Layout
  /-- The number of records. -/
  length : Nat

/-- What a function of records is applied to. -/
structure RecordVisit where
  bytes : Array UInt8
  offset : Nat

namespace Records

variable {β : Type}

/-- The records in a buffer, which has to hold a whole number of them. -/
def ofBytes? (bytes : Array UInt8) (layout : Layout) : Except InputError Records :=
  let size := layout.size
  if size = 0 ∨ bytes.size % size ≠ 0 then
    .error (.argument (.brokenRecords bytes.size size))
  else
    .ok ⟨bytes, layout, bytes.size / size⟩

def isEmpty (records : Records) : Bool :=
  records.length == 0

/-- Where a record begins. -/
def offset? (records : Records) (index : Nat) : Option Nat :=
  if index < records.length then some (index * records.layout.size) else none

/-- Where a part of a record begins. -/
def field (records : Records) (index : Nat) (path : List String) : Except InputError Nat :=
  match records.offset? index with
  | none => .error (.argument (.noRecord index records.length))
  | some start => do
    let (offset, _) ← records.layout.resolve path
    return start + offset

/-- The scalar that a path selects in a record. The path is looked at first. -/
def read (records : Records) (index : Nat) (path : List String) : Except InputError Float := do
  let (offset, part) ← records.layout.resolve path
  match part with
  | .scalar kind =>
    if records.length ≤ index then
      .error (.argument (.noRecord index records.length))
    else
      match kind.read? records.bytes (index * records.layout.size + offset) with
      | some value => .ok value
      | none => .error (.argument .truncatedRecord)
  | _ => .error (.argument (.notScalar path))

/-- Appends the values of `f` at the records of one chunk. -/
def mapKernel (records : Records) (f : RecordVisit → β) : Kernel RecordVisit (Array β) where
  warmup := 1
  work chunk out :=
    (Span.ofChunk chunk records.length).positions.foldlM (fun out i =>
      out.push <$> Calling.call f ⟨records.bytes, i * records.layout.size⟩) out

/-- The values of `f` at all records. -/
def map (records : Records) (setting : Setting) (f : RecordVisit → β) :
    Except Fault (Run RecordVisit (View β)) := do
  let run ← sweep setting .map records.length (records.mapKernel f) fun _ => #[]
  run.conclude fun
    | none => .ok (.ok (.empty setting.newBuffer))
    | some parts => .ok (.ok (.ofArray setting.newBuffer (joinArrays parts)))

end Records

end ForkJoin
