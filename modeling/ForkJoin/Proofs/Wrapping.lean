import ForkJoin.Proofs.Layouts
import ForkJoin.Proofs.Tables
import ForkJoin.Record.Wrapping

/-!
# Records that can be addressed

Every alignment divides the number of addresses, so rounding up to one goes together with keeping 64
bits. Hence the sizes and offsets that a machine forms are what 64 bits are of the exact ones, however
many numbers were wrapped on the way, and they are the exact ones if the size of the whole layout can be
addressed: every part ends where the layout does or before. Records in a buffer that can be addressed
begin and end inside it, so all that is done with them is exact as well.

## Main statements
- `Wrapping.alignUp_eq`: rounding up.
- `Wrapping.size_eq`, `Wrapping.placements_eq`, `Wrapping.resolve_eq`: what is kept of layouts and paths.
- `Wrapping.resolve_of_lt`, `Wrapping.ofBytes?_of_lt`, `Wrapping.read_of_lt`, `Wrapping.map_of_lt`:
  nothing is lost of what can be addressed.
-/

namespace ForkJoin

/-! ## §1 Rounding up -/

/-- Whole multiples in front of an offset stay in front of what it is rounded up to. -/
theorem alignUp_add_mul {align : Nat} (h : 0 < align) (offset k : Nat) :
    alignUp (offset + k * align) align = alignUp offset align + k * align := by
  have hshift : offset + k * align + align - 1 = offset + align - 1 + k * align := by omega
  rw [alignUp, alignUp, hshift, Nat.add_mul_div_right _ _ h, Nat.add_mul]

namespace Wrapping

/-- What rounding up keeps of an offset of which 64 bits are known. -/
theorem alignUp_eq {align : Nat} (hpos : 0 < align) (hdvd : align ∣ addressLimit) (offset : Nat) :
    alignUp (wrapAddress offset) align = wrapAddress (ForkJoin.alignUp offset align) := by
  obtain ⟨m, hm⟩ := hdvd
  -- The bits that are lost are a multiple of the alignment.
  have hsplit : offset = wrapAddress offset + offset / addressLimit * m * align := by
    rw [wrapAddress, Nat.mul_assoc, Nat.mul_comm m, ← hm, Nat.mod_add_div']
  rw [alignUp]
  conv_rhs => rw [hsplit]
  rw [alignUp_add_mul hpos, Nat.mul_assoc, Nat.mul_comm m, ← hm]
  exact (Nat.add_mul_mod_self_right ..).symm

/-! ## §2 Sizes and places -/

mutual

/-- A size is what 64 bits are of the exact one. -/
theorem size_eq : (layout : Layout) → size layout = wrapAddress layout.size
  | .scalar kind => (wrapAddress_of_lt kind.size_lt).symm
  | .array element length => by
    rw [size, size_eq element, wrapAddress_mul_left, Layout.size]
  | .structure fields => by
    have hend := endFrom_eq fields 0
    have hzero : wrapAddress 0 = 0 := wrapAddress_of_lt (by decide)
    rw [hzero] at hend
    have hpos : 0 < fields.align := (Layout.structure fields).align_pos
    have hdvd : fields.align ∣ addressLimit := (Layout.structure fields).align_dvd_addressLimit
    rw [size, hend, alignUp_eq hpos hdvd, Layout.size]

theorem endFrom_eq : (fields : Fields) → (offset : Nat) →
    endFrom fields (wrapAddress offset) = wrapAddress (fields.endFrom offset)
  | .nil, offset => rfl
  | .cons _ layout rest, offset => by
    rw [endFrom, alignUp_eq layout.align_pos layout.align_dvd_addressLimit, size_eq layout,
      wrapAddress_add, endFrom_eq rest, Fields.endFrom]

end

/-- A field at the place that is left of its own. -/
def keepPlace (place : Placement) : Placement :=
  { place with offset := wrapAddress place.offset }

theorem placementsFrom_eq : (fields : Fields) → (offset : Nat) →
    placementsFrom fields (wrapAddress offset) = (fields.placementsFrom offset).map keepPlace
  | .nil, _ => rfl
  | .cons name layout rest, offset => by
    simp only [placementsFrom, Fields.placementsFrom, List.map_cons,
      alignUp_eq layout.align_pos layout.align_dvd_addressLimit, size_eq, wrapAddress_add,
      placementsFrom_eq rest]
    rfl

theorem placements_eq (fields : Fields) : placements fields = fields.placements.map keepPlace :=
  placementsFrom_eq fields 0

/-! ## §3 Paths -/

/-- A part at the offset that is left of its own. -/
def keepOffset (part : Nat × Layout) : Nat × Layout :=
  (wrapAddress part.1, part.2)

theorem select_eq (layout : Layout) (step : String) :
    select layout step = (layout.select step).map keepOffset := by
  cases layout with
  | scalar kind => rfl
  | array element length =>
    rw [select, Layout.select]
    cases parseIndex? step with
    | none => rfl
    | some index =>
      simp only [size_eq, wrapAddress_mul_right]
      split <;> rfl
  | «structure» fields =>
    -- Fields keep their names, so the same one is found.
    have hfind : (placements fields).find? (·.name == step) =
        (fields.placements.find? (·.name == step)).map keepPlace := by
      rw [placements_eq, List.find?_map]
      rfl
    rw [select, hfind, Layout.select, Fields.find?]
    cases fields.placements.find? (·.name == step) <;> rfl

/-- The offsets of the steps may be added one after another, to what is left of those before. -/
theorem resolveFrom_eq (offset : Nat) (layout : Layout) (path : List String) :
    resolveFrom (wrapAddress offset) layout path =
      (layout.resolve path).map fun part => keepOffset (offset + part.1, part.2) := by
  induction path generalizing offset layout with
  | nil => rfl
  | cons step rest ih =>
    rw [resolveFrom, Layout.resolve, select_eq]
    cases layout.select step with
    | error cause => rfl
    | ok found =>
      obtain ⟨start, part⟩ := found
      show resolveFrom (wrapAddress (wrapAddress offset + wrapAddress start)) part rest = _
      -- Both offsets may be wrapped before they are added.
      rw [wrapAddress_add, ih]
      show _ = ((part.resolve rest >>= fun found => .ok (start + found.1, found.2)).map _)
      cases part.resolve rest with
      | error cause => rfl
      | ok found => exact congrArg (fun o => Except.ok (wrapAddress o, found.2)) (Nat.add_assoc ..)

/-- The offset of a part is what 64 bits are of the exact one. -/
theorem resolve_eq (layout : Layout) (path : List String) :
    resolve layout path = (layout.resolve path).map keepOffset := by
  have hfrom := resolveFrom_eq 0 layout path
  simp only [Nat.zero_add] at hfrom
  exact hfrom

/-! ## §4 What can be addressed -/

variable {layout part : Layout} {path : List String} {offset : Nat}

theorem size_of_lt (h : layout.size < addressLimit) : size layout = layout.size := by
  rw [size_eq, wrapAddress_of_lt h]

/-- Every part ends where the layout does or before. -/
theorem resolve_of_lt (h : layout.size < addressLimit) (path : List String) :
    resolve layout path = layout.resolve path := by
  rw [resolve_eq]
  cases hpath : layout.resolve path with
  | error cause => rfl
  | ok found =>
    obtain ⟨offset, part⟩ := found
    have hinside := (Layout.fitsAt_of_resolve hpath).inside
    have hoffset : offset < addressLimit := by omega
    exact congrArg (fun o => Except.ok (o, part)) (wrapAddress_of_lt hoffset)

theorem size_of_resolve (h : layout.size < addressLimit)
    (hpath : layout.resolve path = .ok (offset, part)) : size part = part.size := by
  have hinside := (Layout.fitsAt_of_resolve hpath).inside
  exact size_of_lt (by omega)

/-- So does every field. -/
theorem placements_of_lt {fields : Fields} (h : (Layout.structure fields).size < addressLimit) :
    placements fields = fields.placements := by
  rw [placements_eq]
  refine (List.map_congr_left fun place hmem => ?_).trans (List.map_id _)
  have hinside := (fields.fitsAt_of_mem 0 hmem).inside
  -- The fields end in front of the padding at the end.
  have hpadding := le_alignUp (Layout.structure fields).align_pos (fields.endFrom 0)
  have hsize : place.offset < addressLimit := by
    rw [Layout.size] at h
    rw [Layout.align] at hpadding
    omega
  rw [keepPlace, wrapAddress_of_lt hsize]
  rfl

/-! ## §5 Records that can be addressed -/

variable {bytes : Array UInt8} {records : Records} {i : Nat}

/-- Where the end of a scalar is wrapped its beginning is behind the buffer as well. -/
theorem readScalar?_of_lt (kind : ScalarKind) (hbytes : bytes.size < addressLimit)
    (hoffset : offset < addressLimit) : readScalar? kind bytes offset = kind.read? bytes offset := by
  rw [readScalar?, ScalarKind.read?]
  by_cases hstop : offset + kind.size < addressLimit
  · simp only [wrapAddress_of_lt hstop, Nat.le_add_right, true_and]
  · -- A scalar is short, so the wrapped end is in front of the beginning: nothing is read either way.
    have hsize := kind.size_lt
    have hwrapped : wrapAddress (offset + kind.size) = offset + kind.size - addressLimit := by
      rw [wrapAddress, Nat.mod_eq_sub_mod (Nat.le_of_not_lt hstop), Nat.mod_eq_of_lt]
      omega
    rw [if_neg (by omega), if_neg (by omega)]

theorem ofBytes?_of_lt (h : layout.size < addressLimit) (bytes : Array UInt8) :
    ofBytes? bytes layout = Records.ofBytes? bytes layout := by
  rw [ofBytes?, Records.ofBytes?, size_of_lt h]

/-- Every record begins inside the buffer. -/
theorem offset?_of_lt (h : layout.size < addressLimit) (hbytes : bytes.size < addressLimit)
    (hrecords : Records.ofBytes? bytes layout = .ok records) (i : Nat) :
    offset? records i = records.offset? i := by
  rw [offset?, Records.offset?]
  split
  · rename_i hi
    have hinside := Records.record_inside hrecords hi
    obtain ⟨-, -, rfl, -⟩ := Records.ofBytes?_eq_ok hrecords
    have hlt : i * records.layout.size < addressLimit := by omega
    rw [size_of_lt h, wrapAddress_of_lt hlt]
  · rfl

/-- And every part of it is inside. -/
theorem part_inside (hrecords : Records.ofBytes? bytes layout = .ok records) (hi : i < records.length)
    (hpath : layout.resolve path = .ok (offset, part)) :
    i * layout.size + offset + part.size ≤ bytes.size := by
  have hrecord := Records.record_inside hrecords hi
  have hpart := (Layout.fitsAt_of_resolve hpath).inside
  omega

theorem field_of_lt (h : layout.size < addressLimit) (hbytes : bytes.size < addressLimit)
    (hrecords : Records.ofBytes? bytes layout = .ok records) (i : Nat) (path : List String) :
    field records i path = records.field i path := by
  rw [field, Records.field, offset?_of_lt h hbytes hrecords, Records.offset?]
  by_cases hi : i < records.length
  · obtain ⟨-, -, hlayout, -⟩ := Records.ofBytes?_eq_ok hrecords
    rw [if_pos hi, hlayout, resolve_of_lt h]
    cases hpath : layout.resolve path with
    | error cause => rfl
    | ok found =>
      have hinside := part_inside hrecords hi hpath
      have hlt : i * layout.size + found.1 < addressLimit := by omega
      exact congrArg Except.ok (wrapAddress_of_lt hlt)
  · rw [if_neg hi]

/-- Reading at an accepted path. -/
theorem read_of_resolve {kind : ScalarKind}
    (h : resolve records.layout path = .ok (offset, .scalar kind)) (i : Nat) :
    read records i path =
      if records.length ≤ i then .error (.argument (.noRecord i records.length))
      else (readScalar? kind records.bytes
          (wrapAddress (wrapAddress (i * size records.layout) + offset))).elim
        (.error (.argument .truncatedRecord)) .ok := by
  rw [read, h]
  by_cases hi : records.length ≤ i
  · rw [if_pos hi]
    exact if_pos hi
  · rw [if_neg hi]
    refine (if_neg hi).trans ?_
    cases readScalar? kind records.bytes _ <;> rfl

theorem read_of_lt (h : layout.size < addressLimit) (hbytes : bytes.size < addressLimit)
    (hrecords : Records.ofBytes? bytes layout = .ok records) (i : Nat) (path : List String) :
    read records i path = records.read i path := by
  obtain ⟨-, rfl, rfl, -⟩ := Records.ofBytes?_eq_ok hrecords
  have hresolve := resolve_of_lt h path
  cases hpath : records.layout.resolve path with
  | error cause =>
    rw [read, Records.read, hresolve, hpath]
    rfl
  | ok found =>
    obtain ⟨offset, part⟩ := found
    -- Only a scalar is read; for any other part the path is complained about.
    cases part with
    | array _ _ | «structure» _ =>
      rw [read, Records.read, hresolve, hpath]
      rfl
    | scalar kind =>
      rw [read_of_resolve (hresolve.trans hpath), Records.read_of_resolve hpath]
      by_cases hi : i < records.length
      · -- The scalar ends inside the buffer, so neither sum is wrapped.
        have hend := part_inside hrecords hi hpath
        have hstart : i * records.layout.size < addressLimit := by omega
        have hlt : i * records.layout.size + offset < addressLimit := by omega
        rw [size_of_lt h, wrapAddress_of_lt hstart, wrapAddress_of_lt hlt,
          readScalar?_of_lt kind hbytes hlt]
      · rw [if_pos (Nat.le_of_not_lt hi), if_pos (Nat.le_of_not_lt hi)]

section

variable {β : Type}

/-- The records of a chunk are handed out with their exact offsets. -/
theorem mapKernel_of_lt (h : layout.size < addressLimit) (hbytes : bytes.size < addressLimit)
    (hrecords : Records.ofBytes? bytes layout = .ok records) (f : RecordVisit → β) :
    mapKernel records f = records.mapKernel f := by
  have hvisits : ∀ chunk, ((Span.ofChunk chunk records.length).positions.map fun i =>
        RecordVisit.mk records.bytes (wrapAddress (i * size records.layout))) =
      (Span.ofChunk chunk records.length).positions.map fun i =>
        RecordVisit.mk records.bytes (i * records.layout.size) := by
    intro chunk
    refine List.map_congr_left fun i hmem => ?_
    have hstop := (Span.mem_positions.mp hmem).2
    have hi : i < records.length := Nat.lt_of_lt_of_le hstop (Nat.min_le_right _ _)
    have hinside := Records.record_inside hrecords hi
    obtain ⟨-, -, hlayout, -⟩ := Records.ofBytes?_eq_ok hrecords
    have hlt : i * layout.size < addressLimit := by omega
    rw [hlayout, size_of_lt h, wrapAddress_of_lt hlt]
  rw [mapKernel, Records.mapKernel]
  congr 1
  funext chunk out
  -- Both apply the function to the visits of the chunk, which are the same.
  have hfold := congrArg (fun visits : List RecordVisit =>
    visits.foldlM (fun out visit => out.push <$> Calling.call f visit) out) (hvisits chunk)
  simpa only [List.foldlM_map] using hfold

theorem map_of_lt (h : layout.size < addressLimit) (hbytes : bytes.size < addressLimit)
    (hrecords : Records.ofBytes? bytes layout = .ok records) (setting : Setting)
    (f : RecordVisit → β) : map records setting f = records.map setting f := by
  rw [map, mapKernel_of_lt h hbytes hrecords]
  rfl

end

end Wrapping

end ForkJoin
