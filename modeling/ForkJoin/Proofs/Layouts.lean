import ForkJoin.Proofs.Calling
import ForkJoin.Record.Records

/-!
# Parts of records

A field is placed at a multiple of its alignment, and an element of an array at a multiple of its
size, which is one of its alignment as well. All alignments are powers of two, so the largest
alignment among fields is a multiple of each of theirs. What a path selects is therefore aligned in
the record as well as in itself, and it ends where the record ends or before.

## Main definitions
- `Layout.FitsAt`: a part that is aligned at its offset and ends inside.

## Main statements
- `Layout.align_dvd_size`: records can be packed back to back.
- `Fields.fitsAt_of_mem`, `Layout.fitsAt_of_select`: one step.
- `Layout.fitsAt_of_resolve`: a path.
- `Layout.resolved_inside`: a path into one of many records.
-/

namespace ForkJoin

/-! ## §1 Rounding up -/

theorem dvd_alignUp (offset align : Nat) : align ∣ alignUp offset align :=
  Nat.dvd_mul_left align _

theorem le_alignUp {align : Nat} (h : 0 < align) (offset : Nat) : offset ≤ alignUp offset align := by
  have hdiv := Nat.div_add_mod' (offset + align - 1) align
  have hmod := Nat.mod_lt (offset + align - 1) h
  rw [alignUp]
  omega

/-! ## §2 Alignments -/

theorem ScalarKind.isPowerOfTwo_size (kind : ScalarKind) : kind.size.isPowerOfTwo := by
  cases kind with
  | u8 => exact ⟨0, rfl⟩
  | i32 | u32 | f32 => exact ⟨2, rfl⟩
  | f64 => exact ⟨3, rfl⟩

/-- The larger one of two powers of two is a multiple of both, and a power of two. -/
theorem isPowerOfTwo_max {a b : Nat} (ha : a.isPowerOfTwo) (hb : b.isPowerOfTwo) :
    (max a b).isPowerOfTwo ∧ a ∣ max a b ∧ b ∣ max a b := by
  obtain ⟨i, rfl⟩ := ha
  obtain ⟨j, rfl⟩ := hb
  rcases Nat.le_total i j with hle | hle
  · have hpow : 2 ^ i ≤ 2 ^ j := Nat.pow_le_pow_right Nat.two_pos hle
    rw [Nat.max_eq_right hpow]
    exact ⟨⟨j, rfl⟩, Nat.pow_dvd_pow 2 hle, Nat.dvd_refl _⟩
  · have hpow : 2 ^ j ≤ 2 ^ i := Nat.pow_le_pow_right Nat.two_pos hle
    rw [Nat.max_eq_left hpow]
    exact ⟨⟨i, rfl⟩, Nat.dvd_refl _, Nat.pow_dvd_pow 2 hle⟩

mutual

theorem Layout.isPowerOfTwo_align : (layout : Layout) → layout.align.isPowerOfTwo
  | .scalar kind => kind.isPowerOfTwo_size
  | .array element _ => element.isPowerOfTwo_align
  | .structure fields => fields.isPowerOfTwo_align

theorem Fields.isPowerOfTwo_align : (fields : Fields) → fields.align.isPowerOfTwo
  | .nil => ⟨0, rfl⟩
  | .cons _ layout rest => (isPowerOfTwo_max layout.isPowerOfTwo_align rest.isPowerOfTwo_align).1

end

theorem Layout.align_pos (layout : Layout) : 0 < layout.align := by
  obtain ⟨k, hk⟩ := layout.isPowerOfTwo_align
  rw [hk]
  exact Nat.two_pow_pos k

/-- Every scalar has eight bytes or a part of them, and no alignment is larger. -/
theorem ScalarKind.size_dvd (kind : ScalarKind) : kind.size ∣ 8 := by
  cases kind <;> decide

theorem ScalarKind.size_lt (kind : ScalarKind) : kind.size < addressLimit :=
  Nat.lt_of_le_of_lt (Nat.le_of_dvd (by decide) kind.size_dvd) (by decide : 8 < addressLimit)

mutual

theorem Layout.align_dvd : (layout : Layout) → layout.align ∣ 8
  | .scalar kind => kind.size_dvd
  | .array element _ => element.align_dvd
  | .structure fields => fields.align_dvd

theorem Fields.align_dvd : (fields : Fields) → fields.align ∣ 8
  | .nil => Nat.one_dvd 8
  | .cons _ layout rest => by
    -- The larger one of two alignments is one of them.
    rcases Nat.le_total layout.align rest.align with hle | hle
    · rw [Fields.align, Nat.max_eq_right hle]
      exact rest.align_dvd
    · rw [Fields.align, Nat.max_eq_left hle]
      exact layout.align_dvd

end

/-- So the addresses are a whole number of aligned offsets. -/
theorem Layout.align_dvd_addressLimit (layout : Layout) : layout.align ∣ addressLimit :=
  Nat.dvd_trans layout.align_dvd (by decide)

/-- The alignment of the fields is a multiple of that of each. -/
theorem Fields.dvd_align_cons (name : String) (layout : Layout) (rest : Fields) :
    layout.align ∣ (Fields.cons name layout rest).align ∧
      rest.align ∣ (Fields.cons name layout rest).align :=
  (isPowerOfTwo_max layout.isPowerOfTwo_align rest.isPowerOfTwo_align).2

/-- Records can be packed back to back. -/
theorem Layout.align_dvd_size : (layout : Layout) → layout.align ∣ layout.size
  | .scalar kind => Nat.dvd_refl kind.size
  | .array element length => Nat.dvd_mul_right_of_dvd element.align_dvd_size length
  | .structure fields => dvd_alignUp (fields.endFrom 0) fields.align

/-! ## §3 Fields -/

/-- A part whose offset is a multiple of its alignment, and its alignment a divisor of another one,
and that ends where something ends or before. -/
structure Layout.FitsAt (part : Layout) (offset align stop : Nat) : Prop where
  aligned : part.align ∣ offset
  align_dvd : part.align ∣ align
  inside : offset + part.size ≤ stop

/-- A part of a part is a part of the whole. -/
theorem Layout.FitsAt.trans {part target : Layout} {start offset align stop : Nat}
    (houter : part.FitsAt start align stop) (hinner : target.FitsAt offset part.align part.size) :
    target.FitsAt (start + offset) align stop where
  aligned := Nat.dvd_add (Nat.dvd_trans hinner.align_dvd houter.aligned) hinner.aligned
  align_dvd := Nat.dvd_trans hinner.align_dvd houter.align_dvd
  inside := by
    have houterInside := houter.inside
    have hinnerInside := hinner.inside
    omega

/-- Fields are only ever placed further on. -/
theorem Fields.le_endFrom : (fields : Fields) → (offset : Nat) → offset ≤ fields.endFrom offset
  | .nil, offset => Nat.le_refl offset
  | .cons _ layout rest, offset =>
    calc offset ≤ alignUp offset layout.align := le_alignUp layout.align_pos offset
      _ ≤ alignUp offset layout.align + layout.size := Nat.le_add_right ..
      _ ≤ rest.endFrom (alignUp offset layout.align + layout.size) := rest.le_endFrom _

/-- Every field is aligned at its place, and ends where the last one does or before. -/
theorem Fields.fitsAt_of_mem {place : Placement} : (fields : Fields) → (offset : Nat) →
    place ∈ fields.placementsFrom offset →
    place.layout.FitsAt place.offset fields.align (fields.endFrom offset)
  | .nil, offset, hmem => by cases hmem
  | .cons name layout rest, offset, hmem => by
    have hdvd := Fields.dvd_align_cons name layout rest
    rcases List.mem_cons.mp hmem with rfl | hmem
    · exact ⟨dvd_alignUp .., hdvd.1, rest.le_endFrom _⟩
    · have hrest := rest.fitsAt_of_mem _ hmem
      exact ⟨hrest.aligned, Nat.dvd_trans hrest.align_dvd hdvd.2, hrest.inside⟩

/-! ## §4 Paths -/

/-- What one step selects is a part of the record. -/
theorem Layout.fitsAt_of_select {layout part : Layout} {step : String} {start : Nat}
    (h : layout.select step = .ok (start, part)) :
    part.FitsAt start layout.align layout.size := by
  cases layout with
  | scalar kind => cases h
  | array element length =>
    rw [select] at h
    split at h
    · split at h
      · -- An element begins at a multiple of its size, and the last one ends with the array.
        rename_i index _ hindex
        cases h
        refine ⟨Nat.dvd_mul_left_of_dvd part.align_dvd_size index, Nat.dvd_refl _, ?_⟩
        calc index * part.size + part.size = (index + 1) * part.size := (Nat.succ_mul ..).symm
          _ ≤ length * part.size := Nat.mul_le_mul_right _ hindex
          _ = part.size * length := Nat.mul_comm ..
      · cases h
    · cases h
  | «structure» fields =>
    rw [select] at h
    split at h
    · rename_i place hplace
      cases h
      have hplaced := fields.fitsAt_of_mem 0 (List.mem_of_find?_eq_some hplace)
      -- The padding comes after the last field.
      exact ⟨hplaced.aligned, hplaced.align_dvd,
        Nat.le_trans hplaced.inside (le_alignUp (Layout.structure fields).align_pos _)⟩
    · cases h

/-- So is what a path selects, by induction on its steps. -/
theorem Layout.fitsAt_of_resolve {layout part : Layout} {path : List String} {offset : Nat}
    (h : layout.resolve path = .ok (offset, part)) :
    part.FitsAt offset layout.align layout.size := by
  -- By induction on the path; fitting goes from a part of a part to the whole.
  induction path generalizing layout offset with
  | nil =>
    cases h
    exact ⟨Nat.dvd_zero _, Nat.dvd_refl _, Nat.le_of_eq (Nat.zero_add _)⟩
  | cons step rest ih =>
    rw [resolve] at h
    obtain ⟨selected, hselect, h⟩ := Fault.bind_eq_ok.mp h
    obtain ⟨found, hrest, h⟩ := Fault.bind_eq_ok.mp h
    cases h
    exact (fitsAt_of_select hselect).trans (ih hrest)

/-! ## §5 Records -/

/-- Accepted records fill their buffer. -/
theorem Records.ofBytes?_eq_ok {bytes : Array UInt8} {layout : Layout} {records : Records}
    (h : Records.ofBytes? bytes layout = .ok records) :
    layout.size ≠ 0 ∧ records.bytes = bytes ∧ records.layout = layout ∧
      records.length * layout.size = bytes.size := by
  simp only [ofBytes?] at h
  split at h
  · cases h
  · rename_i hwhole
    cases h
    have hmod : bytes.size % layout.size = 0 := by omega
    exact ⟨by omega, rfl, rfl, Nat.div_mul_cancel (Nat.dvd_of_mod_eq_zero hmod)⟩

/-- A record ends where the buffer ends or before. -/
theorem Records.record_inside {bytes : Array UInt8} {layout : Layout} {records : Records}
    (h : Records.ofBytes? bytes layout = .ok records) {i : Nat} (hi : i < records.length) :
    i * layout.size + layout.size ≤ bytes.size := by
  obtain ⟨-, -, -, hfill⟩ := Records.ofBytes?_eq_ok h
  calc i * layout.size + layout.size = (i + 1) * layout.size := (Nat.succ_mul ..).symm
    _ ≤ records.length * layout.size := Nat.mul_le_mul_right _ hi
    _ = bytes.size := hfill

/-- Where the part at an accepted path begins in a record. -/
theorem Records.field_of_resolve {records : Records} {path : List String} {offset i : Nat}
    {part : Layout} (h : records.layout.resolve path = .ok (offset, part))
    (hi : i < records.length) : records.field i path = .ok (i * records.layout.size + offset) := by
  rw [Records.field, Records.offset?, if_pos hi, h]
  rfl

/-- Reading at an accepted path. -/
theorem Records.read_of_resolve {records : Records} {path : List String} {offset : Nat}
    {kind : ScalarKind} (h : records.layout.resolve path = .ok (offset, .scalar kind)) (i : Nat) :
    records.read i path =
      if records.length ≤ i then .error (.argument (.noRecord i records.length))
      else (kind.read? records.bytes (i * records.layout.size + offset)).elim
        (.error (.argument .truncatedRecord)) .ok := by
  rw [Records.read, h]
  -- The bytes are looked at only if there is such a record.
  by_cases hi : records.length ≤ i
  · rw [if_pos hi]
    exact if_pos hi
  · rw [if_neg hi]
    refine (if_neg hi).trans ?_
    cases kind.read? records.bytes (i * records.layout.size + offset) <;> rfl

/-- Reading at any other path, which no record and no byte has a part in. -/
theorem Records.read_of_not_scalar {records : Records} {path : List String}
    (h : ∀ offset kind, records.layout.resolve path ≠ .ok (offset, .scalar kind)) (i : Nat) :
    records.read i path =
      records.layout.resolve path >>= fun _ => .error (.argument (.notScalar path)) := by
  rw [Records.read]
  cases hresolve : records.layout.resolve path with
  | error cause => rfl
  | ok found =>
    obtain ⟨offset, part⟩ := found
    cases part with
    | scalar kind => exact absurd hresolve (h offset kind)
    | array element length => rfl
    | «structure» fields => rfl

/-- **What a path selects is aligned and lies inside its record.** The alignment of every layout
divides its size; whatever a path selects begins at a multiple of its own alignment, which divides
that of the record, and ends where the record ends or before. Among records packed back to back it
is aligned in the whole buffer as well, and lies inside it. -/
theorem Layout.resolved_inside (layout : Layout) :
    layout.align ∣ layout.size ∧
    (∀ path offset part, layout.resolve path = .ok (offset, part) →
      part.align ∣ offset ∧ part.align ∣ layout.align ∧ offset + part.size ≤ layout.size) ∧
    (∀ bytes records, Records.ofBytes? bytes layout = .ok records → ∀ i < records.length,
      ∀ path offset part, layout.resolve path = .ok (offset, part) →
        records.field i path = .ok (i * layout.size + offset) ∧
        part.align ∣ i * layout.size + offset ∧
        i * layout.size + offset + part.size ≤ bytes.size) := by
  refine ⟨layout.align_dvd_size, ?_, ?_⟩
  · intro path offset part hpath
    have hfits := fitsAt_of_resolve hpath
    exact ⟨hfits.aligned, hfits.align_dvd, hfits.inside⟩
  · intro bytes records hrecords i hi path offset part hpath
    have hfits := fitsAt_of_resolve hpath
    have hrecord := Records.record_inside hrecords hi
    obtain ⟨-, -, rfl, -⟩ := Records.ofBytes?_eq_ok hrecords
    refine ⟨Records.field_of_resolve hpath hi, ?_, ?_⟩
    · -- A record begins at a multiple of its size, hence of its alignment.
      have hstart : records.layout.align ∣ i * records.layout.size :=
        Nat.dvd_mul_left_of_dvd records.layout.align_dvd_size i
      exact Nat.dvd_add (Nat.dvd_trans hfits.align_dvd hstart) hfits.aligned
    · have hinside := hfits.inside
      omega

/-- The second coordinate behind a tag, in the second of two records. -/
theorem Layout.resolved_inside_coordinate :
    (Layout.structure (.ofList [("tag", .scalar .u8), ("x", .array (.scalar .f64) 2)])).resolve
      ["x", "1"] = .ok (16, .scalar .f64) ∧
    (8 ∣ 16 ∧ 8 ∣ 8 ∧ 16 + 8 ≤ 24) ∧
    ∃ records, Records.ofBytes? (Array.replicate 48 0)
        (.structure (.ofList [("tag", .scalar .u8), ("x", .array (.scalar .f64) 2)])) =
          .ok records ∧
      records.field 1 ["x", "1"] = .ok 40 ∧ 8 ∣ 40 ∧ 40 + 8 ≤ 48 := by
  have hpath : (Layout.structure (.ofList [("tag", .scalar .u8),
      ("x", .array (.scalar .f64) 2)])).resolve ["x", "1"] = .ok (16, .scalar .f64) := rfl
  have hsize : (Layout.structure (.ofList [("tag", .scalar .u8),
      ("x", .array (.scalar .f64) 2)])).size = 24 := rfl
  have hbytes : Records.ofBytes? (Array.replicate 48 0) (.structure (.ofList
      [("tag", .scalar .u8), ("x", .array (.scalar .f64) 2)])) =
      .ok ⟨Array.replicate 48 0, .structure (.ofList [("tag", .scalar .u8),
        ("x", .array (.scalar .f64) 2)]), 2⟩ := by
    simp [Records.ofBytes?, hsize]
  -- The second element of the array lies in the second record from byte 24 + 16 on.
  obtain ⟨-, hresolved, hrecords⟩ := Layout.resolved_inside
    (.structure (.ofList [("tag", .scalar .u8), ("x", .array (.scalar .f64) 2)]))
  exact ⟨hpath, hresolved _ _ _ hpath, _, hbytes, hrecords _ _ hbytes 1 (by decide) _ _ _ hpath⟩

end ForkJoin
