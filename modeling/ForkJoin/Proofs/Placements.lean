import ForkJoin.Proofs.Wrapping

/-!
# The tightest structure

Fields stay in declaration order, and every one of them has to be aligned and to begin where the one
before it ends or later. Placing each at the first offset that is left for it never costs anything
further on: whatever other offsets are chosen, no field begins and none ends before the one that is
placed in this way. So the structure is as small as any with its fields in this order, unless its size
cannot be addressed, in which case fields may come to lie on others.

## Main definitions
- `Layout.Placed`: offsets that fields in order can have.

## Main statements
- `alignUp_le`: rounding up gives the least multiple.
- `Fields.placed`, `Fields.le_of_placed`: where fields are placed is possible, and least.
- `Layout.duplicate?_eq_none_iff`, `Layout.exists_of_duplicate?_eq_some`: which names are rejected.
- `Wrapping.structure_tightest`: what follows for a structure.
-/

namespace ForkJoin

/-! ## §1 Possible offsets -/

/-- Offsets for layouts in order, from an offset on: every layout is aligned, and begins where the one
before it ends or later. The last of them ends at `stop`. -/
inductive Layout.Placed : List Layout → (start : Nat) → (offsets : List Nat) → (stop : Nat) → Prop
  | nil (start : Nat) : Placed [] start [] start
  | cons {layout : Layout} {rest : List Layout} {start offset stop : Nat} {offsets : List Nat}
    (aligned : layout.align ∣ offset) (behind : start ≤ offset)
    (hrest : Placed rest (offset + layout.size) offsets stop) :
    Placed (layout :: rest) start (offset :: offsets) stop

/-- Rounding up gives the least multiple that is not smaller. -/
theorem alignUp_le {offset align multiple : Nat} (hdvd : align ∣ multiple) (hle : offset ≤ multiple) :
    alignUp offset align ≤ multiple := by
  obtain ⟨k, rfl⟩ := hdvd
  rw [alignUp, Nat.mul_comm align k]
  apply Nat.mul_le_mul_right
  rcases Nat.eq_zero_or_pos align with rfl | hpos
  · rw [Nat.div_zero]
    exact Nat.zero_le k
  · apply Nat.le_of_lt_succ
    rw [Nat.div_lt_iff_lt_mul hpos, Nat.succ_mul, Nat.mul_comm k]
    omega

/-! ## §2 Fields -/

namespace Fields

variable {fields : List (String × Layout)} {start offset stop : Nat} {offsets : List Nat}

/-- Fields keep their names, their layouts and their order. -/
theorem map_placementsFrom (fields : List (String × Layout)) (start : Nat) :
    ((ofList fields).placementsFrom start).map (fun place => (place.name, place.layout)) =
      fields := by
  induction fields generalizing start with
  | nil => rfl
  | cons field rest ih => exact congrArg (field :: ·) (ih _)

/-- The alignment of a structure is the largest one of its fields. -/
theorem align_ofList (fields : List (String × Layout)) :
    (ofList fields).align = (fields.map fun field => field.2.align).foldr max 1 := by
  induction fields with
  | nil => rfl
  | cons field rest ih => exact congrArg (max field.2.align) ih

/-- Where fields are placed is possible. -/
theorem placed (fields : List (String × Layout)) (start : Nat) :
    Layout.Placed (fields.map (·.2)) start
      (((ofList fields).placementsFrom start).map (·.offset)) ((ofList fields).endFrom start) := by
  induction fields generalizing start with
  | nil => exact .nil start
  | cons field rest ih =>
    exact .cons (dvd_alignUp ..) (le_alignUp field.2.align_pos start) (ih _)

/-- No other offsets that are possible, from the same place on or from a later one, are smaller. -/
theorem le_of_placed (hplaced : Layout.Placed (fields.map (·.2)) start offsets stop)
    (hle : offset ≤ start) :
    List.Forall₂ (· ≤ ·) (((ofList fields).placementsFrom offset).map (·.offset)) offsets ∧
      (ofList fields).endFrom offset ≤ stop := by
  induction fields generalizing start offset offsets with
  | nil =>
    cases hplaced
    exact ⟨.nil, hle⟩
  | cons field rest ih =>
    cases hplaced with
    | cons aligned behind hrest =>
      -- The first field begins no later, so it ends no later, and the others start from there.
      have hfirst := alignUp_le aligned (Nat.le_trans hle behind)
      obtain ⟨hoffsets, hstop⟩ := ih hrest (Nat.add_le_add_right hfirst field.2.size)
      exact ⟨.cons hfirst hoffsets, hstop⟩

end Fields

/-! ## §3 Names -/

namespace Layout

variable {seen names : List String} {name : String}

/-- No name is rejected if none occurs twice, or was seen before. -/
theorem duplicate?_eq_none_iff :
    duplicate? seen names = none ↔ names.Nodup ∧ ∀ name ∈ names, name ∉ seen := by
  induction names generalizing seen with
  | nil => simp [duplicate?]
  | cons first rest ih =>
    rw [duplicate?]
    by_cases hfirst : first ∈ seen
    · simp [hfirst]
    · rw [if_neg (by simpa using hfirst), ih, List.nodup_cons]
      simp only [List.mem_cons, not_or, forall_eq_or_imp, hfirst, not_false_eq_true, true_and]
      -- The first name counts as seen for the rest: that is the part of Nodup about it.
      constructor
      · rintro ⟨hnodup, hrest⟩
        exact ⟨⟨fun hmem => (hrest first hmem).1 rfl, hnodup⟩, fun name hmem => (hrest name hmem).2⟩
      · rintro ⟨⟨hnew, hnodup⟩, hrest⟩
        exact ⟨hnodup, fun name hmem => ⟨fun heq => hnew (heq ▸ hmem), hrest name hmem⟩⟩

/-- The name that is rejected is the first that occurred before it. -/
theorem exists_of_duplicate?_eq_some (h : duplicate? seen names = some name) :
    ∃ before after, names = before ++ name :: after ∧ before.Nodup ∧
      (∀ other ∈ before, other ∉ seen) ∧ (name ∈ before ∨ name ∈ seen) := by
  -- By induction on the names; every one that is passed has been new.
  induction names generalizing seen with
  | nil => cases h
  | cons first rest ih =>
    rw [duplicate?] at h
    split at h
    · rename_i hfirst
      cases h
      exact ⟨[], rest, rfl, .nil, by simp, .inr (by simpa using hfirst)⟩
    · rename_i hfirst
      obtain ⟨before, after, rfl, hnodup, hnew, hmem⟩ := ih h
      refine ⟨first :: before, after, rfl, ?_, ?_, ?_⟩
      · exact List.nodup_cons.mpr
          ⟨fun hbefore => hnew first hbefore (List.mem_cons_self ..), hnodup⟩
      · intro other hother
        rcases List.mem_cons.mp hother with rfl | hbefore
        · simpa using hfirst
        · exact fun hseen => hnew other hbefore (List.mem_cons_of_mem _ hseen)
      · -- The name was among those before, or it is the one that has been passed last.
        rcases hmem with hbefore | hseen
        · exact .inl (List.mem_cons_of_mem _ hbefore)
        · rcases List.mem_cons.mp hseen with rfl | hseen
          · exact .inl (List.mem_cons_self ..)
          · exact .inr hseen

variable {fields : List (String × Layout)}

/-- Fields with different names are accepted. -/
theorem structure?_eq_ok (h : (fields.map (·.1)).Nodup) :
    structure? fields = .ok (.structure (.ofList fields)) := by
  have hnone : duplicate? [] (fields.map (·.1)) = none :=
    duplicate?_eq_none_iff.mpr ⟨h, fun _ _ => List.not_mem_nil⟩
  rw [structure?, hnone]

/-- Others are rejected for the first of them whose name occurred before. -/
theorem structure?_eq_error (h : ¬ (fields.map (·.1)).Nodup) :
    ∃ before name layout after, fields = before ++ (name, layout) :: after ∧
      (before.map (·.1)).Nodup ∧ name ∈ before.map (·.1) ∧
      structure? fields = .error (.argument (.duplicateField name)) := by
  cases hduplicate : duplicate? [] (fields.map (·.1)) with
  | none => exact absurd (duplicate?_eq_none_iff.mp hduplicate).1 h
  | some name =>
    obtain ⟨firsts, seconds, hsplit, hnodup, -, hmem⟩ := exists_of_duplicate?_eq_some hduplicate
    -- The split of the names is a split of the fields.
    obtain ⟨before, behind, rfl, rfl, hbehind⟩ := List.map_eq_append_iff.mp hsplit
    obtain ⟨⟨_, layout⟩, after, rfl, rfl, -⟩ := List.map_eq_cons_iff.mp hbehind
    refine ⟨before, _, layout, after, rfl, hnodup, ?_, by rw [structure?, hduplicate]⟩
    exact hmem.resolve_right List.not_mem_nil

end Layout

/-! ## §4 Structures -/

namespace Wrapping

open Layout (Placed structure?)

/-- **A structure is as tight as its order permits.** Fields with different names are accepted, in
their order and with their layouts. If the size of the structure can be addressed their offsets are
possible, and the structure ends at a multiple of the largest alignment behind them; and whatever other
offsets are possible, no field begins before its place in the structure, and no multiple of the largest
alignment behind the last field is less than the size. Fields whose names are not all different are
rejected, for the first of them whose name occurred before. -/
theorem structure_tightest (fields : List (String × Layout)) :
    ((fields.map (·.1)).Nodup →
      ∃ made, structure? fields = .ok (.structure made) ∧
        (placements made).map (fun place => (place.name, place.layout)) = fields ∧
        made.align = (fields.map fun field => field.2.align).foldr max 1 ∧
        ((Layout.structure made).size < addressLimit →
          (∃ stop, Placed (fields.map (·.2)) 0 ((placements made).map (·.offset)) stop ∧
            stop ≤ size (.structure made) ∧ made.align ∣ size (.structure made)) ∧
          ∀ offsets stop, Placed (fields.map (·.2)) 0 offsets stop →
            List.Forall₂ (· ≤ ·) ((placements made).map (·.offset)) offsets ∧
            ∀ total, stop ≤ total → made.align ∣ total → size (.structure made) ≤ total)) ∧
    (¬ (fields.map (·.1)).Nodup →
      ∃ before name layout after, fields = before ++ (name, layout) :: after ∧
        (before.map (·.1)).Nodup ∧ name ∈ before.map (·.1) ∧
        structure? fields = .error (.argument (.duplicateField name))) := by
  refine ⟨fun hnodup => ?_, Layout.structure?_eq_error⟩
  refine ⟨.ofList fields, Layout.structure?_eq_ok hnodup, ?_, Fields.align_ofList fields, ?_⟩
  · -- Fields keep their names and their layouts wherever they come to lie.
    rw [placements_eq, List.map_map]
    exact Fields.map_placementsFrom fields 0
  · -- Here the size of the whole counts: the machine's offsets are the exact ones only if it fits.
    intro hfits
    rw [placements_of_lt hfits, size_of_lt hfits]
    refine ⟨⟨_, Fields.placed fields 0, ?_, ?_⟩, ?_⟩
    · exact le_alignUp (Layout.structure (.ofList fields)).align_pos _
    · exact dvd_alignUp ..
    · intro offsets stop hplaced
      obtain ⟨hoffsets, hstop⟩ := Fields.le_of_placed hplaced (Nat.le_refl 0)
      exact ⟨hoffsets, fun total hle hdvd => alignUp_le hdvd (Nat.le_trans hstop hle)⟩

/-- A tag, a number and a count, which other offsets are possible for; and fields with two names that
occur twice, of which the third is the first that is rejected. -/
theorem structure_tightest_tag :
    (∃ made, structure? [("tag", .scalar .u8), ("x", .scalar .f64), ("n", .scalar .i32)] =
        .ok (.structure made) ∧ (Layout.structure made).size < addressLimit ∧
      (placements made).map (·.offset) = [0, 8, 16] ∧ size (.structure made) = 24 ∧
      Placed [.scalar .u8, .scalar .f64, .scalar .i32] 0 [4, 16, 28] 32 ∧
      List.Forall₂ (· ≤ ·) [0, 8, 16] [4, 16, 28] ∧ made.align ∣ 32 ∧ 24 ≤ 32) ∧
    ∃ (before : List (String × Layout)) (name : String) (layout : Layout)
      (after : List (String × Layout)),
      [("a", .scalar .u8), ("b", .scalar .f64), ("a", .scalar .i32), ("b", .scalar .u8)] =
        before ++ (name, layout) :: after ∧
      (before.map (·.1)).Nodup ∧ name ∈ before.map (·.1) ∧
      structure? [("a", .scalar .u8), ("b", .scalar .f64), ("a", .scalar .i32),
        ("b", .scalar .u8)] = .error (.argument (.duplicateField name)) := by
  have hplaced : Placed [.scalar .u8, .scalar .f64, .scalar .i32] 0 [4, 16, 28] 32 :=
    .cons (Nat.one_dvd 4) (by decide) <|
      .cons (Nat.dvd_mul_right 8 2) (by decide) <|
        .cons (Nat.dvd_mul_right 4 7) (by decide) (.nil 32)
  -- The other places leave room in front of every field.
  obtain ⟨hmade, -⟩ :=
    structure_tightest [("tag", .scalar .u8), ("x", .scalar .f64), ("n", .scalar .i32)]
  obtain ⟨-, hrejected⟩ := structure_tightest [("a", .scalar .u8), ("b", .scalar .f64),
    ("a", .scalar .i32), ("b", .scalar .u8)]
  refine ⟨?_, hrejected (by decide)⟩
  obtain ⟨made, hok, -, -, htightest⟩ := hmade (by decide)
  have hstructure : structure? [("tag", .scalar .u8), ("x", .scalar .f64), ("n", .scalar .i32)] =
    .ok (.structure (.ofList [("tag", .scalar .u8), ("x", .scalar .f64), ("n", .scalar .i32)])) := rfl
  obtain rfl : _ = made := Layout.structure.inj (Except.ok.inj (hstructure.symm.trans hok))
  have hfits : (Layout.structure (.ofList [("tag", .scalar .u8), ("x", .scalar .f64),
    ("n", .scalar .i32)])).size < addressLimit := by decide
  obtain ⟨hoffsets, hsize⟩ := (htightest hfits).2 _ _ hplaced
  exact ⟨_, hok, hfits, rfl, rfl, hplaced, hoffsets, Nat.dvd_mul_right 8 4,
    hsize 32 (Nat.le_refl 32) (Nat.dvd_mul_right 8 4)⟩

/-- Behind a field of 2^64 - 1 bytes the next one is placed at the beginning, on top of it, and the
structure is taken to have eight bytes. -/
theorem fields_together_beyond_addresses :
    ∃ made, structure? [("a", .array (.scalar .u8) (addressLimit - 1)), ("b", .scalar .f64)] =
        .ok (.structure made) ∧
      (placements made).map (·.offset) = [0, 0] ∧ size (.structure made) = 8 ∧
      ∀ stop, ¬ Placed [.array (.scalar .u8) (addressLimit - 1), .scalar .f64] 0 [0, 0] stop := by
  refine ⟨_, rfl, rfl, rfl, fun stop hplaced => ?_⟩
  cases hplaced with
  | cons _ _ hrest =>
    cases hrest with
    | cons _ behind _ => exact absurd behind (by decide)

end Wrapping

end ForkJoin
