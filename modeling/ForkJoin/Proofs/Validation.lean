import ForkJoin.Proofs.Rejections
import Mathlib.Order.Bounds.Basic

/-!
# Which target is rejected

A scatter looks at the targets that have a value, and at nothing behind them. If some of them stand
for no position of the output, the first of these is rejected, whatever is wrong with it and
whatever else is wrong. Only if there is none, and no conflict function, is the first repetition
rejected. Otherwise the scatter is run.

## Main definitions
- `positionAt?`: the position that the target at an index stands for.
- `misplaced`, `repeated`: the indices whose targets can be rejected.

## Main statements
- `isLeast_misplaced`, `misplaced_eq_empty`: resolving finds the first misplaced target.
- `isLeast_repeated`, `repeated_eq_empty`: the check finds the first repetition.
- `View.scatter_of_misplaced`, `View.scatter_of_repetition`, `View.scatter_accepted`: what follows.
- `View.scatter_rejects_least`: which targets a scatter rejects.
-/

namespace ForkJoin

/-! ## §1 Targets that can be rejected -/

/-- The position that the target at an index stands for. -/
def positionAt? (targets : Array Target) (i : Nat) : Option Int :=
  targets[i]?.bind Target.position?

/-- The first `count` indices without those whose targets stand for a position of the output. -/
def misplaced (targets : Array Target) (count length : Nat) : Set Nat :=
  {i | i < count ∧ ∀ p ∈ positionAt? targets i, ¬ (0 ≤ p ∧ p < length)}

/-- Those of the first `count` indices whose positions occurred before. -/
def repeated (targets : Array Target) (count : Nat) : Set Nat :=
  {j | j < count ∧ ∃ i < j, positionAt? targets i = positionAt? targets j}

variable {targets : Array Target} {count length i p : Nat} {positions : List Nat}

instance : Decidable (i ∈ misplaced targets count length) :=
  inferInstanceAs (Decidable (i < count ∧ ∀ p ∈ positionAt? targets i, ¬ (0 ≤ p ∧ p < length)))

instance : Decidable (i ∈ repeated targets count) :=
  inferInstanceAs (Decidable (i < count ∧ ∃ j < i, positionAt? targets j = positionAt? targets i))

/-- The least index of a set is the one with none of the set in front of it. -/
theorem eq_of_isLeast {indices : Set Nat} {j : Nat} (h : IsLeast indices i) (hj : j ∈ indices)
    (hbefore : ∀ k < j, k ∉ indices) : i = j :=
  h.unique ⟨hj, fun k hk => Nat.le_of_not_lt fun hlt => hbefore k hlt hk⟩

theorem getElem?_take_eq_some_iff {τ : Type} {xs : List τ} {x : τ} :
    (xs.take count)[i]? = some x ↔ i < count ∧ xs[i]? = some x := by
  rw [List.getElem?_take]
  split <;> simp_all

theorem positionAt?_of_take {target : Target} (h : (targets.toList.take count)[i]? = some target) :
    i < count ∧ positionAt? targets i = target.position? := by
  obtain ⟨hi, htarget⟩ := getElem?_take_eq_some_iff.mp h
  rw [Array.getElem?_toList] at htarget
  exact ⟨hi, by rw [positionAt?, htarget]; rfl⟩

/-! ## §2 Misplaced targets -/

/-- If some target is not resolved, it is the first one that is misplaced. -/
theorem isLeast_misplaced {cause : InputError}
    (h : resolveTargets length 0 (targets.toList.take count) = .error cause) :
    ∃ i, IsLeast (misplaced targets count length) i ∧
      (positionAt? targets i = none → cause = .argument (.fractionalTarget i)) ∧
      ∀ p, positionAt? targets i = some p → cause = .targetOutOfBounds i p length := by
  obtain ⟨k, target, htarget, hcause, hbefore⟩ := resolveTargets_error h
  simp only [Nat.zero_add] at hcause hbefore
  obtain ⟨hk, hposition⟩ := positionAt?_of_take htarget
  -- All targets in front of it are resolved, so none of them is misplaced.
  have hleast : ∀ j ∈ misplaced targets count length, k ≤ j := by
    rintro j ⟨hj, hmisplaced⟩
    by_contra hlt
    have hlt := Nat.lt_of_not_le hlt
    have hlength := (List.getElem?_eq_some_iff.mp htarget).1
    have hother := List.getElem?_eq_getElem (Nat.lt_trans hlt hlength)
    obtain ⟨p, hp⟩ := hbefore j hlt _ hother
    obtain ⟨hresolved, hinside⟩ := Target.resolve_ok hp
    rw [← (positionAt?_of_take hother).2] at hresolved
    exact hmisplaced p hresolved ⟨Int.natCast_nonneg p, Int.ofNat_lt.mpr hinside⟩
  refine ⟨k, ⟨⟨hk, ?_⟩, hleast⟩, ?_⟩
  · -- It is misplaced itself, for otherwise it would be resolved.
    rintro p hp hinside
    rw [hposition] at hp
    rw [Target.resolve, hp] at hcause
    simp [hinside] at hcause
  · rw [hposition]
    exact Target.resolve_error hcause

/-- What is resolved at an index is the position there. -/
theorem positionAt?_of_resolved
    (h : resolveTargets length 0 (targets.toList.take count) = .ok positions)
    (hp : positions[i]? = some p) : i < count ∧ positionAt? targets i = some (p : Int) := by
  have hall := resolveTargets_forall₂ h
  obtain ⟨hi, rfl⟩ := List.getElem?_eq_some_iff.mp hp
  have hi' : i < (targets.toList.take count).length := hall.length_eq ▸ hi
  have hresolved := ((List.forall₂_iff_get.mp hall).2 i hi' hi).1
  obtain ⟨hlt, hposition⟩ := positionAt?_of_take (List.getElem?_eq_getElem hi')
  exact ⟨hlt, hposition.trans hresolved⟩

/-- There is a resolved position at every index. -/
theorem exists_resolved (hcount : count ≤ targets.size)
    (h : resolveTargets length 0 (targets.toList.take count) = .ok positions) (hi : i < count) :
    ∃ p, positions[i]? = some p := by
  have hlength := (resolveTargets_forall₂ h).length_eq
  rw [List.length_take, Array.length_toList, Nat.min_eq_left hcount] at hlength
  exact ⟨_, List.getElem?_eq_getElem (hlength ▸ hi)⟩

/-- If all targets are resolved, none is misplaced. -/
theorem misplaced_eq_empty (hcount : count ≤ targets.size)
    (h : resolveTargets length 0 (targets.toList.take count) = .ok positions) :
    misplaced targets count length = ∅ := by
  refine Set.eq_empty_of_forall_notMem ?_
  rintro i ⟨hi, hmisplaced⟩
  obtain ⟨p, hp⟩ := exists_resolved hcount h hi
  have hlt := lt_of_resolveTargets h p (List.mem_of_getElem? hp)
  exact hmisplaced p (positionAt?_of_resolved h hp).2 ⟨Int.natCast_nonneg p, Int.ofNat_lt.mpr hlt⟩

/-- If none is misplaced, all are resolved. -/
theorem exists_positions (hempty : misplaced targets count length = ∅) :
    ∃ positions, resolveTargets length 0 (targets.toList.take count) = .ok positions := by
  cases hresolved : resolveTargets length 0 (targets.toList.take count) with
  | error cause =>
    obtain ⟨i, hleast, -⟩ := isLeast_misplaced hresolved
    exact absurd hempty hleast.nonempty.ne_empty
  | ok positions => exact ⟨positions, rfl⟩

/-! ## §3 Repetitions -/

/-- A position that is reported is the first one that is repeated. -/
theorem isLeast_repeated (hcount : count ≤ targets.size)
    (h : resolveTargets length 0 (targets.toList.take count) = .ok positions) {j : Nat}
    (hrepeat : firstRepeat? 0 [] positions = some (j, p)) :
    IsLeast (repeated targets count) j ∧ positionAt? targets j = some (p : Int) := by
  obtain ⟨k, hk, hp, hbefore, hfirst⟩ := firstRepeat?_eq_some hrepeat
  obtain rfl : j = k := hk.trans (Nat.zero_add k)
  obtain ⟨hj, hposition⟩ := positionAt?_of_resolved h hp
  refine ⟨⟨⟨hj, ?_⟩, ?_⟩, hposition⟩
  · -- The position occurs in front of the index.
    have hmem : p ∈ positions.take j := hbefore.resolve_left (List.not_mem_nil)
    obtain ⟨i, hi⟩ := List.mem_iff_getElem?.mp hmem
    obtain ⟨hlt, hi⟩ := getElem?_take_eq_some_iff.mp hi
    exact ⟨i, hlt, (positionAt?_of_resolved h hi).2.trans hposition.symm⟩
  · -- No position in front of the index occurs in front of its own.
    rintro l ⟨hl, i, hil, heq⟩
    by_contra hlt
    obtain ⟨q, hq⟩ := exists_resolved hcount h hl
    obtain ⟨r, hr⟩ := exists_resolved hcount h (Nat.lt_trans hil hl)
    rw [(positionAt?_of_resolved h hr).2, (positionAt?_of_resolved h hq).2] at heq
    obtain rfl : r = q := Int.ofNat_inj.mp (Option.some.inj heq)
    refine (hfirst l (Nat.lt_of_not_le hlt) r hq).2 ?_
    exact List.mem_of_getElem? (getElem?_take_eq_some_iff.mpr ⟨hil, hr⟩)

/-- If no position is reported, none is repeated. -/
theorem repeated_eq_empty (hcount : count ≤ targets.size)
    (h : resolveTargets length 0 (targets.toList.take count) = .ok positions)
    (hrepeat : firstRepeat? 0 [] positions = none) : repeated targets count = ∅ := by
  have hnodup := (firstRepeat?_eq_none.mp hrepeat).1
  refine Set.eq_empty_of_forall_notMem ?_
  rintro j ⟨hj, i, hij, heq⟩
  obtain ⟨q, hq⟩ := exists_resolved hcount h hj
  obtain ⟨p, hp⟩ := exists_resolved hcount h (Nat.lt_trans hij hj)
  rw [(positionAt?_of_resolved h hp).2, (positionAt?_of_resolved h hq).2] at heq
  obtain rfl : p = q := Int.ofNat_inj.mp (Option.some.inj heq)
  obtain ⟨hi, -⟩ := List.getElem?_eq_some_iff.mp hp
  exact Nat.ne_of_lt hij ((List.getElem?_inj hi hnodup).mp (hp.trans hq.symm))

/-! ## §4 Scatters -/

section

variable {α : Type} {source : View α}

/-- Only the targets that have a value are looked at. -/
theorem View.scatter_congr_targets {others : Array Target}
    (h : others.toList.take source.length = targets.toList.take source.length) (setting : Setting)
    (default : α) (length : Nat) (conflict : Option (α → α → α)) :
    source.scatter setting others default length conflict =
      source.scatter setting targets default length conflict := by
  -- Targets behind the source are neither counted nor resolved.
  have hsize : min others.size source.length = min targets.size source.length := by
    simpa [Nat.min_comm] using congrArg List.length h
  have htake : others.toList.take (min others.size source.length) =
      targets.toList.take (min targets.size source.length) := by
    rw [← Array.length_toList, ← Array.length_toList, Nat.min_comm, ← List.take_eq_take_min, h,
      Nat.min_comm, ← List.take_eq_take_min]
  rw [hsize] at htake
  simp only [View.scatter, hsize, htake]

/-- The first misplaced target is rejected. -/
theorem View.scatter_of_misplaced (hvalid : source.Valid) (hrank : source.rank = 1)
    (setting : Setting) (default : α) (conflict : Option (α → α → α))
    (hmisplaced : (misplaced targets (min targets.size source.length) length).Nonempty) :
    ∃ i, IsLeast (misplaced targets (min targets.size source.length) length) i ∧
      (positionAt? targets i = none →
        source.scatter setting targets default length conflict =
          .ok (.rejected (.argument (.fractionalTarget i)))) ∧
      ∀ p, positionAt? targets i = some p →
        source.scatter setting targets default length conflict =
          .ok (.rejected (.targetOutOfBounds i p length)) := by
  cases hresolved : resolveTargets length 0
      (targets.toList.take (min targets.size source.length)) with
  | ok positions =>
    have hempty := misplaced_eq_empty (Nat.min_le_left ..) hresolved
    exact absurd hempty hmisplaced.ne_empty
  | error cause =>
    obtain ⟨i, hleast, hfractional, hbounds⟩ := isLeast_misplaced hresolved
    have hrejected := View.scatter_of_unresolved hvalid hrank hresolved default conflict setting
    refine ⟨i, hleast, ?_, ?_⟩
    · intro hnone
      rw [hrejected, hfractional hnone]
    · intro p hp
      rw [hrejected, hbounds p hp]

/-- If there is none, the first target whose position occurred before is rejected. -/
theorem View.scatter_of_repetition (hvalid : source.Valid) (hrank : source.rank = 1)
    (setting : Setting) (default : α)
    (hempty : misplaced targets (min targets.size source.length) length = ∅)
    (hrepeated : (repeated targets (min targets.size source.length)).Nonempty) :
    ∃ j p : Nat, IsLeast (repeated targets (min targets.size source.length)) j ∧
      positionAt? targets j = some (p : Int) ∧
      source.scatter setting targets default length none =
        .ok (.rejected (.targetConflict j p)) := by
  have hcount : min targets.size source.length ≤ targets.size := Nat.min_le_left ..
  obtain ⟨positions, hresolved⟩ := exists_positions hempty
  -- All targets are placed, so the first position that is taken is looked for.
  cases hrepeat : firstRepeat? 0 [] positions with
  | none => exact absurd (repeated_eq_empty hcount hresolved hrepeat) hrepeated.ne_empty
  | some found =>
    obtain ⟨hleast, hposition⟩ := isLeast_repeated hcount hresolved hrepeat
    exact ⟨found.1, found.2, hleast, hposition,
      View.scatter_of_repeated hvalid hrank hresolved hrepeat default setting⟩

/-- Nothing else is rejected. -/
theorem View.scatter_accepted (hvalid : source.Valid) (hrank : source.rank = 1)
    (setting : Setting) (default : α) {conflict : Option (α → α → α)}
    (hempty : misplaced targets (min targets.size source.length) length = ∅)
    (hdistinct : conflict = none → repeated targets (min targets.size source.length) = ∅) :
    ∃ run, source.scatter setting targets default length conflict = .ok run ∧ run.Accepted := by
  obtain ⟨positions, hresolved⟩ := exists_positions hempty
  -- A repetition that is found would be the least one there is.
  have hrepeat : conflict = none → firstRepeat? 0 [] positions = none := by
    intro hnone
    by_contra hfound
    obtain ⟨found, hfound⟩ := Option.ne_none_iff_exists'.mp hfound
    obtain ⟨hleast, -⟩ := isLeast_repeated (Nat.min_le_left ..) hresolved hfound
    exact hleast.nonempty.ne_empty (hdistinct hnone)
  exact View.scatter_rejectsNothing hvalid hrank (.of_resolved hresolved hrepeat) default setting

/-- With a conflict function no repetition is rejected. -/
theorem View.scatter_ne_targetConflict (hvalid : source.Valid) (hrank : source.rank = 1)
    (setting : Setting) (targets : Array Target) (default : α) (length : Nat)
    {conflict : Option (α → α → α)} (hconflict : conflict ≠ none) :
    ∃ run, source.scatter setting targets default length conflict = .ok run ∧
      ∀ j p, run.result ≠ .error (.input (.targetConflict j p)) := by
  -- With a conflict function the positions are never compared.
  rcases Set.eq_empty_or_nonempty
    (misplaced targets (min targets.size source.length) length) with hempty | hmisplaced
  · obtain ⟨run, hrun, hends⟩ := View.scatter_accepted hvalid hrank setting default hempty
      fun hnone => absurd hnone hconflict
    refine ⟨run, hrun, fun j p herror => ?_⟩
    obtain ⟨expected, report, hunexpected⟩ := hends _ herror
    cases hunexpected
  · obtain ⟨i, -, hfractional, hbounds⟩ :=
      View.scatter_of_misplaced hvalid hrank setting default conflict hmisplaced
    cases hposition : positionAt? targets i with
    | none => exact ⟨_, hfractional hposition, fun j p herror => by cases herror⟩
    | some q => exact ⟨_, hbounds q hposition, fun j p herror => by cases herror⟩

/-- **A scatter rejects the first bad target.** Of the targets that have a value, the first one that
stands for no position of the output is rejected, for being fractional or for its position. If there
is none and no conflict function, the first one whose position occurred before is rejected, for its
position. In all other cases the input is accepted. With a conflict function no repetition is ever
rejected, and targets without a value have no influence on anything. -/
theorem View.scatter_rejects_least (hvalid : source.Valid) (hrank : source.rank = 1)
    (setting : Setting) (targets : Array Target) (default : α) (length : Nat)
    (conflict : Option (α → α → α)) :
    let count := min targets.size source.length
    ((misplaced targets count length).Nonempty →
      ∃ i, IsLeast (misplaced targets count length) i ∧
        (positionAt? targets i = none →
          source.scatter setting targets default length conflict =
            .ok (.rejected (.argument (.fractionalTarget i)))) ∧
        ∀ p, positionAt? targets i = some p →
          source.scatter setting targets default length conflict =
            .ok (.rejected (.targetOutOfBounds i p length))) ∧
    (misplaced targets count length = ∅ → conflict = none → (repeated targets count).Nonempty →
      ∃ j p : Nat, IsLeast (repeated targets count) j ∧ positionAt? targets j = some (p : Int) ∧
        source.scatter setting targets default length conflict =
          .ok (.rejected (.targetConflict j p))) ∧
    (misplaced targets count length = ∅ → (conflict = none → repeated targets count = ∅) →
      ∃ run, source.scatter setting targets default length conflict = .ok run ∧ run.Accepted) ∧
    (conflict ≠ none → ∃ run, source.scatter setting targets default length conflict = .ok run ∧
      ∀ j p, run.result ≠ .error (.input (.targetConflict j p))) ∧
    (∀ others : Array Target,
      others.toList.take source.length = targets.toList.take source.length →
      source.scatter setting others default length conflict =
        source.scatter setting targets default length conflict) := by
  intro count
  refine ⟨?misplaced, ?repeated, ?accepted, ?conflict, ?others⟩
  case misplaced => exact View.scatter_of_misplaced hvalid hrank setting default conflict
  case repeated =>
    rintro hempty rfl hrepeated
    exact View.scatter_of_repetition hvalid hrank setting default hempty hrepeated
  case accepted => exact View.scatter_accepted hvalid hrank setting default
  case conflict => exact View.scatter_ne_targetConflict hvalid hrank setting targets default length
  case others =>
    exact fun others h => View.scatter_congr_targets h setting default length conflict

/-- A fractional target behind a repetition, one in front of a position past the end, a position
that occurs three times, and the same with a conflict function and one more target. -/
theorem View.scatter_rejects_least_mixed :
    let source := View.ofArray 0 #[5, 7, 9]
    let setting : Setting := { host := BailSchedule.always.host, config := Config.withWorkers {} 2 }
    let half := Target.floating (.finite false 1 (-1))
    source.scatter setting #[.unsigned 1, .unsigned 1, half] 0 4 none =
      .ok (.rejected (.argument (.fractionalTarget 2))) ∧
    source.scatter setting #[.signed 4, half, .signed (-1)] 0 4 none =
      .ok (.rejected (.targetOutOfBounds 0 4 4)) ∧
    source.scatter setting #[.unsigned 2, .signed 2, .unsigned 2] 0 4 none =
      .ok (.rejected (.targetConflict 1 2)) ∧
    (∃ run, source.scatter setting #[.unsigned 2, .signed 2, .unsigned 2] 0 4 (some (· + ·)) =
      .ok run ∧ run.Accepted) ∧
    source.scatter setting #[.unsigned 2, .signed 2, .unsigned 2, half] 0 4 (some (· + ·)) =
      source.scatter setting #[.unsigned 2, .signed 2, .unsigned 2] 0 4 (some (· + ·)) := by
  intro source setting half
  have hvalid : source.Valid := ⟨rfl, by decide⟩
  have hrejects := fun targets => View.scatter_rejects_least hvalid rfl setting targets 0 4
  -- The three targets stand for one position of the output.
  have hresolved : resolveTargets 4 0 [.unsigned 2, .signed 2, .unsigned 2] = .ok [2, 2, 2] := rfl
  have hempty : misplaced #[.unsigned 2, .signed 2, .unsigned 2] 3 4 = ∅ :=
    misplaced_eq_empty (by decide) hresolved
  refine ⟨?fractional, ?bounds, ?conflict, ?accepted, ?others⟩
  case fractional =>
    obtain ⟨i, hleast, hnone, -⟩ := (hrejects #[.unsigned 1, .unsigned 1, half] none).1
      ⟨2, by decide⟩
    obtain rfl := eq_of_isLeast hleast (j := 2) (by decide) (by decide)
    exact hnone rfl
  case bounds =>
    obtain ⟨i, hleast, -, hsome⟩ := (hrejects #[.signed 4, half, .signed (-1)] none).1
      ⟨0, by decide⟩
    obtain rfl := eq_of_isLeast hleast (j := 0) (by decide) (by decide)
    exact hsome 4 rfl
  case conflict =>
    obtain ⟨j, p, hleast, hposition, hconflict⟩ :=
      (hrejects #[.unsigned 2, .signed 2, .unsigned 2] none).2.1 hempty rfl ⟨1, by decide⟩
    obtain rfl := eq_of_isLeast hleast (j := 1) (by decide) (by decide)
    obtain rfl : p = 2 := (Int.ofNat_inj.mp (Option.some.inj hposition)).symm
    exact hconflict
  case accepted =>
    exact (hrejects #[.unsigned 2, .signed 2, .unsigned 2] (some (· + ·))).2.2.1 hempty
      fun hnone => by cases hnone
  case others =>
    exact (hrejects #[.unsigned 2, .signed 2, .unsigned 2] (some (· + ·))).2.2.2.2 _ rfl

end

end ForkJoin
