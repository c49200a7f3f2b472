import ForkJoin.Proofs.Tables
import ForkJoin.Scatter.Target
import Mathlib.Data.List.Forall2

/-!
# Accepted targets

Resolving targets gives one position of the output for each of them, and the check for
repetitions accepts exactly the targets of which no two stand for the same position.

## Main definitions
- `firstRepeat?`: the first position that occurs a second time.
- `Accepts`: validation accepts targets, and resolves them to positions.

## Main statements
- `resolveTargets_forall₂`: what resolved positions are.
- `resolveTargets_error`: which target is complained about.
- `firstRepeat?_eq_some`, `requireDistinct_eq`: the check reports the first repetition.
- `Accepts.nodup`: accepted targets without a conflict function do not repeat.
-/

namespace ForkJoin

/-! ## §1 Resolving -/

theorem Target.resolve_ok {target : Target} {index length p : Nat}
    (h : target.resolve index length = .ok p) : target.position? = some (p : Int) ∧ p < length := by
  unfold Target.resolve at h
  cases hposition : target.position? with
  | none => simp [hposition] at h
  | some position =>
    simp only [hposition] at h
    split at h
    · -- The position is not negative, so nothing is lost when it is read as a natural number.
      rename_i hbounds
      obtain rfl := Except.ok.inj h
      exact ⟨congrArg some (by omega), by omega⟩
    · cases h

/-- Every resolved position is that of its target, and lies in the output. -/
theorem resolveTargets_forall₂ {length index : Nat} {targets : List Target} {positions : List Nat}
    (h : resolveTargets length index targets = .ok positions) :
    List.Forall₂ (fun target (p : Nat) => target.position? = some (p : Int) ∧ p < length)
      targets positions := by
  -- By induction on the targets; each is resolved by itself.
  induction targets generalizing index positions with
  | nil =>
    obtain rfl := Except.ok.inj h
    exact .nil
  | cons target rest ih =>
    rw [resolveTargets] at h
    obtain ⟨p, hfirst, h⟩ := Fault.bind_eq_ok.mp h
    obtain ⟨others, hrest, h⟩ := Fault.bind_eq_ok.mp h
    cases h
    exact .cons (Target.resolve_ok hfirst) (ih hrest)

theorem lt_of_resolveTargets {length index : Nat} {targets : List Target} {positions : List Nat}
    (h : resolveTargets length index targets = .ok positions) : ∀ p ∈ positions, p < length := by
  intro p hp
  obtain ⟨i, hi, rfl⟩ := List.getElem_of_mem hp
  have hall := resolveTargets_forall₂ h
  exact ((List.forall₂_iff_get.mp hall).2 i (hall.length_eq ▸ hi) hi).2

/-- A target that is not resolved is fractional, or stands for a position outside the output. -/
theorem Target.resolve_error {target : Target} {index length : Nat} {cause : InputError}
    (h : target.resolve index length = .error cause) :
    (target.position? = none → cause = .argument (.fractionalTarget index)) ∧
      ∀ p, target.position? = some p → cause = .targetOutOfBounds index p length := by
  rw [Target.resolve] at h
  -- A target has no position, or one that is out of bounds.
  constructor
  · intro hnone
    rw [hnone] at h
    exact (Except.error.inj h).symm
  · intro p hp
    simp only [hp] at h
    split at h
    · cases h
    · exact (Except.error.inj h).symm

/-- The target that is complained about is the first one that is not resolved. -/
theorem resolveTargets_error {length index : Nat} {targets : List Target} {cause : InputError}
    (h : resolveTargets length index targets = .error cause) :
    ∃ (k : Nat) (target : Target), targets[k]? = some target ∧
      target.resolve (index + k) length = .error cause ∧
      ∀ j < k, ∀ other, targets[j]? = some other → ∃ p, other.resolve (index + j) length = .ok p := by
  induction targets generalizing index with
  | nil => cases h
  | cons target rest ih =>
    rw [resolveTargets] at h
    rcases Fault.bind_eq_error.mp h with hfirst | ⟨p, hfirst, h⟩
    · exact ⟨0, target, rfl, hfirst, fun j hj => absurd hj (Nat.not_lt_zero j)⟩
    rcases Fault.bind_eq_error.mp h with hrest | ⟨others, -, h⟩
    · -- The first target is resolved, and the rest is counted from the next index on.
      obtain ⟨k, bad, hbad, hcause, hbefore⟩ := ih hrest
      refine ⟨k + 1, bad, hbad, ?_, ?_⟩
      · rwa [← Nat.add_assoc, Nat.add_right_comm]
      · intro j hj other hother
        cases j with
        | zero =>
          cases hother
          exact ⟨p, hfirst⟩
        | succ j =>
          rw [← Nat.add_assoc, Nat.add_right_comm]
          exact hbefore j (Nat.lt_of_succ_lt_succ hj) other hother
    · cases h

/-! ## §2 Repetitions -/

namespace WrittenSet

theorem ofSpan_eq_table (span : Span) :
    ofSpan span = ⟨span.start, span.table fun _ => false⟩ := by
  rw [ofSpan, Span.replicate_eq_table]

theorem insert_table {span : Span} {p : Nat} (taken : Nat → Bool) (hp : span.contains p = true) :
    insert ⟨span.start, span.table taken⟩ p =
      .ok (!taken p, ⟨span.start, span.table (Function.update taken p true)⟩) := by
  simp [insert, Span.checkedSub_start hp, Span.checkedGet_table taken hp,
    Span.checkedSet_table taken true hp]

end WrittenSet

/-- The first position that was seen before, with its index. -/
def firstRepeat? : (index : Nat) → (seen : List Nat) → List Nat → Option (Nat × Nat)
  | _, _, [] => none
  | index, seen, p :: rest =>
    if p ∈ seen then some (index, p) else firstRepeat? (index + 1) (p :: seen) rest

theorem firstRepeat?_eq_none {index : Nat} {seen positions : List Nat} :
    firstRepeat? index seen positions = none ↔
      positions.Nodup ∧ ∀ p ∈ positions, p ∉ seen := by
  induction positions generalizing index seen with
  | nil => simp [firstRepeat?]
  | cons p rest ih =>
    by_cases hseen : p ∈ seen
    · simp [firstRepeat?, hseen]
    · rw [firstRepeat?, if_neg hseen, ih, List.nodup_cons]
      -- For the rest the first position counts as seen.
      constructor
      · rintro ⟨hnodup, hfresh⟩
        refine ⟨⟨fun hmem => hfresh p hmem (List.mem_cons_self ..), hnodup⟩, fun q hq => ?_⟩
        rcases List.mem_cons.mp hq with rfl | hq
        · exact hseen
        · exact fun hmem => hfresh q hq (List.mem_cons_of_mem _ hmem)
      · rintro ⟨⟨hp, hnodup⟩, hfresh⟩
        refine ⟨hnodup, fun q hq hmem => ?_⟩
        rcases List.mem_cons.mp hmem with rfl | hmem
        · exact hp hq
        · exact hfresh q (List.mem_cons_of_mem _ hq) hmem

/-- What is reported is there, was there before, and nothing in front of it was. -/
theorem firstRepeat?_eq_some {index : Nat} {seen positions : List Nat} {i p : Nat}
    (h : firstRepeat? index seen positions = some (i, p)) :
    ∃ k, i = index + k ∧ positions[k]? = some p ∧ (p ∈ seen ∨ p ∈ positions.take k) ∧
      ∀ j < k, ∀ q, positions[j]? = some q → q ∉ seen ∧ q ∉ positions.take j := by
  induction positions generalizing index seen with
  | nil => cases h
  | cons q rest ih =>
    rw [firstRepeat?] at h
    split at h
    · rename_i hseen
      cases h
      exact ⟨0, rfl, rfl, .inl hseen, fun j hj => absurd hj (Nat.not_lt_zero j)⟩
    · -- For the rest the first position counts as seen.
      rename_i hfresh
      obtain ⟨k, rfl, hp, hrepeat, hbefore⟩ := ih h
      refine ⟨k + 1, by omega, hp, ?_, ?_⟩
      · rw [List.take_succ_cons, List.mem_cons]
        rw [List.mem_cons] at hrepeat
        rcases hrepeat with (rfl | hseen) | htake
        · exact .inr (.inl rfl)
        · exact .inl hseen
        · exact .inr (.inr htake)
      · intro j hj r hr
        cases j with
        | zero =>
          cases hr
          exact ⟨hfresh, by simp⟩
        | succ j =>
          obtain ⟨hseen, htake⟩ := hbefore j (Nat.lt_of_succ_lt_succ hj) r hr
          rw [List.mem_cons, not_or] at hseen
          rw [List.take_succ_cons, List.mem_cons, not_or]
          exact ⟨hseen.2, hseen.1, htake⟩

/-- The check never breaks off, and rejects the first repetition. -/
theorem requireDistinct_eq {span : Span} {positions : List Nat} (index : Nat) (seen : List Nat)
    (hin : ∀ p ∈ positions, span.contains p = true) :
    requireDistinct index ⟨span.start, span.table fun p => decide (p ∈ seen)⟩ positions =
      .ok ((firstRepeat? index seen positions).elim (.ok ())
        fun (i, p) => .error (.targetConflict i p)) := by
  induction positions generalizing index seen with
  | nil => rfl
  | cons p rest ih =>
    -- The window of taken positions is the table of those seen, so taking one more adds it there.
    have hp := hin p (List.mem_cons_self ..)
    have hinsert := WrittenSet.insert_table (fun p => decide (p ∈ seen)) hp
    have hnext := ih (index + 1) (p :: seen) fun q hq => hin q (List.mem_cons_of_mem _ hq)
    have hupdate : Function.update (fun p => decide (p ∈ seen)) p true =
        fun q => decide (q ∈ p :: seen) := by
      funext q
      by_cases hq : q = p <;> simp [hq]
    rw [hupdate] at hinsert
    rw [requireDistinct, hinsert, firstRepeat?]
    by_cases hseen : p ∈ seen
    · simp [hseen]
    · simpa [hseen] using hnext

/-- The check of positions of an output. -/
theorem requireDistinct_blank {length : Nat} {positions : List Nat}
    (hlt : ∀ p ∈ positions, p < length) :
    requireDistinct 0 (.ofSpan ⟨0, length⟩) positions =
      .ok ((firstRepeat? 0 [] positions).elim (.ok ())
        fun found => .error (.targetConflict found.1 found.2)) := by
  have hin : ∀ p ∈ positions, (Span.mk 0 length).contains p = true := fun p hp =>
    Span.contains_iff.mpr ⟨Nat.zero_le p, hlt p hp⟩
  have heq := requireDistinct_eq 0 [] hin
  simp only [List.not_mem_nil, decide_false] at heq
  rw [WrittenSet.ofSpan_eq_table, heq]

/-! ## §3 Validation -/

/-- Validation accepts the targets of `count` values for an output of some length: all of them
stand for `positions`, which are told apart unless there is a conflict function. -/
structure Accepts {α : Type} (targets : Array Target) (count length : Nat)
    (conflict : Option (α → α → α)) (positions : List Nat) : Prop where
  resolved : resolveTargets length 0 (targets.toList.take (min targets.size count)) = .ok positions
  distinct : conflict = none → requireDistinct 0 (.ofSpan ⟨0, length⟩) positions = .ok (.ok ())

namespace Accepts

variable {α : Type} {targets : Array Target} {count length : Nat} {conflict : Option (α → α → α)}
  {positions : List Nat}

theorem length_eq (h : Accepts targets count length conflict positions) :
    positions.length = min targets.size count := by
  have hlength := (resolveTargets_forall₂ h.resolved).length_eq
  rw [← hlength, List.length_take, Array.length_toList]
  omega

theorem lt_length (h : Accepts targets count length conflict positions) :
    ∀ p ∈ positions, p < length :=
  lt_of_resolveTargets h.resolved

theorem nodup (h : Accepts targets count length conflict positions) (hnone : conflict = none) :
    positions.Nodup := by
  have hdistinct := h.distinct hnone
  rw [requireDistinct_blank h.lt_length] at hdistinct
  cases hrepeat : firstRepeat? 0 [] positions with
  | none => exact (firstRepeat?_eq_none.mp hrepeat).1
  | some found => simp [hrepeat] at hdistinct

end Accepts

end ForkJoin
