import ForkJoin.Proofs.Fold
import ForkJoin.Proofs.Targets
import ForkJoin.Scatter.Deposit

/-!
# What deposits leave

After any number of deposits, a position holds the values aimed at it, each of them combined with
what the ones before it had left. That is all there is to say about the outputs of workers, be
they windows of the common output or outputs of their own.

## Main definitions
- `aimedAt`: the values on their way to a position, in source order.
- `gathered`: what they leave there.
- `OutputPart.after`, `PrivateOutput.after`: outputs after some deposits.

## Main statements
- `OutputPart.deposits_return`, `PrivateOutput.deposits_return`: runs of deposits.
- `scatterAlone_returns`: the sequential scatter.
- `PrivateOutput.mergeAll_returns`: merging outputs, whatever the conflict function.
- `mergedAt_eq_gathered`: where it is associative, merging is depositing.
-/

namespace ForkJoin

variable {α : Type} (conflict : Option (α → α → α))

/-! ## §1 Values at one position -/

/-- What a value leaves at a position that is taken. -/
def collided (existing new : α) : α :=
  conflict.elim new fun f => f new existing

/-- The call that makes it, if there is a conflict function. -/
def collideCalls (existing new : α) : List (α × α) :=
  conflict.toList.map fun _ => (new, existing)

theorem collide_returns (new existing : α) :
    (collide conflict new existing).Returns (collided conflict existing new)
      (collideCalls conflict existing new) := by
  cases conflict with
  | none => exact .pure _
  | some f => exact .call (fun pair => f pair.1 pair.2) (new, existing)

/-- Combining values is associative if the conflict function is. Without one the last value stays,
which is associative too. -/
theorem collided_assoc (hassoc : ∀ f, conflict = some f → ∀ a b c, f (f a b) c = f a (f b c))
    (a b c : α) :
    collided conflict (collided conflict a b) c = collided conflict a (collided conflict b c) := by
  cases conflict with
  | none => rfl
  | some f =>
    -- The function gets the new value first, so the three values stand in reverse.
    exact (hassoc f rfl c b a).symm

/-- The values aimed at a position, in source order. -/
def aimedAt (hits : List (Nat × α)) (p : Nat) : List α :=
  (hits.filter (·.1 = p)).map (·.2)

@[simp] theorem aimedAt_append (first second : List (Nat × α)) (p : Nat) :
    aimedAt (first ++ second) p = aimedAt first p ++ aimedAt second p := by
  simp [aimedAt]

@[simp] theorem aimedAt_flatten (parts : List (List (Nat × α))) (p : Nat) :
    aimedAt parts.flatten p = (parts.map (aimedAt · p)).flatten := by
  induction parts with
  | nil => rfl
  | cons hits rest ih => simp [ih]

theorem length_aimedAt (hits : List (Nat × α)) (p : Nat) :
    (aimedAt hits p).length = (hits.map (·.1)).count p := by
  rw [aimedAt, List.length_map, ← List.countP_eq_length_filter, List.count, List.countP_map]
  rfl

def hitsIn (span : Span) (hits : List (Nat × α)) : List (Nat × α) :=
  hits.filter fun hit => span.contains hit.1

theorem aimedAt_hitsIn {span : Span} {p : Nat} (hits : List (Nat × α))
    (hp : span.contains p = true) : aimedAt (hitsIn span hits) p = aimedAt hits p := by
  rw [aimedAt, hitsIn, List.filter_filter, aimedAt]
  congr 1
  -- A hit at the position is one in the window.
  apply List.filter_congr
  intro hit _
  by_cases heq : hit.1 = p
  · simp [heq, hp]
  · simp [heq]

/-- What the values aimed at a position leave there. -/
def gathered (hits : List (Nat × α)) (p : Nat) : Option α :=
  foldFrom (collided conflict) none (aimedAt hits p)

/-- One more deposit changes one position. -/
theorem gathered_concat (done : List (Nat × α)) (p : Nat) (v : α) :
    gathered conflict (done ++ [(p, v)]) = Function.update (gathered conflict done) p
      (some (combine (collided conflict) (gathered conflict done p) v)) := by
  funext q
  by_cases hq : q = p
  · -- The new value is the last one aimed at its position.
    subst hq
    simp [gathered, foldFrom_append, aimedAt]
  · -- At all other positions nothing is added.
    have hne : p ≠ q := fun h => hq h.symm
    simp [gathered, aimedAt, hq, hne]

/-! ## §2 Runs of deposits -/

/-- The call that a deposit makes: one if its position is taken and there is a conflict
function. -/
def depositCalls (done : List (Nat × α)) (hit : Nat × α) : List (α × α) :=
  (gathered conflict done hit.1).toList.flatMap (collideCalls conflict · hit.2)

/-- The calls of all deposits that follow the ones done. -/
def hitCalls : (done hits : List (Nat × α)) → List (α × α)
  | _, [] => []
  | done, hit :: rest => depositCalls conflict done hit ++ hitCalls (done ++ [hit]) rest

/-- Deposits one after another, from a state that is known after every deposit. -/
theorem deposits_return {σ : Type} {step : σ → Nat × α → Calling (α × α) σ}
    (after : List (Nat × α) → σ) {hits : List (Nat × α)}
    (hstep : ∀ done, ∀ hit ∈ hits,
      (step (after done) hit).Returns (after (done ++ [hit])) (depositCalls conflict done hit))
    (done : List (Nat × α)) :
    (hits.foldlM step (after done)).Returns (after (done ++ hits))
      (hitCalls conflict done hits) := by
  induction hits generalizing done with
  | nil =>
    rw [List.append_nil]
    exact .pure _
  | cons hit rest ih =>
    -- The rest of the hits is deposited after this one.
    have hrest := ih (fun done hit hmem => hstep done hit (List.mem_cons_of_mem _ hmem))
      (done ++ [hit])
    rw [List.append_assoc] at hrest
    exact .foldlM_cons (hstep done hit (List.mem_cons_self ..)) hrest

namespace OutputPart

/-- A window of the output after some deposits in it. -/
def after (span : Span) (default : α) (hits : List (Nat × α)) : OutputPart α where
  span := span
  cells := span.table fun p => (gathered conflict hits p).getD default
  written := ⟨span.start, span.table fun p => (gathered conflict hits p).isSome⟩

theorem blank_eq_after (span : Span) (default : α) :
    blank span (Array.replicate span.length default) = after conflict span default [] := by
  rw [blank, after, Span.replicate_eq_table, WrittenSet.ofSpan_eq_table]
  rfl

theorem deposit_returns {span : Span} (default : α) (done : List (Nat × α)) {hit : Nat × α}
    (hin : span.contains hit.1 = true) :
    ((after conflict span default done).deposit conflict hit.1 hit.2).Returns
      (after conflict span default (done ++ [hit])) (depositCalls conflict done hit) := by
  obtain ⟨p, v⟩ := hit
  have hinsert := WrittenSet.insert_table (fun q => (gathered conflict done q).isSome) hin
  have hset := fun x => Span.checkedSet_table
    (fun q => (gathered conflict done q).getD default) x hin
  -- Both tables change at the position of the hit.
  have hcells : ∀ x, combine (collided conflict) (gathered conflict done p) v = x →
      Function.update (fun q => (gathered conflict done q).getD default) p x =
        fun q => (gathered conflict (done ++ [(p, v)]) q).getD default := by
    rintro x rfl
    funext q
    by_cases hq : q = p <;> simp [gathered_concat, hq]
  have htaken : Function.update (fun q => (gathered conflict done q).isSome) p true =
      fun q => (gathered conflict (done ++ [(p, v)]) q).isSome := by
    funext q
    by_cases hq : q = p <;> simp [gathered_concat, hq]
  rw [htaken] at hinsert
  refine .silent_bind (.lift (Span.checkedSub_start hin)) (.silent_bind (.lift hinsert) ?_)
  cases hslot : gathered conflict done p with
  | none =>
    -- The position is free: the value replaces the default.
    have hsetValue := hset v
    rw [hcells v (by rw [hslot, combine_none])] at hsetValue
    simp only [Option.isSome_none, Bool.not_false, if_true]
    rw [depositCalls, hslot]
    exact .silent_bind (.lift hsetValue) (.pure _)
  | some existing =>
    -- The position is taken: the value is combined with what is there.
    have hget := Span.checkedGet_table (fun q => (gathered conflict done q).getD default) hin
    have hsetValue := hset (collided conflict existing v)
    rw [hcells _ (by rw [hslot, combine_some])] at hsetValue
    rw [hslot, Option.getD_some] at hget
    simp only [Option.isSome_some, Bool.not_true, Bool.false_eq_true, if_false]
    rw [depositCalls, hslot, Option.toList_some, List.flatMap_singleton]
    exact .silent_bind (.lift hget) (.bind_silent (collide_returns conflict v existing)
      (.silent_bind (.lift hsetValue) (.pure _)))

theorem deposits_return {span : Span} (default : α) (done : List (Nat × α))
    {hits : List (Nat × α)} (hin : ∀ hit ∈ hits, span.contains hit.1 = true) :
    (hits.foldlM (fun (part : OutputPart α) hit => part.deposit conflict hit.1 hit.2)
      (after conflict span default done)).Returns
        (after conflict span default (done ++ hits)) (hitCalls conflict done hits) :=
  ForkJoin.deposits_return conflict (after conflict span default)
    (fun done _ hmem => deposit_returns conflict default done (hin _ hmem)) done

/-- Hits outside the window leave it as it is. -/
theorem depositsInside_return (span : Span) (default : α) (done hits : List (Nat × α)) :
    (hits.foldlM (fun (part : OutputPart α) hit => part.depositInside conflict hit.1 hit.2)
      (after conflict span default done)).Returns
        (after conflict span default (done ++ hitsIn span hits))
        (hitCalls conflict done (hitsIn span hits)) := by
  -- By induction on the hits; those that are done decide where the next one collides.
  induction hits generalizing done with
  | nil =>
    rw [hitsIn, List.filter_nil, List.append_nil]
    exact .pure _
  | cons hit rest ih =>
    rw [hitsIn, List.filter_cons]
    by_cases hin : span.contains hit.1 = true
    · -- A hit in the window is one more deposit.
      have hfirst : ((after conflict span default done).depositInside conflict hit.1 hit.2).Returns
          (after conflict span default (done ++ [hit])) (depositCalls conflict done hit) := by
        rw [depositInside]
        exact (if_pos hin).symm ▸ deposit_returns conflict default done hin
      have hrest := ih (done ++ [hit])
      rw [List.append_assoc] at hrest
      rw [if_pos hin]
      exact .foldlM_cons hfirst hrest
    · -- Any other hit is passed over.
      have hfirst : ((after conflict span default done).depositInside conflict hit.1 hit.2).Returns
          (after conflict span default done) [] := by
        rw [depositInside]
        exact (if_neg hin).symm ▸ .pure _
      rw [if_neg hin]
      exact .foldlM_cons hfirst (ih done)

end OutputPart

namespace ScatterJob

/-- The values with their positions, in source order. -/
def hits (job : ScatterJob α) : Array (Nat × α) :=
  job.targets.zip job.values

/-- The output: what is gathered at every position, or else the default. -/
def output (job : ScatterJob α) (default : α) : Array α :=
  Span.table ⟨0, job.length⟩ fun p => (gathered job.conflict job.hits.toList p).getD default

/-- The sequential scatter never breaks off if all targets lie in the output. -/
theorem scatterAlone_returns (job : ScatterJob α) (default : α)
    (hin : ∀ p ∈ job.targets, p < job.length) :
    (scatterAlone job default).Returns (job.output default)
      (hitCalls job.conflict [] job.hits.toList) := by
  have hzip : job.targets.toList.zip job.values.toList = job.hits.toList := by
    rw [hits, Array.toList_zip]
  -- The window is the whole output, and no target misses it.
  have hinside : ∀ hit ∈ job.hits.toList, (Span.mk 0 job.length).contains hit.1 = true := by
    intro hit hmem
    rw [← hzip] at hmem
    exact Span.contains_iff.mpr
      ⟨Nat.zero_le _, hin _ (Array.mem_toList_iff.mp (List.of_mem_zip hmem).1)⟩
  have hdeposits := OutputPart.deposits_return job.conflict default [] hinside
  rw [← OutputPart.blank_eq_after] at hdeposits
  rw [scatterAlone, hzip]
  exact hdeposits.map (·.cells)

end ScatterJob

/-! ## §3 Outputs of one's own -/

namespace PrivateOutput

/-- An output of one's own after some deposits. -/
def after (length : Nat) (hits : List (Nat × α)) : PrivateOutput α :=
  Span.table ⟨0, length⟩ (gathered conflict hits)

theorem blank_eq_after (length : Nat) : blank length = after conflict length [] :=
  Span.replicate_eq_table ⟨0, length⟩ none

theorem combine_returns (slot : Option α) (value : α) :
    (combine conflict slot value).Returns (some (ForkJoin.combine (collided conflict) slot value))
      (slot.toList.flatMap (collideCalls conflict · value)) := by
  cases slot with
  | none => exact .pure _
  | some existing =>
    rw [Option.toList_some, List.flatMap_singleton]
    exact .map some (collide_returns conflict value existing)

theorem deposit_returns {length : Nat} (done : List (Nat × α)) {hit : Nat × α}
    (hin : hit.1 < length) :
    ((after conflict length done).deposit conflict hit.1 hit.2).Returns
      (after conflict length (done ++ [hit])) (depositCalls conflict done hit) := by
  obtain ⟨p, v⟩ := hit
  have hcontains : (Span.mk 0 length).contains p = true :=
    Span.contains_iff.mpr ⟨Nat.zero_le p, hin⟩
  have hget := Span.checkedGet_table (gathered conflict done) hcontains
  -- A deposit combines with what has been gathered so far, and that is what is gathered next.
  have hset := Span.checkedSet_table (gathered conflict done)
    (some (ForkJoin.combine (collided conflict) (gathered conflict done p) v)) hcontains
  rw [← gathered_concat] at hset
  exact .silent_bind (.lift hget)
    (.bind_silent (combine_returns conflict (gathered conflict done p) v) (.lift hset))

theorem deposits_return {length : Nat} (done : List (Nat × α)) {hits : List (Nat × α)}
    (hin : ∀ hit ∈ hits, hit.1 < length) :
    (hits.foldlM (fun (slots : PrivateOutput α) hit => slots.deposit conflict hit.1 hit.2)
      (after conflict length done)).Returns
        (after conflict length (done ++ hits)) (hitCalls conflict done hits) :=
  ForkJoin.deposits_return conflict (after conflict length)
    (fun done _ hmem => deposit_returns conflict done (hin _ hmem)) done

/-! ## §4 Merging -/

/-- The calls that merging makes at one position. -/
def mergeCalls (slot value : Option α) : List (α × α) :=
  value.toList.flatMap fun value => slot.toList.flatMap (collideCalls conflict · value)

theorem merge_returns (span : Span) (slots later : Nat → Option α) :
    (merge conflict (span.table slots) (span.table later)).Returns
      (span.table fun p => foldFrom (collided conflict) (slots p) (later p).toList)
      (span.positions.flatMap fun p => mergeCalls conflict (slots p) (later p)) := by
  rw [merge, Span.zip_table]
  apply Span.mapM_table_returns span
  intro p _
  cases hvalue : later p with
  | none => simpa [mergeCalls] using Calling.Returns.pure (slots p)
  | some value =>
    simpa [mergeCalls] using combine_returns conflict (slots p) value

/-- What merging leaves at a position: the values of the outputs, in their order. -/
def mergedAt (slot : Option α) (outputs : List (Nat → Option α)) (p : Nat) : Option α :=
  foldFrom (collided conflict) slot (outputs.flatMap fun output => (output p).toList)

/-- The calls of merging outputs into one. -/
def mergeAllCalls (span : Span) : (slots : Nat → Option α) → List (Nat → Option α) →
    List (α × α)
  | _, [] => []
  | slots, output :: rest =>
    (span.positions.flatMap fun p => mergeCalls conflict (slots p) (output p)) ++
      mergeAllCalls span (fun p => foldFrom (collided conflict) (slots p) (output p).toList) rest

theorem mergeAll_returns (span : Span) (slots : Nat → Option α)
    (outputs : List (Nat → Option α)) :
    ((outputs.map span.table).foldlM (merge conflict) (span.table slots)).Returns
      (span.table fun p => mergedAt conflict (slots p) outputs p)
      (mergeAllCalls conflict span slots outputs) := by
  induction outputs generalizing slots with
  | nil => exact .pure _
  | cons output rest ih =>
    -- The outputs that are left are merged into what the first one has led to.
    have hrest := ih fun p => foldFrom (collided conflict) (slots p) (output p).toList
    simp only [mergedAt, List.flatMap_cons, foldFrom_append] at hrest ⊢
    exact .foldlM_cons (merge_returns conflict span slots output) hrest

/-- Where the conflict function is associative, merging what parts of the hits leave is the same
as depositing all of them. -/
theorem mergedAt_eq_gathered
    (hassoc : ∀ f, conflict = some f → ∀ a b c, f (f a b) c = f a (f b c))
    (parts : List (List (Nat × α))) (p : Nat) :
    mergedAt conflict none (parts.map (gathered conflict)) p = gathered conflict parts.flatten p := by
  -- Folding what the parts have come to is folding all the values aimed at the position.
  have hparts := foldFrom_flatMap_foldFrom (collided conflict) (collided_assoc conflict hassoc) none
    (parts.map (aimedAt · p))
  rw [mergedAt, gathered, aimedAt_flatten, ← hparts, List.flatMap_map, List.flatMap_map]
  rfl

end PrivateOutput

end ForkJoin
