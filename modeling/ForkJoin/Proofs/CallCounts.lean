import ForkJoin.Proofs.Rejections
import Mathlib.Data.Finset.Card

/-!
# How many calls are made

Every call of a binary function makes one value out of two. However the values are distributed
among workers, and however often these are interrupted, the number of calls is therefore what is
put in less what is left: one value for a reduction, one for each position that is hit for a
scatter. A scan folds its windows, then their last values, and then combines all windows but the
first with their carries.

## Main definitions
- `taken`: the positions that hits take.

## Main statements
- `length_foldCalls`, `length_hitCalls`, `length_mergeAllCalls`: one worker, and merging.
- `length_reduceCalls`, `length_scanSlicesCalls`, `ScatterJob.Ready.length_callsIn`: all workers.
- `View.calls_never_repeat`: the calls of a reduction, a scan and a scatter.
-/

namespace ForkJoin

variable {α : Type} (f : α → α → α)

/-! ## §1 Folds -/

/-- A fold calls its function for each value but the first. -/
theorem length_foldCalls (acc : Option α) (xs : List α) :
    (foldCalls f acc xs).length + (foldFrom f acc xs).toList.length =
      acc.toList.length + xs.length := by
  induction xs generalizing acc with
  | nil => simp [foldCalls]
  | cons x xs ih =>
    have hrest := ih (some (combine f acc x))
    rw [foldCalls, foldFrom_cons, List.length_append, List.length_map, List.length_cons]
    rw [Option.toList_some, List.length_singleton] at hrest
    omega

/-- What adds up for each of some parts adds up for all of them. -/
theorem length_flatMap_add {τ β γ δ : Type} {xs : List τ} {first : τ → List β}
    {second : τ → List γ} {whole : τ → List δ}
    (h : ∀ x ∈ xs, (first x).length + (second x).length = (whole x).length) :
    (xs.flatMap first).length + (xs.flatMap second).length = (xs.flatMap whole).length := by
  induction xs with
  | nil => rfl
  | cons x xs ih =>
    have hfirst := h x (List.mem_cons_self ..)
    have hrest := ih fun y hy => h y (List.mem_cons_of_mem _ hy)
    simp only [List.flatMap_cons, List.length_append]
    omega

/-- Folding windows on their own leaves one value for each that is not empty. -/
theorem length_windowCalls (windows : List (List α)) :
    (windows.flatMap (foldCalls f none)).length + (sliceFolds f windows).length =
      windows.flatten.length := by
  rw [← List.flatMap_id]
  exact length_flatMap_add fun xs _ => (length_foldCalls f none xs).trans (Nat.zero_add _)

/-- Folding these as well leaves one value. -/
theorem length_sliceFoldCalls {windows : List (List α)} (hne : windows.flatten ≠ []) :
    (foldCalls f none (sliceFolds f windows)).length + 1 = (sliceFolds f windows).length := by
  obtain ⟨value, hvalue⟩ := exists_foldFrom_eq_some f none (sliceFolds_ne_nil f hne)
  have hcalls := length_foldCalls f none (sliceFolds f windows)
  rw [hvalue] at hcalls
  simpa using hcalls

/-! ## §2 Reductions and scans -/

/-- A reduction of windows calls its function for each value but the first. -/
theorem length_reduceCalls {windows : List (List α)} (hne : windows.flatten ≠ []) :
    (windows.flatMap (foldCalls f none) ++ foldCalls f none (sliceFolds f windows)).length + 1 =
      windows.flatten.length := by
  have hwindows := length_windowCalls f windows
  have hfolds := length_sliceFoldCalls f hne
  rw [List.length_append]
  omega

/-- The last values of scanned windows are what the windows come to on their own. -/
theorem filterMap_getLast?_scanFrom (windows : List (List α)) :
    (windows.map (scanFrom f none)).filterMap (·.getLast?) = sliceFolds f windows := by
  rw [List.filterMap_map, List.filterMap_eq_flatMap_toList, sliceFolds]
  refine List.flatMap_congr fun xs _ => ?_
  rw [foldFrom_eq_getLast?, Option.or_none]
  rfl

/-- Windows that all have a carry are combined with it value by value. -/
theorem length_carryCalls (acc : α) (parts : List (List α)) :
    ((parts.zip (carriesFrom f (some acc) parts)).flatMap fun owned =>
      owned.2.toList.flatMap fun carry => owned.1.map (carry, ·)).length =
      parts.flatten.length := by
  induction parts generalizing acc with
  | nil => rfl
  | cons xs rest ih =>
    -- Once there is a carry, every later window has one.
    rw [carriesFrom, foldFrom_some, List.zip_cons_cons, List.flatMap_cons, List.length_append, ih]
    simp

/-- A scan of windows calls its function for each value but the first, and once more for each value
behind the first window. -/
theorem length_scanSlicesCalls {first : List α} (hne : first ≠ []) (rest : List (List α)) :
    (scanSlicesCalls f (first :: rest)).length + 1 + first.length =
      2 * (first :: rest).flatten.length := by
  have hflatten : (first :: rest).flatten ≠ [] := by simp [hne]
  have hreduce := length_reduceCalls f hflatten
  obtain ⟨last, hlast⟩ := exists_foldFrom_eq_some f none hne
  rw [foldFrom_eq_getLast?, Option.or_none] at hlast
  have hcarried := length_carryCalls f last (rest.map (scanFrom f none))
  have hscanned : (rest.map (scanFrom f none)).flatten.length = rest.flatten.length := by
    simp [List.length_flatten, Function.comp_def]
  rw [scanSlicesCalls, List.length_append, filterMap_getLast?_scanFrom]
  -- The first window has no carry, and the second one has its last value.
  simp only [List.map_cons, carriesFrom, hlast, Option.toList_some, foldFrom_cons, foldFrom_nil,
    combine_none, List.zip_cons_cons, List.flatMap_cons, Option.toList_none, List.flatMap_nil,
    List.nil_append, hcarried, hscanned]
  simp only [List.flatMap_cons, List.flatten_cons, List.length_append] at hreduce ⊢
  omega

theorem isParallel_of_attemptScan {setting : Setting} {plan : Plan} {cells : Array α}
    {attempt : ScanAttempt α} (h : attemptScan setting plan cells f = .ok attempt)
    (hpath : attempt.report.path = .parallel) : plan.isParallel = true := by
  by_contra hplan
  rw [attemptScan, if_neg hplan] at h
  cases h
  cases hpath

/-- A reduction on the parallel path calls its function for each element but the first. -/
theorem View.reduce_calls {source : View α} (hvalid : source.Valid) (setting : Setting) :
    ∃ run, source.reduce setting f = .ok run ∧ ∀ value report, run.result = .ok (value, report) →
      report.path = .parallel → run.calls.size + 1 = source.length := by
  by_cases hrank : source.rank = 1
  -- A view of another rank is rejected, so there is no report.
  swap
  · exact ⟨_, if_pos hrank, fun _ _ hresult => by cases hresult⟩
  cases hempty : source.isEmpty with
  | true =>
    exact ⟨_, View.reduce_of_isEmpty hvalid hrank hempty f setting,
      fun _ _ hresult => by cases hresult⟩
  | false =>
    obtain ⟨run, report, value, hrun, hends, -, hparallel⟩ :=
      View.reduce_returns f setting hvalid hrank hempty
    refine ⟨run, hrun, fun out reported hresult hpath => ?_⟩
    obtain ⟨rfl, rfl⟩ := Run.eq_of_check hends hresult
    have hcalls := (hparallel hpath).2 _ hresult
    -- The windows of the slices put together are all cells, and a fold over n of them takes n - 1 calls.
    have hflatten := flatten_sliceWindows source.toArray setting.workerCount
    have hne : source.toArray.toList ≠ [] := by
      rw [← isEmpty_toArray hvalid hrank] at hempty
      simpa using hempty
    rw [← Array.length_toList, hcalls, length_reduceCalls f (hflatten ▸ hne), hflatten,
      Array.length_toList, View.size_toArray_eq_length hvalid hrank]

/-- A scan on the parallel path calls its function for each element but the first, and once more for
each element behind the first slice. -/
theorem View.scan_calls {source : View α} (hvalid : source.Valid) (setting : Setting) :
    ∃ run, source.scan setting f = .ok run ∧ ∀ out report, run.result = .ok (out, report) →
      report.path = .parallel → ∃ slice,
        ((Partition.even (chunkCount source.length) setting.workerCount).toElements
          source.length).slices.head? = some slice ∧
        run.calls.size + 1 + slice.length = 2 * source.length := by
  by_cases hrank : source.rank = 1
  swap
  · exact ⟨_, if_pos hrank, fun _ _ hresult => by cases hresult⟩
  cases hempty : source.isEmpty with
  | true =>
    exact ⟨_, View.scan_of_isEmpty hrank hempty f setting, fun _ _ hresult => by cases hresult⟩
  | false =>
    obtain ⟨attempt, hattempt, hparallel⟩ := attemptScan_eq f setting hvalid hrank
    obtain ⟨run, hrun, hends, hcalls⟩ := concludeScan_eq f setting source.toArray attempt
    rw [← View.scan_eq_concludeScan f setting hvalid hrank hempty hattempt] at hrun
    refine ⟨run, hrun, fun out report hresult hpath => ?_⟩
    obtain ⟨-, rfl⟩ := Run.eq_of_check hends hresult
    have hsize := View.size_toArray_eq_length hvalid hrank
    have hworkers : 0 < setting.workerCount := Nat.le_max_right ..
    have hchunks := workerCount_le_chunkCount (isParallel_of_attemptScan f hattempt hpath)
    rw [← hsize] at hchunks ⊢
    -- The first window is that of the first slice.
    obtain ⟨first, rest, slice, hwindows, hne, hslice, hlength⟩ :=
      sliceWindows_eq_cons hworkers hchunks
    have hcount := length_scanSlicesCalls f hne rest
    have hflatten := flatten_sliceWindows source.toArray setting.workerCount
    rw [← hwindows, hflatten] at hcount
    refine ⟨slice, hslice, ?_⟩
    rw [hcalls hpath, ← Array.length_toList, (hparallel hpath).2, hlength, hcount,
      Array.length_toList]

/-! ## §3 Deposits -/

/-- The positions that hits take. -/
def taken (hits : List (Nat × α)) : Finset Nat :=
  (hits.map (·.1)).toFinset

theorem mem_taken {hits : List (Nat × α)} {p : Nat} : p ∈ taken hits ↔ p ∈ hits.map (·.1) :=
  List.mem_toFinset

theorem taken_append (first second : List (Nat × α)) :
    taken (first ++ second) = taken first ∪ taken second := by
  rw [taken, List.map_append, List.toFinset_append, taken, taken]

/-- Something is gathered at the positions that hits take, and nowhere else. -/
theorem isSome_gathered (conflict : Option (α → α → α)) (hits : List (Nat × α)) (p : Nat) :
    (gathered conflict hits p).isSome ↔ p ∈ taken hits := by
  rw [gathered, isSome_foldFrom_none, mem_taken, ← List.count_pos_iff, ← length_aimedAt,
    List.length_pos_iff]

/-- A deposit makes a call unless it takes a position. -/
theorem length_depositCalls (done : List (Nat × α)) (hit : Nat × α) :
    (depositCalls (some f) done hit).length + (taken (done ++ [hit])).card =
      (taken done).card + 1 := by
  have htaken : taken (done ++ [hit]) = insert hit.1 (taken done) := by
    rw [taken_append, Finset.union_comm]
    rfl
  have hsome := isSome_gathered (some f) done hit.1
  rw [htaken, depositCalls]
  -- A call is made exactly if the position is taken already.
  cases hslot : gathered (some f) done hit.1 with
  | none =>
    rw [hslot] at hsome
    have hfree : hit.1 ∉ taken done := fun hmem => by simpa using hsome.mpr hmem
    rw [Finset.card_insert_of_notMem hfree]
    simp
  | some existing =>
    rw [hslot] at hsome
    rw [Finset.insert_eq_of_mem (hsome.mp rfl)]
    simp [collideCalls, Nat.add_comm]

/-- Deposits make one call each, less one for each position that they take. -/
theorem length_hitCalls (done hits : List (Nat × α)) :
    (hitCalls (some f) done hits).length + (taken (done ++ hits)).card =
      (taken done).card + hits.length := by
  induction hits generalizing done with
  | nil => simp [hitCalls]
  | cons hit rest ih =>
    have hfirst := length_depositCalls f done hit
    have hrest := ih (done ++ [hit])
    rw [List.append_assoc, List.singleton_append] at hrest
    rw [hitCalls, List.length_append, List.length_cons]
    omega

theorem length_allHitCalls (hits : List (Nat × α)) :
    (hitCalls (some f) [] hits).length + (taken hits).card = hits.length := by
  have hcalls := length_hitCalls f [] hits
  have hempty : (taken ([] : List (Nat × α))).card = 0 := rfl
  rwa [List.nil_append, hempty, Nat.zero_add] at hcalls

/-- Hits in two windows that follow each other are those in both together. -/
theorem hitsIn_perm {start middle stop : Nat} (hle : start ≤ middle) (hle' : middle ≤ stop)
    (hits : List (Nat × α)) :
    (hitsIn ⟨start, middle⟩ hits ++ hitsIn ⟨middle, stop⟩ hits).Perm
      (hitsIn ⟨start, stop⟩ hits) := by
  -- Both parts are filters of the hits of the whole span, by the place where it is cut.
  have hsplit := List.filter_append_perm (fun hit : Nat × α => decide (hit.1 < middle))
    (hitsIn ⟨start, stop⟩ hits)
  have hfirst : hitsIn ⟨start, middle⟩ hits =
      (hitsIn ⟨start, stop⟩ hits).filter fun hit => decide (hit.1 < middle) := by
    rw [hitsIn, hitsIn, List.filter_filter]
    refine List.filter_congr fun hit _ => ?_
    rw [Bool.eq_iff_iff]
    simp only [Span.contains, Bool.and_eq_true, decide_eq_true_eq]
    omega
  have hsecond : hitsIn ⟨middle, stop⟩ hits =
      (hitsIn ⟨start, stop⟩ hits).filter fun hit => !decide (hit.1 < middle) := by
    rw [hitsIn, hitsIn, List.filter_filter]
    refine List.filter_congr fun hit _ => ?_
    rw [Bool.eq_iff_iff]
    simp only [Span.contains, Bool.and_eq_true, decide_eq_true_eq, Bool.not_eq_true',
      decide_eq_false_iff_not]
    omega
  rwa [← hfirst, ← hsecond] at hsplit

theorem taken_perm {first second : List (Nat × α)} (h : first.Perm second) :
    taken first = taken second :=
  List.toFinset_eq_of_perm _ _ (h.map _)

/-- Hits in different windows take different positions. -/
theorem disjoint_taken (start middle stop : Nat) (hits : List (Nat × α)) :
    Disjoint (taken (hitsIn ⟨start, middle⟩ hits)) (taken (hitsIn ⟨middle, stop⟩ hits)) := by
  refine Finset.disjoint_left.mpr fun p hfirst hsecond => ?_
  obtain ⟨hit, hhit, rfl⟩ := List.mem_map.mp (mem_taken.mp hfirst)
  obtain ⟨other, hother, heq⟩ := List.mem_map.mp (mem_taken.mp hsecond)
  have hlt : hit.1 < middle := (Span.contains_iff.mp (List.mem_filter.mp hhit).2).2
  have hle : middle ≤ other.1 := (Span.contains_iff.mp (List.mem_filter.mp hother).2).1
  omega

/-- Workers who own windows of the output make as many calls as one who owns all of it. -/
theorem length_windowHitCalls {start stop : Nat} {spans : List Span} (h : Tiling start stop spans)
    (hits : List (Nat × α)) :
    (spans.flatMap fun span => hitCalls (some f) [] (hitsIn span hits)).length +
      (taken (hitsIn ⟨start, stop⟩ hits)).card = (hitsIn ⟨start, stop⟩ hits).length := by
  -- By induction on the spans. The positions taken in one are none of those taken in the others.
  induction h with
  | nil start =>
    have hnone : hitsIn ⟨start, start⟩ hits = [] := by
      refine List.filter_eq_nil_iff.mpr fun hit _ hin => ?_
      obtain ⟨hle, hlt⟩ := Span.contains_iff.mp hin
      exact Nat.lt_irrefl _ (Nat.lt_of_lt_of_le hlt hle)
    simp [hnone, taken]
  | @cons start middle stop rest hle hrest ih =>
    have hfirst := length_allHitCalls f (hitsIn ⟨start, middle⟩ hits)
    have hperm := hitsIn_perm hle hrest.le hits
    have hcard := Finset.card_union_of_disjoint (disjoint_taken start middle stop hits)
    have hlength := hperm.length_eq
    rw [← taken_append, taken_perm hperm] at hcard
    rw [List.length_append] at hlength
    rw [List.flatMap_cons, List.length_append]
    omega

/-! ## §4 Merging -/

/-- As many slots of an output are filled as there are positions to fill. -/
theorem length_filledSlots {slot : Nat → Option α} {span : Span} {filled : Finset Nat}
    (hfilled : ∀ p, (slot p).isSome ↔ p ∈ filled) (hin : ∀ p ∈ filled, span.contains p = true) :
    (span.positions.flatMap fun p => (slot p).toList).length = filled.card := by
  -- A slot contributes a value exactly if its position is filled.
  have hfilter : (span.positions.flatMap fun p => (slot p).toList).length =
      (span.positions.filter fun p => decide (p ∈ filled)).length := by
    induction span.positions with
    | nil => rfl
    | cons p rest ih =>
      have hp := hfilled p
      rw [List.flatMap_cons, List.length_append, ih, List.filter_cons]
      cases hslot : slot p with
      | none =>
        rw [hslot] at hp
        simp [← hp]
      | some value =>
        rw [hslot] at hp
        simp [← hp, Nat.add_comm]
  have hset : (span.positions.filter fun p => decide (p ∈ filled)).toFinset = filled := by
    ext p
    rw [List.mem_toFinset, List.mem_filter, decide_eq_true_eq, and_iff_right_iff_imp]
    exact fun hmem => Span.mem_positions.mpr (Span.contains_iff.mp (hin p hmem))
  -- No position of the span is counted twice.
  have hnodup : (span.positions.filter fun p => decide (p ∈ filled)).Nodup :=
    (List.nodup_range' ..).filter _
  rw [hfilter, ← List.toFinset_card_of_nodup hnodup, hset]

/-- Merging makes a call at each position that both outputs fill. -/
theorem length_mergeCalls (slot value : Option α) :
    (PrivateOutput.mergeCalls (some f) slot value).length +
      (foldFrom (collided (some f)) slot value.toList).toList.length =
      (slot.toList ++ value.toList).length := by
  cases slot <;> cases value <;> simp [PrivateOutput.mergeCalls, collideCalls]

/-- Merging outputs calls for each slot that is filled, less one for each position. -/
theorem length_mergeAllCalls (span : Span) (slots : Nat → Option α)
    (outputs : List (Nat → Option α)) :
    (PrivateOutput.mergeAllCalls (some f) span slots outputs).length +
      (span.positions.flatMap fun p =>
        (PrivateOutput.mergedAt (some f) (slots p) outputs p).toList).length =
      (span.positions.flatMap fun p => (slots p).toList).length +
        (outputs.flatMap fun output => span.positions.flatMap fun p => (output p).toList).length := by
  induction outputs generalizing slots with
  | nil => simp [PrivateOutput.mergeAllCalls, PrivateOutput.mergedAt]
  | cons output rest ih =>
    have hrest := ih fun p => foldFrom (collided (some f)) (slots p) (output p).toList
    -- What the first output adds, position by position.
    have hfirst := length_flatMap_add fun p (_ : p ∈ span.positions) =>
      length_mergeCalls f (slots p) (output p)
    have hboth : (span.positions.flatMap fun p => (slots p).toList).length +
        (span.positions.flatMap fun p => (output p).toList).length =
        (span.positions.flatMap fun p => (slots p).toList ++ (output p).toList).length :=
      length_flatMap_add fun _ _ => List.length_append.symm
    simp only [PrivateOutput.mergedAt, List.flatMap_cons, foldFrom_append] at hrest ⊢
    rw [PrivateOutput.mergeAllCalls, List.length_append, List.length_append]
    omega

/-- Merging what workers gather fills the positions that all hits take. -/
theorem isSome_mergedAt (conflict : Option (α → α → α)) (parts : List (List (Nat × α))) (p : Nat) :
    (PrivateOutput.mergedAt conflict none (parts.map (gathered conflict)) p).isSome ↔
      p ∈ taken parts.flatten := by
  have htaken : p ∈ taken parts.flatten ↔ ∃ hits ∈ parts, (gathered conflict hits p).isSome := by
    simp only [isSome_gathered, mem_taken, List.mem_map, List.mem_flatten]
    grind
  rw [htaken, PrivateOutput.mergedAt, isSome_foldFrom_none, List.flatMap_map, ne_eq,
    List.flatMap_eq_nil_iff]
  simp [Option.isSome_iff_ne_none]

/-! ## §5 Scatters -/

namespace ScatterJob

variable {job : ScatterJob α} {f}

/-- Workers who own targets, and merging their outputs, make as many calls as one worker does. -/
theorem Ready.length_mergedCalls (h : job.Ready) (hconflict : job.conflict = some f)
    (count : Nat) :
    (job.mergedCalls count).length + (taken job.hits.toList).card = job.hits.toList.length := by
  have hflatten := flatten_sliceWindows job.hits count
  have hin : ∀ hits : List (Nat × α), hits ⊆ job.hits.toList → ∀ p ∈ taken hits,
      (Span.mk 0 job.length).contains p = true := by
    intro hits hsub p hp
    obtain ⟨hit, hmem, rfl⟩ := List.mem_map.mp (mem_taken.mp hp)
    exact Span.contains_iff.mpr ⟨Nat.zero_le _, h.hit_lt (hsub hmem)⟩
  -- Each worker leaves a value for each position that its hits take.
  have hworkers : ((sliceWindows job.hits count).flatMap (hitCalls (some f) [])).length +
      ((sliceWindows job.hits count).flatMap fun hits =>
        (Span.mk 0 job.length).positions.flatMap fun p =>
          (gathered (some f) hits p).toList).length =
      ((sliceWindows job.hits count).flatMap id).length := by
    refine length_flatMap_add fun hits hmem => ?_
    have hsub : hits ⊆ job.hits.toList := by
      rw [← hflatten]
      exact fun hit hhit => List.mem_flatten.mpr ⟨hits, hmem, hhit⟩
    rw [length_filledSlots (isSome_gathered (some f) hits) (hin hits hsub), length_allHitCalls]
    rfl
  -- Merging leaves one for each position that any hits take.
  have hmerged := length_mergeAllCalls f ⟨0, job.length⟩ (fun _ => none) (job.sliceOutputs count)
  have hfilled := length_filledSlots (isSome_mergedAt (some f) (sliceWindows job.hits count))
    (hin _ (by rw [hflatten]; exact List.Subset.refl _))
  rw [hflatten] at hfilled
  rw [sliceOutputs, hconflict, hfilled, List.flatMap_map] at hmerged
  rw [List.flatMap_id, hflatten] at hworkers
  have hblank : ((Span.mk 0 job.length).positions.flatMap fun _ => (none : Option α).toList).length =
      0 := by simp
  rw [mergedCalls, sliceOutputs, hconflict, List.length_append]
  omega

/-- Whichever way a job runs, it makes a call for each hit, less one for each position that the hits
take. -/
theorem Ready.length_callsIn (h : job.Ready) (hconflict : job.conflict = some f)
    (setting : Setting) :
    (job.callsIn setting).length + (taken job.hits.toList).card = job.hits.toList.length := by
  rw [callsIn]
  split
  · cases job.strategy setting.config with
    | divideOutputRange =>
      have hcalls := length_windowHitCalls f
        (tiling_evenSpans job.length setting.workerCount) job.hits.toList
      -- No hit is outside the output.
      have hall : hitsIn ⟨0, job.length⟩ job.hits.toList = job.hits.toList :=
        List.filter_eq_self.mpr fun hit hmem =>
          Span.contains_iff.mpr ⟨Nat.zero_le _, h.hit_lt hmem⟩
      rw [hall] at hcalls
      rw [callsOf, hconflict, hcalls]
    | divideScatterVector => exact h.length_mergedCalls hconflict _
  · rw [hconflict, length_allHitCalls]

end ScatterJob

/-- A scatter that may run sequentially calls its function for each target, less one for each
position that the targets stand for. -/
theorem View.scatter_calls {source : View α} (hvalid : source.Valid) (targets : Array Target)
    (default : α) (length : Nat) (setting : Setting)
    (hsequential : setting.config.sequential = true) :
    ∃ run, source.scatter setting targets default length (some f) = .ok run ∧
      ∀ out report, run.result = .ok (out, report) → ∃ positions,
        resolveTargets length 0 (targets.toList.take (min targets.size source.length)) =
          .ok positions ∧
        run.calls.size + positions.toFinset.card = positions.length := by
  rcases View.scatter_rejected_or_accepts hvalid targets default length (some f) with
    ⟨cause, hrejected⟩ | ⟨hrank, positions, haccepts⟩
  · exact ⟨_, hrejected setting, fun _ _ hresult => by cases hresult⟩
  have hready := View.scatterJob_ready hvalid hrank haccepts
  obtain ⟨report, hruns⟩ := hready.run_ends setting default
  obtain ⟨run, hrun, -, hcalls⟩ := hruns setting.config.sequential
  rw [Setting.permit_self] at hrun hcalls
  have hreleased : setting.withholds report = false := by simp [Setting.withholds, hsequential]
  refine ⟨run, by rw [View.scatter_eq setting default hvalid hrank haccepts, hrun], ?_⟩
  intro out reported hresult
  refine ⟨positions, haccepts.resolved, ?_⟩
  have hhits := View.map_fst_hits_scatterJob hvalid hrank haccepts
  -- The sequential path is taken as well, so that all hits are deposited whatever the report is.
  have hcount := hready.length_callsIn rfl setting
  rw [taken, hhits, ← hcalls _ hresult hreleased, Array.length_toList] at hcount
  rw [hcount, ← List.length_map (·.1), hhits]

/-- **No call is repeated**, whatever the host answers, however many workers there are and whichever
function is called. A reduction that takes the parallel path makes one call less than it has
elements. A scan that does so makes one for each element but the first, and one more for each that is
not in the first slice. A scatter with a conflict function that may run sequentially makes as many
as it has targets, less one for each position that they stand for, on every path and with either
strategy. -/
theorem View.calls_never_repeat (setting : Setting) :
    (∀ {α : Type} (source : View α) (f : α → α → α), source.Valid →
      ∃ run, source.reduce setting f = .ok run ∧
        ∀ value report, run.result = .ok (value, report) → report.path = .parallel →
          run.calls.size + 1 = source.length) ∧
    (∀ {α : Type} (source : View α) (f : α → α → α), source.Valid →
      ∃ run, source.scan setting f = .ok run ∧
        ∀ out report, run.result = .ok (out, report) → report.path = .parallel → ∃ slice,
          ((Partition.even (chunkCount source.length) setting.workerCount).toElements
            source.length).slices.head? = some slice ∧
          run.calls.size + 1 + slice.length = 2 * source.length) ∧
    (∀ {α : Type} (source : View α) (targets : Array Target) (default : α) (length : Nat)
      (f : α → α → α), source.Valid → setting.config.sequential = true →
      ∃ run, source.scatter setting targets default length (some f) = .ok run ∧
        ∀ out report, run.result = .ok (out, report) → ∃ positions,
          resolveTargets length 0 (targets.toList.take (min targets.size source.length)) =
            .ok positions ∧
          run.calls.size + positions.toFinset.card = positions.length) := by
  refine ⟨?reduce, ?scan, ?scatter⟩
  case reduce => exact fun source f hvalid => View.reduce_calls f hvalid setting
  case scan => exact fun source f hvalid => View.scan_calls f hvalid setting
  case scatter =>
    intro α source targets default length f hvalid hsequential
    exact View.scatter_calls f hvalid targets default length setting hsequential

/-- Sixty-five numbers are reduced by a worker who is stopped once, scanned by two of whom one is
stopped in either phase, and scattered to one position by two that bail out of every attempt. -/
theorem View.calls_never_repeat_interrupted :
    let source := View.ofArray 0 (Array.range 65)
    (∃ run value, source.reduce
        { host := (BailSchedule.once 0 2).host, config := Config.withWorkers {} 1 } (· - ·) =
          .ok run ∧
      run.result = .ok (value, ⟨.reduce, .parallel, 1, .eligible⟩) ∧ run.calls.size = 64) ∧
    (∃ run out, source.scan
        { host := (BailSchedule.once 1 2).host, config := Config.withWorkers {} 2 } (· - ·) =
          .ok run ∧
      run.result = .ok (out, ⟨.scan, .parallel, 1, .eligible⟩) ∧ run.calls.size = 97) ∧
    (∃ run out, source.scatter
        { host := BailSchedule.always.host
          config := (Config.withWorkers {} 2).withStrategy .divideScatterVector }
        (Array.replicate 65 (.unsigned 1)) 0 4 (some (· - ·)) = .ok run ∧
      run.result = .ok (out, ⟨.scatter, .parallel, 1, .forcedByStrategy⟩) ∧
      run.calls.size = 64) := by
  intro source
  have hvalid : source.Valid := ⟨rfl, by decide⟩
  refine ⟨?reduce, ?scan, ?scatter⟩
  case reduce =>
    obtain ⟨run, value, hrun, hvalue⟩ := Run.exists_result (x := source.reduce
      { host := (BailSchedule.once 0 2).host, config := Config.withWorkers {} 1 } (· - ·))
      ⟨.reduce, .parallel, 1, .eligible⟩ (by decide +kernel)
    obtain ⟨same, hsame, hcalls⟩ := (View.calls_never_repeat
      { host := (BailSchedule.once 0 2).host, config := Config.withWorkers {} 1 }).1
        source (· - ·) hvalid
    obtain rfl : run = same := Except.ok.inj (hrun.symm.trans hsame)
    exact ⟨run, value, hrun, hvalue, Nat.succ.inj (hcalls value _ hvalue rfl)⟩
  case scan =>
    obtain ⟨run, out, hrun, hout⟩ := Run.exists_result (x := source.scan
      { host := (BailSchedule.once 1 2).host, config := Config.withWorkers {} 2 } (· - ·))
      ⟨.scan, .parallel, 1, .eligible⟩ (by decide +kernel)
    obtain ⟨same, hsame, hcalls⟩ := (View.calls_never_repeat
      { host := (BailSchedule.once 1 2).host, config := Config.withWorkers {} 2 }).2.1
        source (· - ·) hvalid
    obtain rfl : run = same := Except.ok.inj (hrun.symm.trans hsame)
    obtain ⟨slice, hslice, hcount⟩ := hcalls out _ hout rfl
    -- The first slice holds one chunk.
    have hfirst : ((Partition.even (chunkCount 65) 2).toElements 65).slices.head? =
      some ⟨⟨0, 32⟩, 0⟩ := by decide
    obtain rfl := Option.some.inj (hslice.symm.trans hfirst)
    exact ⟨run, out, hrun, hout, Nat.add_right_cancel (m := 33) hcount⟩
  case scatter =>
    obtain ⟨run, out, hrun, hout⟩ := Run.exists_result (x := source.scatter
      { host := BailSchedule.always.host
        config := (Config.withWorkers {} 2).withStrategy .divideScatterVector }
      (Array.replicate 65 (.unsigned 1)) 0 4 (some (· - ·)))
      ⟨.scatter, .parallel, 1, .forcedByStrategy⟩ (by decide +kernel)
    obtain ⟨same, hsame, hcalls⟩ := (View.calls_never_repeat
      { host := BailSchedule.always.host
        config := (Config.withWorkers {} 2).withStrategy .divideScatterVector }).2.2
        source (Array.replicate 65 (.unsigned 1)) 0 4 (· - ·) hvalid rfl
    obtain rfl : run = same := Except.ok.inj (hrun.symm.trans hsame)
    obtain ⟨positions, hresolved, hcount⟩ := hcalls out _ hout
    -- All targets stand for one position.
    obtain rfl : List.replicate 65 1 = positions := Except.ok.inj hresolved
    exact ⟨run, out, hrun, hout, Nat.add_right_cancel (m := 1) hcount⟩

end ForkJoin
