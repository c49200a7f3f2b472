import ForkJoin.Operation.Scan
import ForkJoin.Proofs.Fold
import ForkJoin.Proofs.Resumption
import ForkJoin.Proofs.Runs
import ForkJoin.Proofs.Tiling
import ForkJoin.Proofs.Views

/-!
# The scan

A scan runs in two phases. In the first one every worker scans its window on its own; the last
values of the windows are then folded to carries, and in the second phase every worker combines
its window with its carry. When either phase falls back, the source is scanned anew. For an
associative function all of this leads to the scan of the source, whatever the host answers.

## Main definitions
- `scanSlices`: windows scanned on their own and then combined with their carries.
- `ScanAttempt.Staged`: what both phases of the parallel attempt are started on, and what they
  leave.
- `IsScan`: the recurrence of an inclusive scan.

## Main statements
- `scanKernel_workAll`, `carryKernel_workAll_returns`: what the kernels make of whole windows.
- `scanSlices_eq_scanFrom`: where the function is associative, windows do not matter.
- `getLast?_scanSlices`: the last value, whatever the function.
- `scanInParallel_staged`, `concludeScan_eq`: the attempt, and what follows it.
- `View.scan_eq`: the result of a scan, whatever the function.
- `View.scan_recurrence`: the scan of an associative function, on every path.
-/

namespace ForkJoin

variable {α : Type} (f : α → α → α)

/-! ## §1 Scanning a window -/

/-- One position of a window of which everything in front is scanned. -/
theorem scanPosition_returns (base : Nat) (done rest : List α) (x : α) :
    (scanPosition f base (scanFrom f none done ++ x :: rest).toArray (base + done.length)).Returns
      (scanFrom f none (done ++ [x]) ++ rest).toArray
      ((foldFrom f none done).toList.map (·, x)) := by
  have hsub : Fault.checkedSub (base + done.length) base = .ok done.length := by
    simp [Fault.checkedSub]
  have hlength := length_scanFrom f none done
  rw [scanFrom_append, foldFrom_eq_getLast?]
  generalize scanFrom f none done = scanned at hlength ⊢
  rcases List.eq_nil_or_concat' scanned with rfl | ⟨before, last, rfl⟩
  · -- The first position of the window stays as it is.
    obtain rfl := List.length_eq_zero_iff.mp hlength.symm
    exact .silent_bind (.lift hsub) (.pure _)
  · -- Any other one is combined with the last scanned value.
    have hlast : done.length - 1 = before.length := by
      simp at hlength
      omega
    have hne : done.length ≠ 0 := by
      simp at hlength
      omega
    have hbefore : (before ++ [last]).getLast?.or none = some last := by simp
    rw [hbefore]
    refine .silent_bind (.lift hsub) ?_
    rw [if_neg hne]
    refine .silent_bind (a := last) (.lift ?_) (.silent_bind (a := x) (.lift ?_) ?_)
    · simp [Fault.checkedGet, hlast]
    · simp [Fault.checkedGet, ← hlength]
    · refine .bind_silent (.call _ (last, x)) (.lift ?_)
      simp [Fault.checkedSet, ← hlength, scanFrom]

/-- The positions from anywhere to the end of a window, in order. -/
theorem scanCells_returns (base : Nat) (done rest : List α) :
    (scanCells f base (List.range' (base + done.length) rest.length)
      (scanFrom f none done ++ rest).toArray).Returns
      (scanFrom f none (done ++ rest)).toArray (foldCalls f (foldFrom f none done) rest) := by
  induction rest generalizing done with
  | nil => simpa [scanCells, foldCalls] using Calling.Returns.pure _
  | cons x rest ih =>
    -- The invariant of the loop: what is done is scanned, the rest is as in the source.
    have hnext := ih (done ++ [x])
    rw [foldFrom_append, List.length_append, List.append_assoc] at hnext
    exact .foldlM_cons (scanPosition_returns f base done rest x) hnext

/-- A whole window. -/
theorem scanCells_window_returns (base : Nat) (cells : Array α) :
    (scanCells f base (List.range' base cells.size) cells).Returns
      (scanFrom f none cells.toList).toArray (foldCalls f none cells.toList) :=
  scanCells_returns f base [] cells.toList

/-- The kernel scans the elements of some chunks as if there were no chunks. -/
theorem scanKernel_workAll (length base : Nat) (chunks : List Nat) (cells : Array α) :
    (scanKernel length f).workAll chunks ⟨base, cells⟩ = ScanWindow.mk base <$>
      scanCells f base (chunks.flatMap fun chunk => (Span.ofChunk chunk length).positions) cells := by
  -- By induction on the chunks; the loops over their positions follow each other.
  induction chunks generalizing cells with
  | nil => simp [Kernel.workAll, scanCells]
  | cons chunk chunks ih =>
    have hwork : (scanKernel length f).work chunk ⟨base, cells⟩ = ScanWindow.mk base <$>
        scanCells f base (Span.ofChunk chunk length).positions cells := rfl
    rw [Kernel.workAll_cons, hwork, bind_map_left, List.flatMap_cons]
    simp only [ih]
    rw [← map_bind, scanCells, scanCells, List.foldlM_append]
    rfl

/-! ## §2 Carries -/

/-- What each window has to be combined with: the fold of the last values of those before it. -/
def carriesFrom : Option α → List (List α) → List (Option α)
  | _, [] => []
  | running, xs :: rest =>
    running :: carriesFrom (foldFrom f running xs.getLast?.toList) rest

theorem carries_returns (running : Option α) (parts : List (Array α)) :
    (carries f running parts).Returns (carriesFrom f running (parts.map (·.toList)))
      (foldCalls f running (parts.filterMap (·.back?))) := by
  induction parts generalizing running with
  | nil => exact .pure _
  | cons cells rest ih =>
    rw [carries, List.map_cons, carriesFrom, Array.getLast?_toList]
    cases hlast : cells.back? with
    | none =>
      -- An empty window leaves the carry as it is.
      rw [List.filterMap_cons_none hlast]
      exact .silent_bind (.pure _) (.map (running :: ·) (ih running))
    | some last =>
      rw [List.filterMap_cons_some hlast]
      exact .bind (foldStep_returns f running last) (.map (running :: ·) (ih _))

theorem filterMap_back? (parts : List (Array α)) :
    parts.filterMap (·.back?) = (parts.map (·.toList)).filterMap (·.getLast?) := by
  simp [List.filterMap_map]

/-- The values of windows that are scanned on their own and then combined with their carries. -/
def scanSlices (windows : List (List α)) : List α :=
  let scanned := windows.map (scanFrom f none)
  (scanned.zip (carriesFrom f none scanned)).flatMap fun (xs, carry) => xs.map (combine f carry)

/-- The calls that this takes: those of scanning each window, those of the carries, and one for each
value of a window with a carry. -/
def scanSlicesCalls (windows : List (List α)) : List (α × α) :=
  let scanned := windows.map (scanFrom f none)
  windows.flatMap (foldCalls f none) ++ foldCalls f none (scanned.filterMap (·.getLast?)) ++
    (scanned.zip (carriesFrom f none scanned)).flatMap fun owned =>
      owned.2.toList.flatMap fun carry => owned.1.map (carry, ·)

/-- With an associative function that is the scan of all values. -/
theorem scanSlices_eq_scanFrom (hassoc : ∀ a b c, f (f a b) c = f a (f b c))
    (windows : List (List α)) : scanSlices f windows = scanFrom f none windows.flatten := by
  -- By induction on the windows, from any carry.
  suffices h : ∀ running : Option α, ((windows.map (scanFrom f none)).zip
      (carriesFrom f running (windows.map (scanFrom f none)))).flatMap
        (fun (xs, carry) => xs.map (combine f carry)) =
      scanFrom f running windows.flatten from h none
  induction windows with
  | nil => intro running; rfl
  | cons xs rest ih =>
    intro running
    -- The carry of the next window is the fold of everything up to it.
    have hnext : foldFrom f running (scanFrom f none xs).getLast?.toList =
        foldFrom f running xs := by
      have hlast := foldFrom_eq_getLast? f none xs
      rw [Option.or_none] at hlast
      rw [← hlast, foldFrom_foldFrom f hassoc]
    simp only [List.map_cons, carriesFrom, List.zip_cons_cons, List.flatMap_cons, hnext, ih]
    rw [map_combine_scanFrom f hassoc, List.flatten_cons, scanFrom_append]

/-- There are as many values as in the windows, whatever the function. -/
theorem length_scanSlices (windows : List (List α)) :
    (scanSlices f windows).length = windows.flatten.length := by
  -- By induction on the windows, from any carry.
  suffices h : ∀ running : Option α, (((windows.map (scanFrom f none)).zip
      (carriesFrom f running (windows.map (scanFrom f none)))).flatMap
        (fun (xs, carry) => xs.map (combine f carry))).length = windows.flatten.length from h none
  induction windows with
  | nil => intro running; rfl
  | cons xs rest ih =>
    intro running
    simp only [List.map_cons, carriesFrom, List.zip_cons_cons, List.flatMap_cons,
      List.length_append, List.length_map, length_scanFrom, List.flatten_cons, ih]

/-- The last value is the fold of what the windows come to on their own, whatever the function. -/
theorem getLast?_scanSlices (windows : List (List α)) :
    (scanSlices f windows).getLast? =
      foldFrom f none (windows.flatMap fun xs => (foldFrom f none xs).toList) := by
  -- By induction on the windows, from any carry, which is the last value as long as there is none.
  suffices h : ∀ running : Option α, (((windows.map (scanFrom f none)).zip
      (carriesFrom f running (windows.map (scanFrom f none)))).flatMap
        (fun (xs, carry) => xs.map (combine f carry))).getLast?.or running =
      foldFrom f running (windows.flatMap fun xs => (foldFrom f none xs).toList) by
    have hnone := h none
    rwa [Option.or_none] at hnone
  induction windows with
  | nil => intro running; rfl
  | cons xs rest ih =>
    intro running
    have hfold := foldFrom_eq_getLast? f none xs
    rw [Option.or_none] at hfold
    -- The carry of the next window is the last value up to it.
    have hcarry : ((scanFrom f none xs).map (combine f running)).getLast?.or running =
        foldFrom f running (foldFrom f none xs).toList := by
      rw [hfold, List.getLast?_map]
      cases (scanFrom f none xs).getLast? with
      | none => rfl
      | some last => rfl
    have hrest := ih (foldFrom f running (foldFrom f none xs).toList)
    simp only [List.map_cons, carriesFrom, List.zip_cons_cons, List.flatMap_cons,
      List.getLast?_append, Option.or_assoc, hcarry, foldFrom_append, ← hfold]
    exact hrest

/-! ## §3 Combining a window with its carry -/

theorem carryKernel_work_returns (base : Nat) (carry x : α) (done rest : List α) :
    ((carryKernel f).work (base + done.length)
      ⟨base, some carry, (done ++ x :: rest).toArray⟩).Returns
      ⟨base, some carry, (done ++ f carry x :: rest).toArray⟩ [(carry, x)] := by
  have hsub : Fault.checkedSub (base + done.length) base = .ok done.length := by
    simp [Fault.checkedSub]
  refine .silent_bind (.lift hsub) (.silent_bind (a := x) (.lift ?_) ?_)
  · simp [Fault.checkedGet]
  · refine .bind_silent (.call _ (carry, x)) ?_
    refine .silent_bind (a := (done ++ f carry x :: rest).toArray) (.lift ?_) (.pure _)
    simp [Fault.checkedSet]

/-- The positions from anywhere to the end of a window, in order. -/
theorem carryKernel_workAll_returns (base : Nat) (carry : α) (done rest : List α) :
    ((carryKernel f).workAll (List.range' (base + done.length) rest.length)
      ⟨base, some carry, (done ++ rest).toArray⟩).Returns
      ⟨base, some carry, (done ++ rest.map (f carry)).toArray⟩ (rest.map (carry, ·)) := by
  induction rest generalizing done with
  | nil => exact .pure _
  | cons x rest ih =>
    -- Here what is done is combined with the carry, and the rest is not.
    have hnext := ih (done ++ [f carry x])
    rw [List.length_append, List.append_assoc, List.append_assoc] at hnext
    exact .foldlM_cons (carryKernel_work_returns f base carry x done rest) hnext

/-! ## §4 Both phases -/

/-- The first phase: a worker scans the elements of its chunks. -/
def scanTask (cells : Array α) (chunks : Span) : Task (α × α) (ScanWindow α) :=
  let span := Span.ofChunks chunks cells.size
  let window := cells.extract span.start span.stop
  { slice := .ofSpan chunks
    state := ⟨span.start, window⟩
    final := ⟨span.start, (scanFrom f none window.toList).toArray⟩
    calls := foldCalls f none window.toList }

theorem scanTask_sound (cells : Array α) {chunks : Span} (hle : chunks.start ≤ chunks.stop) :
    (scanTask f cells chunks).Sound (scanKernel cells.size f) where
  pos_le := hle
  work := by
    have hremaining : (Slice.ofSpan chunks).remaining = chunks.positions := rfl
    -- The positions of the chunks are those of the window, in order.
    have hpositions : (Span.ofChunks chunks cells.size).positions =
        List.range' (Span.ofChunks chunks cells.size).start
          (cells.extract (Span.ofChunks chunks cells.size).start
            (Span.ofChunks chunks cells.size).stop).size := by
      simp [Span.positions, Span.length, Span.ofChunks]
    simp only [scanTask, hremaining, scanKernel_workAll, flatMap_positions_ofChunk, hpositions]
    exact .map _ (scanCells_window_returns f _ _)

/-- The second phase: a worker combines its cells with its carry. -/
def carryTask (span : Span) (carry : Option α) (cells : Array α) :
    Task (α × α) (CarryWindow α) :=
  let share := carryShare (.ofSpan span) carry cells
  { slice := share.1
    state := share.2
    final := ⟨span.start, carry, (cells.toList.map (combine f carry)).toArray⟩
    calls := carry.toList.flatMap fun carry => cells.toList.map (carry, ·) }

theorem carryTask_sound {span : Span} (carry : Option α) {cells : Array α}
    (hle : span.start ≤ span.stop) (hsize : cells.size = span.length) :
    (carryTask f span carry cells).Sound (carryKernel f) := by
  cases carry with
  | none =>
    -- Without a carry the slice counts as finished, and the cells stay as they are.
    refine ⟨Nat.le_refl _, ?_⟩
    have hcells : cells.toList.map (combine f none) = cells.toList := List.map_id _
    simp only [carryTask, carryShare, hcells]
    simpa [Slice.remaining, Slice.exhaust, Slice.ofSpan, Kernel.workAll] using
      Calling.Returns.pure _
  | some carry =>
    -- With a carry the slice is walked from its first element to its last one.
    refine ⟨hle, ?_⟩
    have hlength : cells.toList.length = span.length := by simpa using hsize
    have h := carryKernel_workAll_returns f span.start carry [] cells.toList
    have hcombine : combine f (some carry) = f carry := rfl
    rw [hlength] at h
    simpa [hcombine, carryTask, carryShare, Slice.remaining, Slice.ofSpan, Span.length] using h

/-- What a worker leaves after the first phase. -/
def scannedWindow (cells : Array α) (span : Span) : Array α :=
  (scanFrom f none (cells.extract span.start span.stop).toList).toArray

theorem size_scannedWindow {cells : Array α} {span : Span} (hstop : span.stop ≤ cells.size) :
    (scannedWindow f cells span).size = span.length := by
  simp only [scannedWindow, List.size_toArray, length_scanFrom, Array.length_toList,
    Array.size_extract, Span.length]
  omega

/-- The windows after the first phase are scanned on their own. -/
theorem map_toList_scannedWindow (cells : Array α) (spans : List Span) :
    (spans.map (scannedWindow f cells)).map (·.toList) =
      (spans.map fun span => (cells.extract span.start span.stop).toList).map
        (scanFrom f none) := by
  simp [scannedWindow]

/-- The first phase is started on the windows of the workers. -/
theorem scanTasks_shares (cells : Array α) (chunks : List Span) :
    (((chunks.map Slice.ofSpan).zip ((chunks.map (Span.ofChunks · cells.size)).map
        fun span => cells.extract span.start span.stop)).map fun owned =>
          (owned.1, ScanWindow.mk (Span.ofChunks owned.1.toSpan cells.size).start owned.2)) =
      (chunks.map (scanTask f cells)).map Task.share := by
  simp [List.zip_map', scanTask, Task.share, Slice.ofSpan]

theorem scanTasks_windows (cells : Array α) (chunks : List Span) :
    ((chunks.map (scanTask f cells)).map (·.final)).map (·.cells) =
      (chunks.map (Span.ofChunks · cells.size)).map (scannedWindow f cells) := by
  simp [scanTask, scannedWindow]

theorem scanTasks_calls (cells : Array α) (chunks : List Span) :
    (chunks.map (scanTask f cells)).flatMap (·.calls) =
      ((chunks.map (Span.ofChunks · cells.size)).map fun span =>
        (cells.extract span.start span.stop).toList).flatMap (foldCalls f none) := by
  simp [scanTask, List.flatMap_map]

def carryTasks (cells : Array α) (spans : List Span) (carry : List (Option α)) :
    List (Task (α × α) (CarryWindow α)) :=
  (spans.zip carry).map fun (span, carry) => carryTask f span carry (scannedWindow f cells span)

theorem carryTasks_sound {cells : Array α} {spans : List Span} (h : Tiling 0 cells.size spans)
    (carry : List (Option α)) :
    ∀ task ∈ carryTasks f cells spans carry, task.Sound (carryKernel f) := by
  intro task htask
  obtain ⟨⟨span, carry⟩, hmem, rfl⟩ := List.mem_map.mp htask
  have hbounds := h.bounds (List.of_mem_zip hmem).1
  exact carryTask_sound f carry hbounds.2.1 (size_scannedWindow f hbounds.2.2)

theorem carryTasks_shares (cells : Array α) (spans : List Span) (carry : List (Option α)) :
    (((spans.map Slice.ofSpan).zip (spans.map (scannedWindow f cells))).zip carry).map
        (fun ((slice, window), carry) => carryShare slice carry window) =
      (carryTasks f cells spans carry).map Task.share := by
  induction spans generalizing carry with
  | nil => rfl
  | cons span spans ih =>
    cases carry with
    | nil => rfl
    | cons carry rest => exact congrArg₂ _ rfl (ih rest)

/-- The tasks of the second phase once the first one has completed. -/
def carriedTasks (cells : Array α) (spans : List Span) : List (Task (α × α) (CarryWindow α)) :=
  carryTasks f cells spans (carriesFrom f none ((spans.map (scannedWindow f cells)).map (·.toList)))

/-- Once there is a carry, every later window has one, and no slice is skipped. -/
theorem map_slice_carryTasks (cells : Array α) (acc : α) {spans : List Span}
    {windows : List (List α)} (hlength : spans.length = windows.length) :
    (carryTasks f cells spans (carriesFrom f (some acc) windows)).map (·.slice) =
      spans.map Slice.ofSpan := by
  induction spans generalizing acc windows with
  | nil => rfl
  | cons span spans ih =>
    cases windows with
    | nil => cases hlength
    | cons window windows =>
      rw [carriesFrom, foldFrom_some]
      -- Behind the first window every slice has a carry.
      exact congrArg (Slice.ofSpan span :: ·) (ih _ (Nat.succ.inj hlength))

/-- The second phase skips the first slice alone, unless that is empty. -/
theorem map_slice_carriedTasks {cells : Array α} {first : Span} {rest : List Span}
    (hpos : 0 < first.length) (hstop : first.stop ≤ cells.size) :
    (carriedTasks f cells (first :: rest)).map (·.slice) =
      ((first :: rest).map Slice.ofSpan).modifyHead Slice.exhaust := by
  have hsize := size_scannedWindow f hstop
  have hne : (scannedWindow f cells first).toList ≠ [] := by
    rw [← List.length_pos_iff, Array.length_toList, hsize]
    exact hpos
  obtain ⟨last, hlast⟩ := Option.ne_none_iff_exists'.mp (mt List.getLast?_eq_none_iff.mp hne)
  -- The window of the first slice leaves a carry for the next one.
  have htail : (carryTasks f cells rest (carriesFrom f (some last)
      ((rest.map (scannedWindow f cells)).map (·.toList)))).map (·.slice) =
        rest.map Slice.ofSpan :=
    map_slice_carryTasks f cells last (by simp)
  rw [carriedTasks, List.map_cons, List.map_cons, carriesFrom, hlast, Option.toList_some]
  exact congrArg ((Slice.ofSpan first).exhaust :: ·) htail

/-- Workers that have done both tasks leave the values of the windows combined with their
carries. -/
theorem carryTasks_cells (cells : Array α) (spans : List Span) :
    (joinArrays (((carriedTasks f cells spans).map (·.final)).map (·.cells))).toList =
      scanSlices f (spans.map fun span => (cells.extract span.start span.stop).toList) := by
  rw [toList_joinArrays, carriedTasks, map_toList_scannedWindow, scanSlices]
  simp only [carryTasks, List.map_map, List.zip_map_left, List.flatMap_def]
  rfl

/-- The calls of the second phase are those of combining each window with its carry. -/
theorem carryTasks_calls (cells : Array α) (spans : List Span) (carry : List (Option α)) :
    (carryTasks f cells spans carry).flatMap (·.calls) =
      (((spans.map (scannedWindow f cells)).map (·.toList)).zip carry).flatMap fun owned =>
        owned.2.toList.flatMap fun carry => owned.1.map (carry, ·) := by
  simp [carryTasks, carryTask, List.map_map, List.zip_map_left, List.flatMap_map]

/-- What a parallel attempt leaves. Its first phase is started on the windows of the workers, and if
that completes, the second one on what it has left. -/
inductive ScanAttempt.Staged (setting : Setting) (plan : Plan) (cells : Array α) :
    ScanAttempt α → Prop where
  | fallback {first : PhaseOutcome} {scanned : Phase (α × α) (ScanWindow α)}
      (hfirst : (Phase.start (((evenSpans plan.chunks plan.slices).map (scanTask f cells)).map
          Task.share)).run (scanKernel cells.size f) setting.host .scan setting.config.mode =
        .ok (first, scanned))
      (hfallback : first.isCompleted = false) :
      Staged setting plan cells ⟨.ofPhase plan first, cells, scanned.calls, [scanned.trace]⟩
  | both {first second : PhaseOutcome} {scanned : Phase (α × α) (ScanWindow α)}
      {carried : Phase (α × α) (CarryWindow α)} {spans : List Span}
      (hspans : spans = (evenSpans plan.chunks plan.slices).map (Span.ofChunks · cells.size))
      (hfirst : (Phase.start (((evenSpans plan.chunks plan.slices).map (scanTask f cells)).map
          Task.share)).run (scanKernel cells.size f) setting.host .scan setting.config.mode =
        .ok (first, scanned))
      (hcompleted : first.isCompleted = true)
      (hscanned : scanned.calls.toList =
        (spans.map fun span => (cells.extract span.start span.stop).toList).flatMap
          (foldCalls f none))
      (hsecond : (Phase.start ((carriedTasks f cells spans).map Task.share)).run (carryKernel f)
        setting.host .scan setting.config.mode = .ok (second, carried))
      (hcarried : second.isCompleted = true → carried.Finishes (carriedTasks f cells spans)) :
      Staged setting plan cells
        { report := (Report.ofPhase plan first).andThen second
          cells := joinArrays (carried.states.map (·.cells))
          calls := scanned.calls ++
            (foldCalls f none ((spans.map (scannedWindow f cells)).filterMap (·.back?))).toArray ++
              carried.calls
          phases := [scanned.trace, carried.trace] }

/-- The parallel scan runs under every host. -/
theorem scanInParallel_staged (setting : Setting) {plan : Plan} {cells : Array α}
    (hchunks : plan.chunks = chunkCount cells.size) :
    ∃ attempt, scanInParallel setting plan cells f = .ok attempt ∧
      attempt.Staged f setting plan cells := by
  have htiling := tiling_evenSpans plan.chunks plan.slices
  have helements := tiling_ofChunks cells.size plan.slices
  have hslices := Partition.slices_even plan.chunks plan.slices
  rw [← hchunks] at helements
  rw [scanInParallel, hslices, Partition.toElements_slices cells.size hslices, map_toSpan_ofSpan,
    splitWindows_eq helements]
  -- The first phase scans every window on its own.
  obtain ⟨first, scanned, hfirst, -, hscanned⟩ := Phase.run_tasks
    (htiling.forall_map fun _ hle _ => scanTask_sound f cells hle) setting.host .scan
    setting.config.mode
  simp only [Fault.ok_bind, scanTasks_shares f, hfirst]
  by_cases hcompleted : first.isCompleted = true
  · have hstates : scanned.states.map (·.cells) =
        ((evenSpans plan.chunks plan.slices).map (Span.ofChunks · cells.size)).map
          (scannedWindow f cells) := by
      rw [(hscanned hcompleted).states_eq, scanTasks_windows]
    have hcalls := (hscanned hcompleted).calls_eq
    rw [scanTasks_calls] at hcalls
    generalize hspans : (evenSpans plan.chunks plan.slices).map (Span.ofChunks · cells.size) =
      spans at helements hstates hcalls ⊢
    -- The second phase combines every window with its carry.
    have hcarries := carries_returns f none (spans.map (scannedWindow f cells)) scanned.calls
    have hsizes : ∀ span ∈ spans, (scannedWindow f cells span).size = span.length := by
      intro span hmem
      exact size_scannedWindow f (helements.bounds hmem).2.2
    obtain ⟨second, carried, hsecond, -, hcarried⟩ := Phase.run_tasks
      (carryTasks_sound f helements
        (carriesFrom f none ((spans.map (scannedWindow f cells)).map (·.toList))))
      setting.host .scan setting.config.mode
    simp only [hcompleted, hstates, StateT.run, hcarries, splitWindows_joinArrays helements hsizes,
      Fault.ok_bind, carryTasks_shares, hsecond]
    exact ⟨_, rfl, .both hspans.symm hfirst hcompleted hcalls hsecond hcarried⟩
  · -- After a fallback of the first phase there is no second one.
    have hfallback : first.isCompleted = false := by simpa using hcompleted
    exact ⟨_, if_pos (by simp [hfallback]), .fallback hfirst hfallback⟩

/-- If both phases complete, the parallel scan leaves the values of the windows combined with their
carries, and makes the calls that this takes, however often it was interrupted. -/
theorem ScanAttempt.Staged.of_parallel {setting : Setting} {plan : Plan} {cells : Array α}
    {attempt : ScanAttempt α} (hchunks : plan.chunks = chunkCount cells.size)
    (h : attempt.Staged f setting plan cells) (hpath : attempt.report.path = .parallel) :
    attempt.cells.toList = scanSlices f (sliceWindows cells plan.slices) ∧
      attempt.calls.toList = scanSlicesCalls f (sliceWindows cells plan.slices) := by
  cases h with
  | fallback hfirst hfallback =>
    rw [Report.path_ofPhase_eq_parallel.mp hpath] at hfallback
    cases hfallback
  | @both first second scanned carried spans hspans hfirst hcompleted hscanned hsecond hcarried =>
    have hdone := hcarried (Report.path_andThen_eq_parallel.mp hpath).1
    have hcells := carryTasks_cells f cells spans
    rw [sliceWindows, ← hchunks, ← hspans]
    refine ⟨by rw [hdone.states_eq]; exact hcells, ?_⟩
    -- The calls of the carries stand between those of the phases.
    rw [Array.toList_append, Array.toList_append, hdone.calls_eq, carriedTasks, carryTasks_calls,
      hscanned, filterMap_back?, map_toList_scannedWindow]
    rfl

/-! ## §5 The scan of a sequence -/

/-- An inclusive scan: the first value is that of the source, and every other one combines the
value before it with that of the source. -/
structure IsScan (source out : Array α) : Prop where
  size_eq : out.size = source.size
  head_eq : out[0]? = source[0]?
  step : ∀ i before x, out[i]? = some before → source[i + 1]? = some x →
    out[i + 1]? = some (f before x)

/-- Running folds satisfy the recurrence. -/
theorem getElem?_scanFrom_succ (acc : Option α) (xs : List α) (i : Nat) {before x : α}
    (hbefore : (scanFrom f acc xs)[i]? = some before) (hx : xs[i + 1]? = some x) :
    (scanFrom f acc xs)[i + 1]? = some (f before x) := by
  induction xs generalizing acc i with
  | nil => simp at hx
  | cons y ys ih =>
    cases i with
    | zero =>
      cases ys with
      | nil => simp at hx
      | cons z zs =>
        -- The first running fold is what the second one starts from.
        simp only [scanFrom, List.getElem?_cons_zero, List.getElem?_cons_succ, Option.some.injEq]
          at hbefore hx ⊢
        rw [hbefore, hx, combine_some]
    | succ i =>
      rw [scanFrom, List.getElem?_cons_succ] at hbefore ⊢
      exact ih _ i hbefore (by simpa using hx)

theorem isScan_scanFrom (source : Array α) :
    IsScan f source (scanFrom f none source.toList).toArray where
  size_eq := by simp
  head_eq := by
    obtain ⟨xs⟩ := source
    cases xs <;> simp [scanFrom]
  step i before x hbefore hx := by
    rw [List.getElem?_toArray] at hbefore ⊢
    exact getElem?_scanFrom_succ f none source.toList i hbefore (by simpa using hx)

/-- A parallel attempt is only made if there are enough chunks for the operation. A strategy can force
that of a scatter. -/
theorem Plan.minChunks_le_of_isParallel {op : Operation} {length : Nat} {config : Config}
    {workers : Nat} (hop : op ≠ .scatter)
    (h : (Plan.make op length config workers).isParallel = true) :
    op.minChunks workers ≤ chunkCount length := by
  by_contra hlt
  have hfew : chunkCount length < op.minChunks workers := Nat.lt_of_not_le hlt
  rw [Plan.isParallel, Plan.make, Plan.choose, if_pos hfew] at h
  cases hmode : config.mode.allowsParallel <;> by_cases hzero : length = 0 <;>
    simp [hmode, hzero, hop] at h

/-- The parallel attempt of a scan is only made if every worker has a chunk. -/
theorem workerCount_le_chunkCount {setting : Setting} {length : Nat}
    (h : (setting.plan .scan length).isParallel = true) :
    setting.workerCount ≤ chunkCount length :=
  Plan.minChunks_le_of_isParallel Operation.noConfusion h

/-- The attempt of a scan runs under every host. On the parallel path it leaves what the windows of
the workers lead to, and makes the calls that this takes. -/
theorem attemptScan_eq {source : View α} (setting : Setting) (hvalid : source.Valid)
    (hrank : source.rank = 1) :
    ∃ attempt,
      attemptScan setting (setting.plan .scan source.length) source.toArray f = .ok attempt ∧
        (attempt.report.path = .parallel →
          attempt.cells.toList =
            scanSlices f (sliceWindows source.toArray setting.workerCount) ∧
          attempt.calls.toList =
            scanSlicesCalls f (sliceWindows source.toArray setting.workerCount)) := by
  have hsize := View.size_toArray_eq_length hvalid hrank
  rw [attemptScan]
  split
  · have hchunks : (setting.plan .scan source.length).chunks = chunkCount source.toArray.size := by
      rw [hsize]
      rfl
    obtain ⟨attempt, hattempt, hstaged⟩ := scanInParallel_staged f setting hchunks
    have hparallel := fun hpath => hstaged.of_parallel f hchunks hpath
    exact ⟨attempt, hattempt, hparallel⟩
  · -- Without an attempt the path is sequential.
    refine ⟨_, rfl, ?_⟩
    intro hpath
    cases hpath

/-- What a scan comes to after an attempt. On the sequential path nothing that the attempt has
written is left: the source is scanned anew. -/
def ScanAttempt.scanned (attempt : ScanAttempt α) (source : Array α) : Array α :=
  if attempt.report.path = .parallel then attempt.cells else (scanFrom f none source.toList).toArray

/-- Either way there is a value for each of the source. -/
theorem size_scanned (attempt : ScanAttempt α) {source : Array α} {workers : Nat}
    (hparallel : attempt.report.path = .parallel →
      attempt.cells.toList = scanSlices f (sliceWindows source workers)) :
    (attempt.scanned f source).size = source.size := by
  rw [ScanAttempt.scanned]
  split
  · rename_i hpath
    rw [← Array.length_toList, hparallel hpath, length_scanSlices, flatten_sliceWindows,
      Array.length_toList]
  · rw [List.size_toArray, length_scanFrom, Array.length_toList]

/-- What follows an attempt ends in its report, and makes no calls on the parallel path. -/
theorem concludeScan_eq (setting : Setting) (cells : Array α) (attempt : ScanAttempt α) :
    ∃ run, concludeScan setting cells f attempt = .ok run ∧
      run.result = (attempt.report.check setting.config).map (fun checked =>
        (setting.release attempt.report
          (.ofArray setting.newBuffer (attempt.scanned f cells)), checked)) ∧
      (attempt.report.path = .parallel → run.calls = attempt.calls) := by
  have hscan := scanCells_window_returns f 0 cells attempt.calls
  rw [← List.range_eq_range'] at hscan
  cases hpath : attempt.report.path with
  | parallel =>
    simp [concludeScan, Setting.release, Setting.withholds, ScanAttempt.scanned, hpath]
  | sequential =>
    -- Scanned again if that is allowed, and without a result otherwise.
    cases hsequential : setting.config.sequential with
    | true =>
      simp [concludeScan, Setting.release, Setting.withholds, ScanAttempt.scanned, hpath,
        hsequential, StateT.run, hscan]
    | false =>
      simp [concludeScan, Setting.release, Setting.withholds, hpath, hsequential]

/-- Once its source is accepted a scan is what follows its attempt. -/
theorem View.scan_eq_concludeScan {source : View α} (setting : Setting) (hvalid : source.Valid)
    (hrank : source.rank = 1) (hne : source.isEmpty = false) {attempt : ScanAttempt α}
    (hattempt : attemptScan setting (setting.plan .scan source.length) source.toArray f =
      .ok attempt) :
    source.scan setting f = concludeScan setting source.toArray f attempt := by
  rw [View.scan, if_neg (by simp [hrank]), hne, if_neg Bool.false_ne_true, window_eq hvalid]
  simp only [Fault.ok_bind, hattempt]

/-- The result of a scan, whatever the function: on the sequential path the running folds of all
cells, on the parallel path what the windows of the workers lead to. -/
theorem View.scan_eq {source : View α} (setting : Setting) (hvalid : source.Valid)
    (hrank : source.rank = 1) (hne : source.isEmpty = false)
    (hsequential : setting.config.sequential = true) :
    ∃ (run : Run (α × α) (View α)) (report : Report) (out : Array α),
      source.scan setting f = .ok run ∧
      run.result = (report.check setting.config).map
        (fun report => (View.ofArray setting.newBuffer out, report)) ∧
      (report.path = .sequential → out.toList = scanFrom f none source.toArray.toList) ∧
      (report.path = .parallel → out.toList =
        scanSlices f (sliceWindows source.toArray setting.workerCount)) := by
  obtain ⟨attempt, hattempt, hcells⟩ := attemptScan_eq f setting hvalid hrank
  obtain ⟨run, hrun, hresult, -⟩ := concludeScan_eq f setting source.toArray attempt
  rw [← View.scan_eq_concludeScan f setting hvalid hrank hne hattempt] at hrun
  rw [Setting.release_of_sequential _ hsequential] at hresult
  refine ⟨run, attempt.report, _, hrun, hresult, fun hpath => ?_, fun hpath => ?_⟩
  · simp [ScanAttempt.scanned, hpath]
  · rw [ScanAttempt.scanned, if_pos hpath, (hcells hpath).1]

/-- **The scan satisfies its recurrence on every path.** Every run on a sequence ends in its scan,
or in the complaint that the execution was not the expected one. -/
theorem View.scan_recurrence {source : View α} (setting : Setting) (hvalid : source.Valid)
    (hrank : source.rank = 1) (hne : source.isEmpty = false)
    (hassoc : ∀ a b c, f (f a b) c = f a (f b c))
    (hsequential : setting.config.sequential = true) :
    ∃ run, source.scan setting f = .ok run ∧ run.Ends setting.config fun out =>
      out.shape = .vector source.length ∧ IsScan f source.toArray out.toArray := by
  obtain ⟨run, report, out, hrun, hresult, hseq, hpar⟩ :=
    View.scan_eq f setting hvalid hrank hne hsequential
  -- Both paths lead to the running folds of the source.
  have hout : out = (scanFrom f none source.toArray.toList).toArray := by
    apply Array.ext'
    cases hpath : report.path with
    | sequential => exact hseq hpath
    | parallel => rw [hpar hpath, scanSlices_eq_scanFrom f hassoc, flatten_sliceWindows]
  have hsize := size_toArray_eq_length hvalid hrank
  refine ⟨run, hrun, .of_check hresult ⟨?_, ?_⟩⟩
  · simp [hout, View.ofArray, hsize]
  · rw [toArray_ofArray, hout]
    exact isScan_scanFrom f source.toArray

/-- Concatenating a hundred lists, two workers of which bail out of every attempt. -/
theorem View.scan_recurrence_append :
    ∃ run, (View.ofArray 0 (Array.replicate 100 [1, 2])).scan
        { host := BailSchedule.always.host, config := Config.withWorkers {} 2 } (· ++ ·) = .ok run ∧
      run.Ends (Config.withWorkers {} 2) fun out =>
        out.shape = .vector 100 ∧
          IsScan (· ++ ·) (Array.replicate 100 [1, 2]) out.toArray := by
  have hvalid : (View.ofArray 0 (Array.replicate 100 [1, 2])).Valid := ⟨rfl, by decide⟩
  have hscan := View.scan_recurrence (· ++ ·)
    { host := BailSchedule.always.host, config := Config.withWorkers {} 2 } hvalid rfl rfl
    List.append_assoc rfl
  rw [View.toArray_ofArray] at hscan
  exact hscan

end ForkJoin
