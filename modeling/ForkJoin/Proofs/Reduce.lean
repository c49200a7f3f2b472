import ForkJoin.Operation.Reduce
import ForkJoin.Proofs.Fold
import ForkJoin.Proofs.Resumption
import ForkJoin.Proofs.Runs
import ForkJoin.Proofs.Tables
import ForkJoin.Proofs.Views

/-!
# The reduction

A worker folds the values of its chunks from the left, and keeps what they come to while it is
interrupted. If all workers end in parallel, what their windows have come to is folded in slice
order; otherwise all of it is given up, and the cells are folded anew. For an associative function
both are the left fold of the cells, whatever the host answers.

## Main definitions
- `sliceFolds`: what each window comes to on its own.

## Main statements
- `reduceKernel_workAll_returns`: what a worker folds.
- `View.reduce_returns`, `View.reduce_eq`: the result of a reduction, whatever the function.
- `View.reduce_foldl`: the left fold of an associative function, on every path.
-/

namespace ForkJoin

variable {α : Type} (f : α → α → α)

/-! ## §1 Folding the chunks of a slice -/

/-- The values of one chunk. -/
def chunkCells (cells : Array α) (chunk : Nat) : List α :=
  (cells.extract (Span.ofChunk chunk cells.size).start (Span.ofChunk chunk cells.size).stop).toList

/-- The values of the chunks of a slice are those of its window. -/
theorem flatMap_chunkCells {cells : Array α} {chunks : Span}
    (hstop : chunks.stop ≤ chunkCount cells.size) :
    chunks.positions.flatMap (chunkCells cells) =
      (cells.extract (Span.ofChunks chunks cells.size).start
        (Span.ofChunks chunks cells.size).stop).toList := by
  have hchunk : ∀ chunk ∈ chunks.positions, chunkCells cells chunk =
      (Span.ofChunk chunk cells.size).positions.filterMap (cells[·]?) := by
    intro chunk hmem
    have hlt := Nat.lt_of_lt_of_le (Span.mem_positions.mp hmem).2 hstop
    rw [Span.filterMap_positions _ (ofChunk_bounds hlt).2.2, chunkCells]
  have hwindow : (Span.ofChunks chunks cells.size).stop ≤ cells.size := Nat.min_le_right ..
  -- Both are the values at the elements of the chunks, one chunk after another.
  rw [List.flatMap_congr hchunk, ← Span.filterMap_positions _ hwindow, ← flatMap_positions_ofChunk,
    List.filterMap_flatMap]

/-- The kernel folds the values of one chunk into what there is so far. -/
theorem reduceKernel_work_returns {cells : Array α} {chunk : Nat}
    (hchunk : chunk < chunkCount cells.size) (acc : Option α) :
    ((reduceKernel cells f).work chunk acc).Returns (foldFrom f acc (chunkCells cells chunk))
      (foldCalls f acc (chunkCells cells chunk)) := by
  obtain ⟨-, hle, hstop⟩ := ofChunk_bounds hchunk
  exact .silent_bind (.lift (if_pos ⟨hle, hstop⟩)) (foldCells_returns f acc _)

/-- The kernel folds the values of some chunks as if there were no chunks. -/
theorem reduceKernel_workAll_returns {cells : Array α} {chunks : List Nat}
    (hchunks : ∀ chunk ∈ chunks, chunk < chunkCount cells.size) (acc : Option α) :
    ((reduceKernel cells f).workAll chunks acc).Returns
      (foldFrom f acc (chunks.flatMap (chunkCells cells)))
      (foldCalls f acc (chunks.flatMap (chunkCells cells))) := by
  -- By induction on the chunks; the accumulator goes from one to the next.
  induction chunks generalizing acc with
  | nil => exact .pure _
  | cons chunk chunks ih =>
    have hfirst := reduceKernel_work_returns f (hchunks chunk (List.mem_cons_self ..)) acc
    have hrest := ih fun other hother => hchunks other (List.mem_cons_of_mem _ hother)
    rw [Kernel.workAll_cons, List.flatMap_cons, foldFrom_append, foldCalls_append]
    exact hfirst.bind (hrest _)

/-- A worker folds the window of its chunks, from nothing. -/
def reduceTask (cells : Array α) (chunks : Span) : Task (α × α) (Option α) :=
  let span := Span.ofChunks chunks cells.size
  let window := (cells.extract span.start span.stop).toList
  { slice := .ofSpan chunks
    state := none
    final := foldFrom f none window
    calls := foldCalls f none window }

theorem reduceTask_sound {cells : Array α} {chunks : Span} (hle : chunks.start ≤ chunks.stop)
    (hstop : chunks.stop ≤ chunkCount cells.size) :
    (reduceTask f cells chunks).Sound (reduceKernel cells f) where
  pos_le := hle
  work := by
    have hchunks : ∀ chunk ∈ chunks.positions, chunk < chunkCount cells.size := by
      intro chunk hmem
      exact Nat.lt_of_lt_of_le (Span.mem_positions.mp hmem).2 hstop
    have hwork := reduceKernel_workAll_returns f hchunks none
    rw [flatMap_chunkCells hstop] at hwork
    exact hwork

/-! ## §2 The fold of a sequence -/

/-- What each window comes to on its own. An empty window comes to nothing. -/
def sliceFolds (windows : List (List α)) : List α :=
  windows.flatMap fun xs => (foldFrom f none xs).toList

theorem reduceTasks_final (cells : Array α) (count : Nat) :
    (((evenSpans (chunkCount cells.size) count).map (reduceTask f cells)).map
      (·.final)).filterMap id = sliceFolds f (sliceWindows cells count) := by
  simp [sliceFolds, sliceWindows, reduceTask, List.filterMap_eq_flatMap_toList, List.flatMap_map]

/-- The calls of the tasks are those of folding each window on its own. -/
theorem reduceTasks_calls (cells : Array α) (count : Nat) :
    ((evenSpans (chunkCount cells.size) count).map (reduceTask f cells)).flatMap (·.calls) =
      (sliceWindows cells count).flatMap (foldCalls f none) := by
  simp [sliceWindows, reduceTask, List.flatMap_map]

theorem sliceFolds_ne_nil {windows : List (List α)} (h : windows.flatten ≠ []) :
    sliceFolds f windows ≠ [] := by
  intro hnil
  apply h
  rw [List.flatten_eq_nil_iff]
  intro xs hmem
  -- A window that comes to nothing is empty.
  by_contra hne
  obtain ⟨value, hvalue⟩ := exists_foldFrom_eq_some f none hne
  simpa [hvalue] using List.flatMap_eq_nil_iff.mp hnil xs hmem

/-- Values that fold to a value are the result of the run, if the execution was as expected. Only
then are they folded. -/
theorem concludeFold_eq {values : List α} {value : α} (h : foldFrom f none values = some value)
    (report : Report) (config : Config) (calls : Array (α × α)) (phases : List PhaseTrace) :
    ∃ run, concludeFold (report.check config) calls phases f values = .ok run ∧
      run.result = (report.check config).map (fun report => (value, report)) ∧
      ∀ result, run.result = .ok result →
        run.calls.toList = calls.toList ++ foldCalls f none values := by
  cases hcheck : report.check config with
  | error cause => exact ⟨_, rfl, rfl, fun result hresult => by cases hresult⟩
  | ok report =>
    -- The report is accepted, so the values are folded.
    have hfold := foldCells_returns f none values calls
    rw [h] at hfold
    exact ⟨_, by simp [concludeFold, StateT.run, hfold]; rfl, rfl, fun _ _ => by simp⟩

/-- The parallel attempt is started on the windows of the workers. -/
theorem reduceTasks_shares (cells : Array α) (chunks : List Span) :
    ((chunks.map Slice.ofSpan).map fun slice => (slice, (none : Option α))) =
      (chunks.map (reduceTask f cells)).map Task.share :=
  Task.map_share (fun _ => rfl) chunks

/-- The parallel attempt runs under every host. If it completes, it leaves what the windows of the
workers come to, and has folded each of them once. -/
theorem reducePhase_eq (setting : Setting) (plan : Plan) {cells : Array α}
    (hchunks : plan.chunks = chunkCount cells.size) :
    ∃ outcome phase,
      (Phase.start ((Partition.even plan.chunks plan.slices).slices.map fun slice =>
        (slice, none))).run (reduceKernel cells f) setting.host .reduce setting.config.mode =
          .ok (outcome, phase) ∧
      (outcome.isCompleted = true →
        phase.states.filterMap id = sliceFolds f (sliceWindows cells plan.slices) ∧
        phase.calls.toList = (sliceWindows cells plan.slices).flatMap (foldCalls f none)) := by
  have htiling := tiling_evenSpans (chunkCount cells.size) plan.slices
  obtain ⟨outcome, phase, hrun, -, hdone⟩ := Phase.run_tasks
    (htiling.forall_map fun _ hle hstop => reduceTask_sound f hle hstop) setting.host .reduce
    setting.config.mode
  rw [hchunks, Partition.slices_even, reduceTasks_shares f cells, hrun]
  refine ⟨outcome, phase, rfl, ?_⟩
  -- Each slice ends with its own fold, in the order of the slices.
  intro hcompleted
  rw [(hdone hcompleted).states_eq, (hdone hcompleted).calls_eq, reduceTasks_final,
    reduceTasks_calls]
  exact ⟨rfl, rfl⟩

/-- Whichever way a reduction runs, it ends in folding some values: all cells on the sequential
path, and what the windows of the workers come to on the parallel one. -/
theorem View.reduce_eq_concludeFold {source : View α} (setting : Setting) (hvalid : source.Valid)
    (hrank : source.rank = 1) (hne : source.isEmpty = false) :
    ∃ (report : Report) (calls : Array (α × α)) (phases : List PhaseTrace) (values : List α),
      source.reduce setting f =
        concludeFold (report.check setting.config) calls phases f values ∧
      (report.path = .sequential → values = source.toArray.toList) ∧
      (report.path = .parallel →
        values = sliceFolds f (sliceWindows source.toArray setting.workerCount) ∧
        calls.toList = (sliceWindows source.toArray setting.workerCount).flatMap
          (foldCalls f none)) := by
  have hpos : source.toArray.isEmpty = false := by rw [isEmpty_toArray hvalid hrank, hne]
  rw [View.reduce, if_neg (by simp [hrank]), window_eq hvalid]
  simp only [Fault.ok_bind, hpos, Bool.false_eq_true, if_false]
  -- From here on the source only counts as its cells.
  generalize source.toArray = cells
  by_cases hparallel : (setting.plan .reduce cells.size).isParallel = true
  · have hchunks : (setting.plan .reduce cells.size).chunks = chunkCount cells.size := rfl
    obtain ⟨outcome, phase, hrun, hdone⟩ := reducePhase_eq f setting _ hchunks
    simp only [if_pos hparallel, hrun, Fault.ok_bind]
    refine ⟨_, _, _, _, rfl, ?_, ?_⟩
    · -- What the slices have come to is given up if the path is sequential.
      intro hpath
      rw [if_neg]
      intro hcompleted
      rw [Report.path_ofPhase_eq_parallel.mpr hcompleted] at hpath
      cases hpath
    · intro hpath
      have hcompleted := Report.path_ofPhase_eq_parallel.mp hpath
      rw [if_pos hcompleted]
      exact hdone hcompleted
  · rw [if_neg hparallel]
    refine ⟨_, _, _, _, rfl, fun _ => rfl, ?_⟩
    intro hpath
    cases hpath

/-- A run of a reduction, whatever the function: on the sequential path its result is the fold of all
cells, on the parallel path the fold of what the windows of the workers come to. If there is a
result, each window was folded once, and what they come to as well. -/
theorem View.reduce_returns {source : View α} (setting : Setting) (hvalid : source.Valid)
    (hrank : source.rank = 1) (hne : source.isEmpty = false) :
    ∃ (run : Run (α × α) α) (report : Report) (value : α), source.reduce setting f = .ok run ∧
      run.result = (report.check setting.config).map (fun report => (value, report)) ∧
      (report.path = .sequential → foldFrom f none source.toArray.toList = some value) ∧
      (report.path = .parallel →
        foldFrom f none (sliceFolds f (sliceWindows source.toArray setting.workerCount)) =
          some value ∧
        ∀ result, run.result = .ok result → run.calls.toList =
          (sliceWindows source.toArray setting.workerCount).flatMap (foldCalls f none) ++
            foldCalls f none
              (sliceFolds f (sliceWindows source.toArray setting.workerCount))) := by
  obtain ⟨report, calls, phases, values, hreduce, hsequential, hparallel⟩ :=
    View.reduce_eq_concludeFold f setting hvalid hrank hne
  have hcells : source.toArray.toList ≠ [] := by
    rw [← isEmpty_toArray hvalid hrank] at hne
    simpa using hne
  -- There is a value on either path, so the run never complains of an empty domain.
  have hvalues : values ≠ [] := by
    cases hpath : report.path with
    | sequential => rwa [hsequential hpath]
    | parallel =>
      rw [(hparallel hpath).1]
      exact sliceFolds_ne_nil f (by rwa [flatten_sliceWindows])
  obtain ⟨value, hvalue⟩ := exists_foldFrom_eq_some f none hvalues
  obtain ⟨run, hrun, hresult, hcalls⟩ :=
    concludeFold_eq f hvalue report setting.config calls phases
  rw [← hreduce] at hrun
  refine ⟨run, report, value, hrun, hresult, ?_, ?_⟩
  · intro hpath
    rw [← hsequential hpath, hvalue]
  · intro hpath
    obtain ⟨rfl, hwindows⟩ := hparallel hpath
    exact ⟨hvalue, fun result hok => by rw [hcalls result hok, hwindows]⟩

/-- The result of a reduction. -/
theorem View.reduce_eq {source : View α} (setting : Setting) (hvalid : source.Valid)
    (hrank : source.rank = 1) (hne : source.isEmpty = false) :
    ∃ (run : Run (α × α) α) (report : Report) (value : α), source.reduce setting f = .ok run ∧
      run.result = (report.check setting.config).map (fun report => (value, report)) ∧
      (report.path = .sequential → foldFrom f none source.toArray.toList = some value) ∧
      (report.path = .parallel → foldFrom f none
        (sliceFolds f (sliceWindows source.toArray setting.workerCount)) = some value) := by
  obtain ⟨run, report, value, hrun, hresult, hsequential, hparallel⟩ :=
    View.reduce_returns f setting hvalid hrank hne
  exact ⟨run, report, value, hrun, hresult, hsequential, fun hpath => (hparallel hpath).1⟩

/-- **A reduction is the left fold on every path.** Every run on a sequence with an element ends
in the left fold of its elements, or in the complaint that the execution was not the expected one.
The function has to be associative, and nothing else. -/
theorem View.reduce_foldl {source : View α} (setting : Setting) (hvalid : source.Valid)
    (hrank : source.rank = 1) (hne : source.isEmpty = false)
    (hassoc : ∀ a b c, f (f a b) c = f a (f b c)) :
    ∃ run, source.reduce setting f = .ok run ∧ run.Ends setting.config fun value =>
      ∃ x xs, source.toArray.toList = x :: xs ∧ value = xs.foldl f x := by
  obtain ⟨run, report, value, hrun, hresult, hsequential, hparallel⟩ :=
    View.reduce_eq f setting hvalid hrank hne
  refine ⟨run, hrun, .of_check hresult ?_⟩
  -- Both paths lead to the fold of all cells.
  have hfold : foldFrom f none source.toArray.toList = some value := by
    cases hpath : report.path with
    | sequential => exact hsequential hpath
    | parallel =>
      rw [← hparallel hpath, sliceFolds, foldFrom_flatMap_foldFrom f hassoc, flatten_sliceWindows]
  cases hcells : source.toArray.toList with
  | nil => simp [hcells] at hfold
  | cons x xs =>
    rw [hcells, foldFrom_cons, foldFrom_some] at hfold
    exact ⟨x, xs, rfl, (Option.some.inj hfold).symm⟩

/-- Concatenating five hundred lists without permission to run sequentially, by two workers that
bail out of every attempt. -/
theorem View.reduce_foldl_append :
    let config := (Config.withWorkers {} 2).withoutSequential
    ∃ run, (View.ofArray 0 (Array.replicate 500 [1, 2])).reduce
        { host := BailSchedule.always.host, config } (· ++ ·) = .ok run ∧
      run.Ends config fun value => ∃ x xs,
        (View.ofArray 0 (Array.replicate 500 [1, 2])).toArray.toList = x :: xs ∧
          value = xs.foldl (· ++ ·) x := by
  have hvalid : (View.ofArray 0 (Array.replicate 500 [1, 2])).Valid :=
    ⟨by simp [View.ofArray]; rfl,
      by simp [View.ofArray, Shape.vector, Shape.size, Shape.dims, Dims.size]⟩
  exact View.reduce_foldl (· ++ ·)
    { host := BailSchedule.always.host, config := (Config.withWorkers {} 2).withoutSequential }
    hvalid rfl (by simp [View.isEmpty, View.length, View.ofArray, Shape.vector]) List.append_assoc

end ForkJoin
