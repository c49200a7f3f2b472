import ForkJoin.Proofs.Deposits
import ForkJoin.Proofs.Resumption
import ForkJoin.Proofs.Runs
import ForkJoin.Proofs.Views
import ForkJoin.Scatter.Basic

/-!
# The scatter

Both parallel strategies are held against the sequential scatter. A worker that owns a part of the
output deposits the hits in it in source order, so its part is that of the sequential output. A
worker that owns a part of the targets combines the values of its part alone; merging combines
the results, and it takes associativity for the two stages to give what one would have given.

## Main definitions
- `ScatterJob.Ready`: a job that can be run.
- `ScatterJob.outputTask`, `ScatterJob.targetTask`: the shares of workers.
- `ScatterJob.outputOf`, `ScatterJob.resultOf`: what a strategy gives, and what a job gives.
- `ScatterJob.callsOf`, `ScatterJob.callsIn`: the calls that this takes.
- `IsScatter`: the scatter of some hits.

## Main statements
- `ScatterJob.Ready.divideOutputRange_eq`, `ScatterJob.Ready.divideScatterVector_eq`: the strategies
  under every host, whatever the conflict function.
- `ScatterJob.mergedOutput_eq_output`: where it is associative, merging does not matter.
- `ScatterJob.Ready.run_ends`: a job is run to its end, whatever the setting.
- `View.scatter_eq`: the scatter of a view is a run of its job.
- `View.scatter_divideOutputRange`, `View.scatter_divideScatterVector`: both strategies refine the
  sequential scatter.
-/

namespace ForkJoin

variable {α : Type}

/-! ## §1 The phase -/

/-- The phase of a scatter runs under every host, and ends in one report whether or not it may finish
sequentially. It leaves what its tasks say unless that is withheld. -/
theorem scatterPhase_tasks {σ : Type} {kernel : Kernel (α × α) σ} {tasks : List (Task (α × α) σ)}
    (hsound : ∀ task ∈ tasks, task.Sound kernel) (setting : Setting) (plan : Plan) :
    ∃ report, ∀ sequential, ∃ calls phases,
      scatterPhase (setting.permit sequential) plan kernel (tasks.map Task.share) =
        .ok (report, (setting.permit sequential).keep report (tasks.map (·.final)), calls, phases) ∧
      ((setting.permit sequential).withholds report = false →
        calls.toList = tasks.flatMap (·.calls)) := by
  obtain ⟨outcome, phase, hrun, hresumes, hfinishes⟩ :=
    Phase.run_tasks hsound setting.host .scatter setting.config.mode
  refine ⟨.ofPhase plan outcome, fun sequential => ?_⟩
  -- The phase is the same with and without the permission.
  have hsame : (Phase.start (tasks.map Task.share)).run kernel (setting.permit sequential).host
      .scatter (setting.permit sequential).config.mode = .ok (outcome, phase) := hrun
  simp only [scatterPhase, hsame, Fault.ok_bind]
  cases outcome with
  | completed bailouts =>
    have hdone := hfinishes rfl
    rw [← hdone.states_eq]
    exact ⟨_, _, rfl, fun _ => hdone.calls_eq⟩
  | fallback bailouts =>
    cases sequential with
    | true =>
      -- The sequential pass resumes the workers where the phase left them.
      obtain ⟨alone, halone, hdone⟩ := Phase.finishAlone_tasks hsound hresumes
      simp only [Setting.permit, halone]
      rw [← hdone.states_eq]
      exact ⟨_, _, rfl, fun _ => hdone.calls_eq⟩
    | false => exact ⟨_, _, rfl, fun hreleased => by cases hreleased⟩

/-! ## §2 Walking targets -/

namespace ScatterJob

/-- A job that can be run: there are as many targets as values, and all of them lie in the
output. -/
structure Ready (job : ScatterJob α) : Prop where
  size_eq : job.targets.size = job.values.size
  inside : ∀ p ∈ job.targets, p < job.length

variable {job : ScatterJob α}

theorem Ready.size_hits (h : job.Ready) : job.hits.size = job.targets.size := by
  rw [hits, Array.size_zip, ← h.size_eq, Nat.min_self]

theorem Ready.hit_lt (h : job.Ready) {hit : Nat × α} (hmem : hit ∈ job.hits.toList) :
    hit.1 < job.length := by
  rw [hits, Array.toList_zip] at hmem
  exact h.inside _ (Array.mem_toList_iff.mp (List.of_mem_zip hmem).1)

/-- A kernel that looks up the target and the value of its unit walks the hits. -/
theorem Ready.workAll_hits (h : job.Ready) {σ : Type} (kernel : Kernel (α × α) σ)
    (step : σ → Nat × α → Calling (α × α) σ)
    (hwork : ∀ i state, kernel.work i state = (do
      let position ← Fault.checkedGet job.targets i
      let value ← Fault.checkedGet job.values i
      step state (position, value)))
    (span : Span) (hstop : span.stop ≤ job.targets.size) (state : σ) :
    kernel.workAll span.positions state =
      (job.hits.extract span.start span.stop).toList.foldlM step state := by
  have hsize := h.size_hits
  have hbound : ∀ i ∈ span.positions, i < job.hits.size := by
    intro i hi
    have hlt := (Span.mem_positions.mp hi).2
    omega
  -- The hits in the span are those that its positions look up, one after another.
  rw [← span.filterMap_positions (hsize ▸ hstop)]
  generalize span.positions = units at hbound
  induction units generalizing state with
  | nil => rfl
  | cons i units ih =>
    have hi := hbound i (List.mem_cons_self ..)
    have htargets : i < job.targets.size := hsize ▸ hi
    have hvalues : i < job.values.size := h.size_eq ▸ htargets
    have hhit : job.hits[i] = (job.targets[i], job.values[i]) := Array.getElem_zip
    have hunit : kernel.work i state = step state job.hits[i] := by
      rw [hwork, hhit, Fault.checkedGet, dif_pos htargets, Fault.checkedGet, dif_pos hvalues]
      rfl
    rw [Kernel.workAll_cons, hunit, List.filterMap_cons_some (Array.getElem?_eq_getElem hi),
      List.foldlM_cons]
    simp only [ih _ fun j hj => hbound j (List.mem_cons_of_mem _ hj)]

/-! ## §3 Dividing the output -/

/-- A worker that owns a window of the output walks all targets. -/
def outputTask (job : ScatterJob α) (default : α) (span : Span) :
    Task (α × α) (OutputPart α) where
  slice := .ofSpan ⟨0, job.targets.size⟩
  state := .blank span (Array.replicate span.length default)
  final := .after job.conflict span default (hitsIn span job.hits.toList)
  calls := hitCalls job.conflict [] (hitsIn span job.hits.toList)

theorem Ready.outputTask_sound (h : job.Ready) (default : α) (span : Span) :
    (job.outputTask default span).Sound job.outputKernel where
  pos_le := Nat.zero_le _
  work := by
    -- Walking all targets walks all hits, of which only those in the window are deposited.
    have hwalk := h.workAll_hits job.outputKernel
      (fun part hit => part.depositInside job.conflict hit.1 hit.2) (fun _ _ => rfl)
      ⟨0, job.targets.size⟩ (Nat.le_refl _) (OutputPart.after job.conflict span default [])
    have hall : job.hits.extract 0 job.targets.size = job.hits := by
      rw [← h.size_hits, Array.extract_size]
    rw [hall] at hwalk
    have hdeposits := OutputPart.depositsInside_return job.conflict span default [] job.hits.toList
    rw [← hwalk, ← OutputPart.blank_eq_after] at hdeposits
    exact hdeposits

section

variable {spans : List Span}

/-- Every window of the output is blank at first. -/
theorem splitWindows_replicate (h : Tiling 0 job.length spans) (default : α) :
    splitWindows (Array.replicate job.length default) spans =
      .ok (spans.map fun span => Array.replicate span.length default) := by
  have hblank : Tiling 0 (Array.replicate job.length default).size spans := by simpa using h
  rw [splitWindows_eq hblank]
  apply congrArg Except.ok
  apply List.map_congr_left
  intro span hmem
  have hbounds := h.bounds hmem
  rw [Array.extract_replicate, Nat.min_eq_left hbounds.2.2, Span.length]

theorem outputTasks_shares (job : ScatterJob α) (default : α) (spans : List Span) :
    ((spans.zip (spans.map fun span => Array.replicate span.length default)).map fun owned =>
        (Slice.ofSpan ⟨0, job.targets.size⟩, OutputPart.blank owned.1 owned.2)) =
      (spans.map (job.outputTask default)).map Task.share := by
  rw [← List.map_prod_left_eq_zip, List.map_map, List.map_map]
  rfl

/-- In its own window a worker gathers what the sequential scatter does. -/
theorem outputTasks_cells (h : Tiling 0 job.length spans) (default : α) :
    joinArrays (((spans.map (job.outputTask default)).map (·.final)).map (·.cells)) =
      job.output default := by
  rw [output, ← h.joinArrays_table, List.map_map, List.map_map]
  apply congrArg joinArrays
  apply List.map_congr_left
  intro span _
  apply Span.table_congr
  intro p hp
  have hin : span.contains p = true := Span.contains_iff.mpr (Span.mem_positions.mp hp)
  rw [gathered, aimedAt_hitsIn _ hin, gathered]

end

/-- Dividing the output gives the output of the sequential scatter, whatever the conflict
function. -/
theorem Ready.divideOutputRange_eq (h : job.Ready) (setting : Setting) (plan : Plan)
    (default : α) :
    ∃ report, ∀ sequential, ∃ attempt,
      job.divideOutputRange (setting.permit sequential) plan default = .ok attempt ∧
      attempt.report = report ∧
      attempt.cells = (setting.permit sequential).keep report (job.output default) ∧
      ((setting.permit sequential).withholds report = false →
        attempt.calls.toList = (evenSpans job.length plan.slices).flatMap fun span =>
          hitCalls job.conflict [] (hitsIn span job.hits.toList)) := by
  have htiling := tiling_evenSpans job.length plan.slices
  simp only [divideOutputRange, Partition.slices_even, map_toSpan_ofSpan]
  generalize evenSpans job.length plan.slices = spans at htiling ⊢
  obtain ⟨report, hphases⟩ := scatterPhase_tasks
    (htiling.forall_map fun span _ _ => h.outputTask_sound default span) setting plan
  refine ⟨report, fun sequential => ?_⟩
  obtain ⟨calls, phases, hphase, hcalls⟩ := hphases sequential
  -- The windows are cut from blank cells, so every worker begins with its own part of them.
  simp only [splitWindows_replicate htiling, Fault.ok_bind, outputTasks_shares, hphase]
  refine ⟨_, rfl, rfl, ?_, fun hreleased => ?_⟩
  · rw [Setting.map_keep, outputTasks_cells htiling default]
  · rw [hcalls hreleased, List.flatMap_map]
    rfl

/-! ## §4 Dividing the targets -/

/-- A worker that owns some targets deposits their values in an output of its own. -/
def targetTask (job : ScatterJob α) (span : Span) : Task (α × α) (PrivateOutput α) :=
  let hits := (job.hits.extract span.start span.stop).toList
  { slice := .ofSpan span
    state := .blank job.length
    final := .after job.conflict job.length hits
    calls := hitCalls job.conflict [] hits }

theorem Ready.targetTask_sound (h : job.Ready) {span : Span} (hle : span.start ≤ span.stop)
    (hstop : span.stop ≤ job.targets.size) : (job.targetTask span).Sound job.targetKernel where
  pos_le := hle
  work := by
    -- Every hit of the worker's targets is deposited.
    have hwalk := h.workAll_hits job.targetKernel
      (fun slots hit => PrivateOutput.deposit job.conflict slots hit.1 hit.2) (fun _ _ => rfl)
      span hstop (PrivateOutput.after job.conflict job.length [])
    have hin : ∀ hit ∈ (job.hits.extract span.start span.stop).toList, hit.1 < job.length := by
      intro hit hmem
      rw [Array.toList_extract, List.extract_eq_take_drop] at hmem
      exact h.hit_lt (List.mem_of_mem_drop (List.mem_of_mem_take hmem))
    have hdeposits := PrivateOutput.deposits_return job.conflict [] hin
    rw [← hwalk, ← PrivateOutput.blank_eq_after] at hdeposits
    exact hdeposits

/-- What each of `count` workers gathers. -/
def sliceOutputs (job : ScatterJob α) (count : Nat) : List (Nat → Option α) :=
  (sliceWindows job.hits count).map (gathered job.conflict)

/-- The output of `count` workers, merged. -/
def mergedOutput (job : ScatterJob α) (default : α) (count : Nat) : Array α :=
  Span.table ⟨0, job.length⟩ fun p =>
    (PrivateOutput.mergedAt job.conflict none (job.sliceOutputs count) p).getD default

/-- The calls of all workers, and those of merging their outputs. -/
def mergedCalls (job : ScatterJob α) (count : Nat) : List (α × α) :=
  (sliceWindows job.hits count).flatMap (hitCalls job.conflict []) ++
    PrivateOutput.mergeAllCalls job.conflict ⟨0, job.length⟩ (fun _ => none)
      (job.sliceOutputs count)

theorem targetTasks_shares (job : ScatterJob α) (spans : List Span) :
    ((spans.map Slice.ofSpan).map fun slice =>
        (slice, PrivateOutput.blank (α := α) job.length)) =
      (spans.map job.targetTask).map Task.share :=
  Task.map_share (fun _ => rfl) spans

/-- The outputs of the workers are merged into an empty one. -/
theorem mergeOutputs_returns (job : ScatterJob α) (count : Nat) {spans : List Span}
    (hspans : spans = (evenSpans (chunkCount job.hits.size) count).map
      (Span.ofChunks · job.hits.size)) :
    (job.mergeOutputs ((spans.map job.targetTask).map (·.final))).Returns
      (Span.table ⟨0, job.length⟩
        (PrivateOutput.mergedAt job.conflict none (job.sliceOutputs count)))
      (PrivateOutput.mergeAllCalls job.conflict ⟨0, job.length⟩ (fun _ => none)
        (job.sliceOutputs count)) := by
  have hmerge := PrivateOutput.mergeAll_returns job.conflict ⟨0, job.length⟩ (fun _ => none)
    (job.sliceOutputs count)
  -- A worker that has finished has gathered the hits of its window.
  have houtputs : (spans.map job.targetTask).map (·.final) =
      (job.sliceOutputs count).map (Span.table ⟨0, job.length⟩) := by
    rw [sliceOutputs, sliceWindows, ← hspans, List.map_map, List.map_map, List.map_map]
    rfl
  rw [mergeOutputs, houtputs, PrivateOutput.blank_eq_after job.conflict]
  exact hmerge

/-- Dividing the targets merges what the workers gather, whatever the conflict function. -/
theorem Ready.divideScatterVector_eq (h : job.Ready) (setting : Setting) (plan : Plan)
    (default : α) :
    ∃ report, ∀ sequential, ∃ attempt,
      job.divideScatterVector (setting.permit sequential) plan default = .ok attempt ∧
      attempt.report = report ∧
      attempt.cells = (setting.permit sequential).keep report
        (job.mergedOutput default plan.slices) ∧
      ((setting.permit sequential).withholds report = false →
        attempt.calls.toList = job.mergedCalls plan.slices) := by
  have helements := tiling_ofChunks job.hits.size plan.slices
  -- The slices of targets are those of hits.
  have hslices : ((Partition.even (chunkCount job.targets.size) plan.slices).toElements
      job.targets.size).slices = ((evenSpans (chunkCount job.hits.size) plan.slices).map
        (Span.ofChunks · job.hits.size)).map Slice.ofSpan := by
    rw [h.size_hits]
    exact Partition.toElements_slices _ (Partition.slices_even ..)
  simp only [divideScatterVector, hslices]
  generalize hspans : (evenSpans (chunkCount job.hits.size) plan.slices).map
    (Span.ofChunks · job.hits.size) = spans at helements ⊢
  obtain ⟨report, hphases⟩ := scatterPhase_tasks
    (helements.forall_map fun _ hle hstop => h.targetTask_sound hle (h.size_hits ▸ hstop))
    setting plan
  refine ⟨report, fun sequential => ?_⟩
  obtain ⟨calls, phases, hphase, hcalls⟩ := hphases sequential
  simp only [Fault.ok_bind, targetTasks_shares, hphase, Setting.keep]
  cases hwithholds : (setting.permit sequential).withholds report with
  | true => exact ⟨_, rfl, rfl, rfl, fun hreleased => by cases hreleased⟩
  | false =>
    -- The calls of merging follow those of the workers.
    have hmerge := job.mergeOutputs_returns plan.slices hspans.symm calls
    simp only [Bool.false_eq_true, if_false, StateT.run, hmerge, Fault.ok_bind]
    refine ⟨_, rfl, rfl, congrArg some (Span.map_table ..), fun _ => ?_⟩
    rw [Array.toList_append, hcalls hwithholds, mergedCalls, sliceWindows, hspans,
      List.flatMap_map, List.flatMap_map]
    rfl

/-! ## §5 Running a job -/

/-- What a strategy with `count` workers gives. -/
def outputOf (job : ScatterJob α) (default : α) (count : Nat) : Strategy → Array α
  | .divideOutputRange => job.output default
  | .divideScatterVector => job.mergedOutput default count

/-- Where the conflict function is associative, or where there is none, merging the outputs of any
number of workers gives the output of the sequential scatter. -/
theorem mergedOutput_eq_output (job : ScatterJob α) (default : α) (count : Nat)
    (hassoc : ∀ f, job.conflict = some f → ∀ a b c, f (f a b) c = f a (f b c)) :
    job.mergedOutput default count = job.output default := by
  simp only [mergedOutput, output, sliceOutputs, flatten_sliceWindows,
    PrivateOutput.mergedAt_eq_gathered job.conflict hassoc]

/-- What a job gives under a plan and a strategy. -/
def resultOf (job : ScatterJob α) (default : α) (setting : Setting) : Array α :=
  if (setting.plan .scatter job.targets.size).isParallel then
    job.outputOf default setting.workerCount (job.strategy setting.config)
  else job.output default

theorem size_resultOf (job : ScatterJob α) (default : α) (setting : Setting) :
    (job.resultOf default setting).size = job.length := by
  rw [resultOf]
  split
  · cases job.strategy setting.config <;> exact Span.size_table ..
  · exact Span.size_table ..

/-- The calls of a strategy with `count` workers. -/
def callsOf (job : ScatterJob α) (count : Nat) : Strategy → List (α × α)
  | .divideOutputRange => (evenSpans job.length count).flatMap fun span =>
      hitCalls job.conflict [] (hitsIn span job.hits.toList)
  | .divideScatterVector => job.mergedCalls count

/-- The calls of a job under a plan and a strategy. -/
def callsIn (job : ScatterJob α) (setting : Setting) : List (α × α) :=
  if (setting.plan .scatter job.targets.size).isParallel then
    job.callsOf setting.workerCount (job.strategy setting.config)
  else hitCalls job.conflict [] job.hits.toList

/-- Every job that can be run is run to its end under every host, and ends in one report whether or
not it may run sequentially. It comes to what the job gives unless that is withheld, and if it has a
result it has made the calls that this takes. -/
theorem Ready.run_ends (h : job.Ready) (setting : Setting) (default : α) :
    ∃ report : Report, ∀ sequential, ∃ run,
      job.run (setting.permit sequential) default = .ok run ∧
      run.result = (report.check setting.config).map (fun checked =>
        ((setting.permit sequential).release report
          (.ofArray setting.newBuffer (job.resultOf default setting)), checked)) ∧
      ∀ result, run.result = .ok result → (setting.permit sequential).withholds report = false →
        run.calls.toList = job.callsIn setting := by
  have hplan : ∀ sequential, (setting.permit sequential).plan .scatter job.targets.size =
      setting.plan .scatter job.targets.size := fun _ => rfl
  have hslices : (setting.plan .scatter job.targets.size).slices = setting.workerCount := rfl
  simp only [resultOf, callsIn, ScatterJob.run, hplan, ← hslices]
  generalize setting.plan .scatter job.targets.size = plan
  by_cases hparallel : plan.isParallel = true
  · simp only [if_pos hparallel]
    -- Either strategy leaves its output, or none because it was not permitted to finish.
    have hstrategy : ∀ sequential, job.strategy (setting.permit sequential).config =
      job.strategy setting.config := fun _ => rfl
    simp only [hstrategy]
    cases job.strategy setting.config with
    | divideOutputRange =>
      obtain ⟨report, hattempts⟩ := h.divideOutputRange_eq setting plan default
      refine ⟨report, fun sequential => ?_⟩
      obtain ⟨attempt, hattempt, rfl, hcells, hcalls⟩ := hattempts sequential
      simp only [hattempt, Fault.ok_bind, hcells, Setting.elim_keep]
      exact ⟨_, rfl, rfl, fun _ _ => hcalls⟩
    | divideScatterVector =>
      obtain ⟨report, hattempts⟩ := h.divideScatterVector_eq setting plan default
      refine ⟨report, fun sequential => ?_⟩
      obtain ⟨attempt, hattempt, rfl, hcells, hcalls⟩ := hattempts sequential
      simp only [hattempt, Fault.ok_bind, hcells, Setting.elim_keep]
      exact ⟨_, rfl, rfl, fun _ _ => hcalls⟩
  · have halone := job.scatterAlone_returns default h.inside #[]
    simp only [if_neg hparallel]
    refine ⟨.sequential plan, fun sequential => ?_⟩
    -- The expectation is held against the plan, before anything is written.
    have hsame : (Report.sequential plan).check (setting.permit sequential).config =
      (Report.sequential plan).check setting.config := rfl
    rw [hsame]
    cases (Report.sequential plan).check setting.config with
    | error cause => exact ⟨_, rfl, rfl, fun result hresult => by cases hresult⟩
    | ok report =>
      cases sequential with
      | true =>
        simp only [Setting.permit, if_true, StateT.run, halone, Fault.ok_bind]
        exact ⟨_, rfl, rfl, fun _ _ _ => by simp⟩
      | false => exact ⟨_, rfl, rfl, fun _ _ hreleased => by cases hreleased⟩

/-- A run of a job that may use the sequential path. -/
theorem Ready.run_eq (h : job.Ready) (setting : Setting) (default : α)
    (hsequential : setting.config.sequential = true) :
    ∃ (run : Run (α × α) (View α)) (report : Report), job.run setting default = .ok run ∧
      run.result = (report.check setting.config).map fun report =>
        (View.ofArray setting.newBuffer (job.resultOf default setting), report) := by
  obtain ⟨report, hruns⟩ := h.run_ends setting default
  obtain ⟨run, hrun, hresult, -⟩ := hruns setting.config.sequential
  rw [Setting.permit_self, Setting.release_of_sequential _ hsequential] at hresult
  exact ⟨run, report, hrun, hresult⟩

end ScatterJob

/-! ## §6 What a scatter leaves -/

/-- The scatter of some hits. A position that is not hit holds the default. With a conflict
function every other one holds its values, each new one combined with what was there before;
without one it holds the only value aimed at it. -/
structure IsScatter (conflict : Option (α → α → α)) (hits : List (Nat × α)) (default : α)
    (length : Nat) (out : Array α) : Prop where
  size_eq : out.size = length
  default_at : ∀ p < length, aimedAt hits p = [] → out[p]? = some default
  nested_at : ∀ f, conflict = some f → ∀ p < length, ∀ v rest, aimedAt hits p = v :: rest →
    out[p]? = some (rest.foldl (fun existing new => f new existing) v)
  single_at : conflict = none → ∀ p < length, ∀ v rest, aimedAt hits p = v :: rest →
    rest = [] ∧ out[p]? = some v

theorem gathered_of_aimedAt_eq_cons {conflict : Option (α → α → α)} {hits : List (Nat × α)}
    {p : Nat} {v : α} {rest : List α} (h : aimedAt hits p = v :: rest) :
    gathered conflict hits p = some (rest.foldl (collided conflict) v) := by
  rw [gathered, h, foldFrom_cons, combine_none, foldFrom_some]

/-- The output of the sequential scatter is the scatter of its hits. -/
theorem ScatterJob.isScatter_output (job : ScatterJob α) (default : α)
    (hsingle : job.conflict = none → (job.hits.toList.map (·.1)).Nodup) :
    IsScatter job.conflict job.hits.toList default job.length (job.output default) := by
  -- A cell is what has been gathered at its position, or the default.
  have hentry : ∀ p < job.length, (job.output default)[p]? =
      some ((gathered job.conflict job.hits.toList p).getD default) := by
    intro p hp
    exact Span.getElem?_table _ (Span.contains_iff.mpr ⟨Nat.zero_le p, hp⟩)
  refine ⟨Span.size_table .., ?_, ?_, ?_⟩
  · intro p hp hnone
    rw [hentry p hp, gathered, hnone]
    rfl
  · intro f hf p hp v rest haimed
    rw [hentry p hp, gathered_of_aimedAt_eq_cons haimed, hf]
    rfl
  · -- Where no position is hit twice nothing is combined.
    intro hnone p hp v rest haimed
    have hcount := List.nodup_iff_count.mp (hsingle hnone) p
    rw [← length_aimedAt, haimed, List.length_cons] at hcount
    obtain rfl : rest = [] := List.length_eq_zero_iff.mp (by omega)
    refine ⟨rfl, ?_⟩
    rw [hentry p hp, gathered_of_aimedAt_eq_cons haimed]
    rfl

/-! ## §7 Scattering a view -/

def View.scatterJob (source : View α) (positions : List Nat) (length : Nat)
    (conflict : Option (α → α → α)) : ScatterJob α :=
  ⟨source.toArray.extract 0 positions.length, positions.toArray, length, conflict⟩

section

variable {source : View α} {targets : Array Target} {length : Nat}
  {conflict : Option (α → α → α)} {positions : List Nat}

theorem View.scatterJob_ready (hvalid : source.Valid) (hrank : source.rank = 1)
    (haccepts : Accepts targets source.length length conflict positions) :
    (source.scatterJob positions length conflict).Ready where
  size_eq := by
    have hlength := haccepts.length_eq
    rw [← View.size_toArray_eq_length hvalid hrank] at hlength
    simp only [View.scatterJob, List.size_toArray, Array.size_extract]
    omega
  inside p hp := haccepts.lt_length p (by simpa [View.scatterJob] using hp)

/-- The values that have a target are there. -/
theorem View.extract_values (hvalid : source.Valid) (hrank : source.rank = 1) (count : Nat) :
    Fault.checkedExtract source.toArray 0 (min count source.length) =
      .ok (source.toArray.extract 0 (min count source.length)) := by
  have hsize := View.size_toArray_eq_length hvalid hrank
  exact if_pos ⟨Nat.zero_le _, by omega⟩

/-- Once its targets are accepted a scatter is the run of its job. -/
theorem View.scatter_eq (setting : Setting) (default : α) (hvalid : source.Valid)
    (hrank : source.rank = 1) (haccepts : Accepts targets source.length length conflict positions) :
    source.scatter setting targets default length conflict =
      (source.scatterJob positions length conflict).run setting default := by
  simp only [View.scatter, hrank, ne_eq, not_true, if_false, View.window_eq hvalid, Fault.ok_bind,
    View.extract_values hvalid hrank, haccepts.resolved, View.scatterJob, haccepts.length_eq]
  cases conflict with
  | none =>
    -- Only without a conflict function are repetitions looked for.
    simp [haccepts.distinct rfl]
  | some f => rfl

theorem View.length_positions_le (hvalid : source.Valid) (hrank : source.rank = 1)
    (haccepts : Accepts targets source.length length conflict positions) :
    positions.length ≤ source.toArray.toList.length := by
  have hlength := haccepts.length_eq
  have hsize := View.size_toArray_eq_length hvalid hrank
  rw [← Array.length_toList] at hsize
  omega

theorem View.hits_scatterJob (hvalid : source.Valid) (hrank : source.rank = 1)
    (haccepts : Accepts targets source.length length conflict positions) :
    (source.scatterJob positions length conflict).hits.toList =
      positions.zip source.toArray.toList := by
  have hle := View.length_positions_le hvalid hrank haccepts
  rw [List.zip_eq_zip_take_min, Nat.min_eq_left hle, List.take_length]
  simp [ScatterJob.hits, View.scatterJob, List.extract_eq_take_drop]

/-- The hits of a view are aimed at the positions of its targets. -/
theorem View.map_fst_hits_scatterJob (hvalid : source.Valid) (hrank : source.rank = 1)
    (haccepts : Accepts targets source.length length conflict positions) :
    (source.scatterJob positions length conflict).hits.toList.map (·.1) = positions := by
  have hle := View.length_positions_le hvalid hrank haccepts
  rw [View.hits_scatterJob hvalid hrank haccepts, List.map_fst_zip hle]

theorem View.nodup_hits_scatterJob (hvalid : source.Valid) (hrank : source.rank = 1)
    (haccepts : Accepts targets source.length length conflict positions)
    (hnone : conflict = none) :
    ((source.scatterJob positions length conflict).hits.toList.map (·.1)).Nodup := by
  rw [View.map_fst_hits_scatterJob hvalid hrank haccepts]
  exact haccepts.nodup hnone

/-- A scatter whose strategy gives the output of the sequential one ends in it. -/
theorem View.scatter_ends (setting : Setting) (default : α) (hvalid : source.Valid)
    (hrank : source.rank = 1) (haccepts : Accepts targets source.length length conflict positions)
    (hsequential : setting.config.sequential = true)
    (houtput : ∀ job : ScatterJob α, job.conflict = conflict →
      job.outputOf default setting.workerCount (job.strategy setting.config) =
        job.output default) :
    ∃ run, source.scatter setting targets default length conflict = .ok run ∧
      run.Ends setting.config fun out =>
        out.shape = .vector length ∧
        (∃ calls, (scatterAlone (source.scatterJob positions length conflict) default).run #[] =
          .ok (out.toArray, calls)) ∧
        IsScatter conflict (positions.zip source.toArray.toList) default length out.toArray := by
  have hready := View.scatterJob_ready hvalid hrank haccepts
  obtain ⟨run, report, hrun, hresult⟩ := hready.run_eq setting default hsequential
  -- Whether the plan is parallel or not, the output is that of the sequential scatter.
  rw [ScatterJob.resultOf, houtput _ rfl, ite_self] at hresult
  have halone := (source.scatterJob positions length conflict).scatterAlone_returns default
    hready.inside #[]
  have hscatter := (source.scatterJob positions length conflict).isScatter_output default
    (View.nodup_hits_scatterJob hvalid hrank haccepts)
  rw [View.hits_scatterJob hvalid hrank haccepts] at hscatter
  refine ⟨run, by rw [View.scatter_eq setting default hvalid hrank haccepts, hrun],
    .of_check hresult ⟨?_, ⟨_, by rw [View.toArray_ofArray]; exact halone⟩, ?_⟩⟩
  · exact congrArg Shape.vector hscatter.size_eq
  · rw [View.toArray_ofArray]
    exact hscatter

/-- **Dividing the output refines the sequential scatter**, whatever the conflict function. -/
theorem View.scatter_divideOutputRange (setting : Setting) (default : α) (hvalid : source.Valid)
    (hrank : source.rank = 1) (haccepts : Accepts targets source.length length conflict positions)
    (hstrategy : setting.config.strategy = some .divideOutputRange)
    (hsequential : setting.config.sequential = true) :
    ∃ run, source.scatter setting targets default length conflict = .ok run ∧
      run.Ends setting.config fun out =>
        out.shape = .vector length ∧
        (∃ calls, (scatterAlone (source.scatterJob positions length conflict) default).run #[] =
          .ok (out.toArray, calls)) ∧
        IsScatter conflict (positions.zip source.toArray.toList) default length out.toArray := by
  apply View.scatter_ends setting default hvalid hrank haccepts hsequential
  intro job _
  rw [ScatterJob.strategy, hstrategy]
  rfl

/-- Three differences at two positions, one of them hit twice. -/
theorem View.scatter_divideOutputRange_sub :
    ∃ run, (View.ofArray 0 #[5, 7, 9]).scatter
        { host := BailSchedule.always.host
          config := Config.withStrategy {} .divideOutputRange }
        #[.unsigned 1, .unsigned 3, .signed 1] (0 : Int) 4 (some (· - ·)) = .ok run ∧
      run.Ends (Config.withStrategy {} .divideOutputRange) fun out =>
        out.shape = .vector 4 ∧
        (∃ calls, (scatterAlone ((View.ofArray 0 #[5, 7, 9]).scatterJob [1, 3, 1] 4
          (some (· - ·))) (0 : Int)).run #[] = .ok (out.toArray, calls)) ∧
        IsScatter (some (· - ·)) [(1, 5), (3, 7), (1, 9)] 0 4 out.toArray := by
  have hvalid : (View.ofArray 0 #[(5 : Int), 7, 9]).Valid := ⟨rfl, by decide⟩
  have haccepts : Accepts #[.unsigned 1, .unsigned 3, .signed 1] 3 4
      (some fun new existing : Int => new - existing) [1, 3, 1] := ⟨rfl, fun h => by cases h⟩
  exact View.scatter_divideOutputRange
    { host := BailSchedule.always.host, config := Config.withStrategy {} .divideOutputRange } 0
    hvalid rfl haccepts rfl rfl

/-- **Dividing the targets refines the sequential scatter** if the conflict function is
associative, or if there is none. -/
theorem View.scatter_divideScatterVector (setting : Setting) (default : α) (hvalid : source.Valid)
    (hrank : source.rank = 1) (haccepts : Accepts targets source.length length conflict positions)
    (hassoc : ∀ f, conflict = some f → ∀ a b c, f (f a b) c = f a (f b c))
    (hstrategy : setting.config.strategy = some .divideScatterVector)
    (hsequential : setting.config.sequential = true) :
    ∃ run, source.scatter setting targets default length conflict = .ok run ∧
      run.Ends setting.config fun out =>
        out.shape = .vector length ∧
        (∃ calls, (scatterAlone (source.scatterJob positions length conflict) default).run #[] =
          .ok (out.toArray, calls)) ∧
        IsScatter conflict (positions.zip source.toArray.toList) default length out.toArray := by
  apply View.scatter_ends setting default hvalid hrank haccepts hsequential
  intro job hconflict
  rw [ScatterJob.strategy, hstrategy]
  -- Only merging needs that the conflicts may be grouped anew.
  exact job.mergedOutput_eq_output default _ (hconflict ▸ hassoc)

/-- Three lists at two positions, two of which are concatenated. -/
theorem View.scatter_divideScatterVector_append :
    ∃ run, (View.ofArray 0 #[[5], [7], [9]]).scatter
        { host := BailSchedule.always.host
          config := Config.withStrategy {} .divideScatterVector }
        #[.unsigned 1, .unsigned 3, .signed 1] ([] : List Nat) 4 (some (· ++ ·)) = .ok run ∧
      run.Ends (Config.withStrategy {} .divideScatterVector) fun out =>
        out.shape = .vector 4 ∧
        (∃ calls, (scatterAlone ((View.ofArray 0 #[[5], [7], [9]]).scatterJob [1, 3, 1] 4
          (some (· ++ ·))) ([] : List Nat)).run #[] = .ok (out.toArray, calls)) ∧
        IsScatter (some (· ++ ·)) [(1, [5]), (3, [7]), (1, [9])] [] 4 out.toArray := by
  have hvalid : (View.ofArray 0 #[[5], [7], [9]]).Valid := ⟨rfl, by decide⟩
  have haccepts : Accepts #[.unsigned 1, .unsigned 3, .signed 1] 3 4
      (some fun new existing : List Nat => new ++ existing) [1, 3, 1] :=
    ⟨rfl, fun h => by cases h⟩
  have hassoc : ∀ f, some (fun new existing : List Nat => new ++ existing) = some f →
      ∀ a b c, f (f a b) c = f a (f b c) := by
    rintro f ⟨⟩
    exact List.append_assoc
  exact View.scatter_divideScatterVector
    { host := BailSchedule.always.host, config := Config.withStrategy {} .divideScatterVector } []
    hvalid rfl haccepts hassoc rfl rfl

end

end ForkJoin
