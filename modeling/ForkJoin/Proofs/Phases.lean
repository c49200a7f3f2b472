import ForkJoin.Operation.Reduce
import ForkJoin.Operation.Scan
import ForkJoin.Operation.Sweep
import ForkJoin.Proofs.Attempts
import ForkJoin.Proofs.Runs
import ForkJoin.Proofs.Tiling
import ForkJoin.Scatter.Basic

/-!
# The phases of operations

Whatever an operation makes of the outcome, it runs its phases in one of a few ways: it makes no
parallel attempt, it runs one phase, or it runs a second one after the first has completed. What
follows the phases runs no further ones, and ends in the report on them unless there turns out to be
no result. What is known of a single phase thereby becomes known of all operations.

## Main definitions
- `Setting.RunsOnce`, `Setting.RunsScan`, `Setting.RunsScatter`: the phases of an operation, with
  the report on them.
- `Setting.RunsStrategy`: those of a scatter under one strategy.
- `Run.Leaves`: a run that leaves such phases.

## Main statements
- `Run.Leaves.conclude`: turning the result into another one leaves the phases as they are.
- `sweep_leaves`, `View.reduce_leaves`, `View.scan_leaves`, `ScatterJob.run_leaves`: the operations
  one by one.
-/

namespace ForkJoin

variable {α γ σ ρ τ : Type} {setting : Setting} {plan : Plan}

/-! ## §1 Phases and runs -/

/-- The slices of all workers, each with its first state. -/
def Plan.shares (plan : Plan) (state : Slice → σ) : List (Slice × σ) :=
  (Partition.even plan.chunks plan.slices).slices.map fun slice => (slice, state slice)

/-- The phases of an operation that runs a single one, with the report on them. -/
inductive Setting.RunsOnce (setting : Setting) (plan : Plan) (op : Operation) (kernel : Kernel γ σ)
    (shares : List (Slice × σ)) : Report → List PhaseTrace → Prop where
  | sequential (hplan : plan.isParallel = false) :
      RunsOnce setting plan op kernel shares (.sequential plan) []
  | parallel {outcome : PhaseOutcome} {phase : Phase γ σ} (hplan : plan.isParallel = true)
      (hphase : (Phase.start shares).run kernel setting.host op setting.config.mode =
        .ok (outcome, phase)) :
      RunsOnce setting plan op kernel shares (.ofPhase plan outcome) [phase.trace]

/-- A run rejects its input before any phase, or it leaves some phases and ends in the report on
them, unless it finds that there is no result. -/
inductive Run.Leaves (run : Run γ ρ) (config : Config)
    (phases : Report → List PhaseTrace → Prop) : Prop where
  | rejected {cause : InputError} (h : run = .rejected cause)
  | refused {cause : InputError} {report : Report} (hphases : phases report run.phases)
      (h : run.result = .error (.input cause))
  | ended {report : Report} (hphases : phases report run.phases) (h : run.EndsIn config report)

theorem Run.Leaves.imp {run : Run γ ρ} {config : Config}
    {phases weaker : Report → List PhaseTrace → Prop} (h : run.Leaves config phases)
    (himp : ∀ report traces, phases report traces → weaker report traces) :
    run.Leaves config weaker := by
  cases h with
  | rejected h => exact .rejected h
  | refused hphases h => exact .refused (himp _ _ hphases) h
  | ended hphases h => exact .ended (himp _ _ hphases) h

/-- Turning the result into another one runs no phase, and keeps the report. -/
theorem Run.Leaves.conclude {run : Run γ ρ} {config : Config}
    {phases : Report → List PhaseTrace → Prop} {next : ρ → Except Fault (Except InputError τ)}
    {final : Run γ τ} (h : run.Leaves config phases) (hfinal : run.conclude next = .ok final) :
    final.Leaves config phases := by
  have hsame := (Run.same_of_conclude hfinal).2
  rw [Run.conclude] at hfinal
  cases h with
  | rejected h =>
    subst h
    cases hfinal
    exact .rejected rfl
  | refused hphases h =>
    rw [h] at hfinal
    cases hfinal
    exact .refused (hsame ▸ hphases) rfl
  | @ended report hphases h =>
    rw [← hsame] at hphases
    cases hsatisfies : report.satisfies config.effectiveExpectation with
    | false =>
      -- A complaint is handed on.
      rw [h.error_iff.mpr hsatisfies] at hfinal
      cases hfinal
      exact .ended hphases (.of_error (by simp [Report.check, hsatisfies]) rfl)
    | true =>
      obtain ⟨out, hout⟩ := h.ok_iff.mpr hsatisfies
      rw [hout] at hfinal
      obtain ⟨concluded, -, hfinal⟩ := Fault.bind_eq_ok.mp hfinal
      cases concluded with
      | error cause =>
        cases hfinal
        exact .refused hphases rfl
      | ok result =>
        cases hfinal
        exact .ended hphases (.of_ok (by simp [Report.check, hsatisfies]) rfl)

/-! ## §2 Sweeps -/

section

variable {kernel : Kernel γ σ} {op : Operation} {state : Slice → σ}

theorem runsOnce_of_attemptSweep {attempt : SweepAttempt γ σ}
    (h : attemptSweep setting op plan kernel state = .ok attempt) :
    setting.RunsOnce plan op kernel (plan.shares state) attempt.report attempt.phases := by
  rw [attemptSweep] at h
  split at h
  · rename_i hparallel
    obtain ⟨⟨outcome, phase⟩, hphase, h⟩ := Fault.bind_eq_ok.mp h
    cases h
    exact .parallel hparallel hphase
  · rename_i hsequential
    cases h
    exact .sequential (by simpa using hsequential)

/-- What an attempt leaves undone is done outside of any phase. -/
theorem endsIn_of_concludeSweep {attempt : SweepAttempt γ σ} {run : Run γ (Option (List σ))}
    (h : concludeSweep setting kernel attempt = .ok run) :
    run.EndsIn setting.config attempt.report ∧ run.phases = attempt.phases := by
  simp only [concludeSweep] at h
  split at h
  all_goals
    obtain ⟨phase, -, h⟩ := Fault.bind_eq_ok.mp h
    cases h
    exact ⟨.of_check rfl, rfl⟩

theorem sweep_leaves {length : Nat} {run : Run γ (Option (List σ))}
    (h : sweep setting op length kernel state = .ok run) :
    run.Leaves setting.config (setting.RunsOnce (setting.plan op length) op kernel
      ((setting.plan op length).shares state)) := by
  obtain ⟨attempt, hattempt, hconclude⟩ := Fault.bind_eq_ok.mp h
  obtain ⟨hends, hphases⟩ := endsIn_of_concludeSweep hconclude
  apply Run.Leaves.ended _ hends
  rw [hphases]
  exact runsOnce_of_attemptSweep hattempt

end

/-! ## §3 Reductions -/

/-- Folding some values runs no phase. It finds that there is no result if there are no values. -/
theorem leaves_of_concludeFold {report : Report} {calls : Array (α × α)} {traces : List PhaseTrace}
    {phases : Report → List PhaseTrace → Prop} {f : α → α → α} {values : List α}
    {run : Run (α × α) α} (hphases : phases report traces)
    (h : concludeFold (report.check setting.config) calls traces f values = .ok run) :
    run.Leaves setting.config phases := by
  cases hcheck : report.check setting.config with
  | error error =>
    rw [hcheck] at h
    cases h
    exact .ended hphases (.of_error hcheck rfl)
  | ok checked =>
    rw [hcheck] at h
    obtain ⟨⟨value, calls⟩, -, h⟩ := Fault.bind_eq_ok.mp h
    -- There is no value to report if there were none to fold.
    cases value with
    | none =>
      cases h
      exact .refused hphases rfl
    | some value =>
      cases h
      exact .ended hphases (.of_ok hcheck rfl)

theorem View.toArray_of_window {source : View α} {cells : Array α} (h : source.window = .ok cells) :
    cells = source.toArray := by
  rw [window, Fault.checkedExtract] at h
  split at h
  · cases h
    rfl
  · cases h

theorem View.reduce_leaves {source : View α} {f : α → α → α} {run : Run (α × α) α}
    (h : source.reduce setting f = .ok run) :
    run.Leaves setting.config (setting.RunsOnce (setting.plan .reduce source.toArray.size) .reduce
      (reduceKernel source.toArray f)
      ((setting.plan .reduce source.toArray.size).shares fun _ => none)) := by
  unfold View.reduce at h
  split at h
  · cases h
    exact .rejected rfl
  -- The rank has been checked, and the cells are all cells of the view.
  obtain ⟨cells, hwindow, h⟩ := Fault.bind_eq_ok.mp h
  obtain rfl := toArray_of_window hwindow
  split at h
  · cases h
    exact .rejected rfl
  simp only at h
  split at h
  · rename_i hparallel
    obtain ⟨⟨outcome, phase⟩, hphase, h⟩ := Fault.bind_eq_ok.mp h
    exact leaves_of_concludeFold (.parallel hparallel hphase) h
  · rename_i hsequential
    exact leaves_of_concludeFold (.sequential (by simpa using hsequential)) h

/-! ## §4 Scans -/

/-- The phases of a scan. In the first one the units are the chunks of the slices, in the second one
their elements, none of which is left where there is no carry. There is no second phase after a
fallback of the first one. -/
inductive Setting.RunsScan (setting : Setting) (plan : Plan) (length : Nat) (f : α → α → α) :
    Report → List PhaseTrace → Prop where
  | sequential (hplan : plan.isParallel = false) :
      RunsScan setting plan length f (.sequential plan) []
  | fallback {shares : List (Slice × ScanWindow α)} {first : PhaseOutcome}
      {scanned : Phase (α × α) (ScanWindow α)} (hplan : plan.isParallel = true)
      (hshares : ∀ share ∈ shares, share.1 ∈ (Partition.even plan.chunks plan.slices).slices)
      (hfirst : (Phase.start shares).run (scanKernel length f) setting.host .scan
        setting.config.mode = .ok (first, scanned))
      (hfallback : first.isCompleted = false) :
      RunsScan setting plan length f (.ofPhase plan first) [scanned.trace]
  | both {shares : List (Slice × ScanWindow α)} {first second : PhaseOutcome}
      {scanned : Phase (α × α) (ScanWindow α)} {carries : List (Slice × CarryWindow α)}
      {carried : Phase (α × α) (CarryWindow α)} (hplan : plan.isParallel = true)
      (hshares : ∀ share ∈ shares, share.1 ∈ (Partition.even plan.chunks plan.slices).slices)
      (hfirst : (Phase.start shares).run (scanKernel length f) setting.host .scan
        setting.config.mode = .ok (first, scanned))
      (hcompleted : first.isCompleted = true)
      (hcarries : ∀ share ∈ carries,
        ∃ slice ∈ ((Partition.even plan.chunks plan.slices).toElements length).slices,
          share.1 = slice ∨ share.1 = slice.exhaust)
      (hsecond : (Phase.start carries).run (carryKernel f) setting.host .scan
        setting.config.mode = .ok (second, carried)) :
      RunsScan setting plan length f ((Report.ofPhase plan first).andThen second)
        [scanned.trace, carried.trace]

theorem runsScan_of_scanInParallel {cells : Array α} {f : α → α → α} {attempt : ScanAttempt α}
    (hplan : plan.isParallel = true) (h : scanInParallel setting plan cells f = .ok attempt) :
    setting.RunsScan plan cells.size f attempt.report attempt.phases := by
  obtain ⟨windows, -, h⟩ := Fault.bind_eq_ok.mp h
  obtain ⟨⟨first, scanned⟩, hfirst, h⟩ := Fault.bind_eq_ok.mp h
  -- A share of the first phase is a slice and its window.
  have hshares : ∀ share ∈ ((Partition.even plan.chunks plan.slices).slices.zip windows).map
      (fun owned => (owned.1,
        ScanWindow.mk (Span.ofChunks owned.1.toSpan cells.size).start owned.2)),
      share.1 ∈ (Partition.even plan.chunks plan.slices).slices := by
    intro share hmem
    obtain ⟨⟨slice, window⟩, howned, rfl⟩ := List.mem_map.mp hmem
    exact (List.of_mem_zip howned).1
  simp only at h
  split at h
  · rename_i hfallback
    cases h
    exact .fallback hplan hshares hfirst (by simpa using hfallback)
  · rename_i hcompleted
    obtain ⟨⟨carry, calls⟩, -, h⟩ := Fault.bind_eq_ok.mp h
    obtain ⟨windows, -, h⟩ := Fault.bind_eq_ok.mp h
    obtain ⟨⟨second, carried⟩, hsecond, h⟩ := Fault.bind_eq_ok.mp h
    cases h
    refine .both hplan hshares hfirst (by simpa using hcompleted) ?_ hsecond
    intro share hmem
    obtain ⟨⟨⟨slice, window⟩, carry⟩, howned, rfl⟩ := List.mem_map.mp hmem
    have hslice := (List.of_mem_zip (List.of_mem_zip howned).1).1
    -- Without a carry the slice is skipped, which leaves it finished from the beginning.
    cases carry with
    | none => exact ⟨slice, hslice, .inr rfl⟩
    | some carry => exact ⟨slice, hslice, .inl rfl⟩

/-- What an attempt gives up is scanned anew outside of any phase. -/
theorem endsIn_of_concludeScan {cells : Array α} {f : α → α → α} {attempt : ScanAttempt α}
    {run : Run (α × α) (View α)} (h : concludeScan setting cells f attempt = .ok run) :
    run.EndsIn setting.config attempt.report ∧ run.phases = attempt.phases := by
  simp only [concludeScan] at h
  split at h
  all_goals
    obtain ⟨done, -, h⟩ := Fault.bind_eq_ok.mp h
    cases h
    exact ⟨.of_check rfl, rfl⟩

theorem View.scan_leaves {source : View α} {f : α → α → α} {run : Run (α × α) (View α)}
    (h : source.scan setting f = .ok run) :
    run.Leaves setting.config
      (setting.RunsScan (setting.plan .scan source.length) source.toArray.size f) := by
  unfold View.scan at h
  split at h
  · cases h
    exact .rejected rfl
  split at h
  · cases h
    exact .rejected rfl
  -- Neither the rank nor an empty source is complained about from here on.
  obtain ⟨cells, hwindow, h⟩ := Fault.bind_eq_ok.mp h
  obtain rfl := toArray_of_window hwindow
  obtain ⟨attempt, hattempt, h⟩ := Fault.bind_eq_ok.mp h
  obtain ⟨hends, hphases⟩ := endsIn_of_concludeScan h
  apply Run.Leaves.ended _ hends
  rw [hphases]
  rw [attemptScan] at hattempt
  split at hattempt
  · rename_i hparallel
    exact runsScan_of_scanInParallel hparallel hattempt
  · rename_i hsequential
    cases hattempt
    exact .sequential (by simpa using hsequential)

/-! ## §5 Scatters -/

theorem runsOnce_of_scatterPhase {kernel : Kernel (α × α) σ} {shares : List (Slice × σ)}
    {done : Report × Option (List σ) × Array (α × α) × List PhaseTrace}
    (hplan : plan.isParallel = true) (h : scatterPhase setting plan kernel shares = .ok done) :
    setting.RunsOnce plan .scatter kernel shares done.1 done.2.2.2 := by
  obtain ⟨⟨outcome, phase⟩, hphase, h⟩ := Fault.bind_eq_ok.mp h
  simp only at h
  split at h
  · cases h
    exact .parallel hplan hphase
  split at h
  · -- The sequential pass leaves the same trace.
    obtain ⟨rest, hrest, h⟩ := Fault.bind_eq_ok.mp h
    cases h
    rw [Phase.trace_of_finishAlone hrest]
    exact .parallel hplan hphase
  · cases h
    exact .parallel hplan hphase

/-- The phase of a scatter under a strategy. There is a worker for each part of the output, or for
each slice of the targets. -/
def Setting.RunsStrategy (setting : Setting) (plan : Plan) (job : ScatterJob α) (report : Report)
    (traces : List PhaseTrace) : Strategy → Prop
  | .divideOutputRange => ∃ shares : List (Slice × OutputPart α),
      shares.map (·.1) = List.replicate (max plan.slices 1) (.ofSpan ⟨0, job.targets.size⟩) ∧
      setting.RunsOnce plan .scatter job.outputKernel shares report traces
  | .divideScatterVector =>
      setting.RunsOnce plan .scatter job.targetKernel
        (((Partition.even (chunkCount job.targets.size) plan.slices).toElements
          job.targets.size).slices.map fun slice => (slice, PrivateOutput.blank job.length))
        report traces

/-- The phases of a scatter. The units are the targets: each worker walks all of them if the output
is divided, and otherwise those of its slice. -/
def Setting.RunsScatter (setting : Setting) (plan : Plan) (job : ScatterJob α) (report : Report)
    (traces : List PhaseTrace) : Prop :=
  let count := job.targets.size
  let slices := ((Partition.even (chunkCount count) plan.slices).toElements count).slices
  (∃ shares, (∀ share ∈ shares, share.1 = .ofSpan ⟨0, count⟩) ∧
    setting.RunsOnce plan .scatter job.outputKernel shares report traces) ∨
  setting.RunsOnce plan .scatter job.targetKernel
    (slices.map fun slice => (slice, PrivateOutput.blank job.length)) report traces

section

variable {job : ScatterJob α} {default : α} {attempt : ScatterAttempt α}

theorem Setting.RunsStrategy.runsScatter {report : Report} {traces : List PhaseTrace}
    {strategy : Strategy} (h : setting.RunsStrategy plan job report traces strategy) :
    setting.RunsScatter plan job report traces := by
  cases strategy with
  | divideOutputRange =>
    obtain ⟨shares, hslices, hphase⟩ := h
    refine .inl ⟨shares, ?_, hphase⟩
    intro share hmem
    exact List.eq_of_mem_replicate (hslices ▸ List.mem_map_of_mem hmem)
  | divideScatterVector => exact .inr h

/-- A sequential plan has no phase, whatever the strategy. -/
theorem Setting.RunsStrategy.sequential (strategy : Strategy) (hplan : plan.isParallel = false) :
    setting.RunsStrategy plan job (.sequential plan) [] strategy := by
  cases strategy with
  | divideOutputRange =>
    refine ⟨List.replicate (max plan.slices 1) (.ofSpan ⟨0, job.targets.size⟩, .blank ⟨0, 0⟩ #[]), ?_,
      .sequential hplan⟩
    rw [List.map_replicate]
  | divideScatterVector => exact Setting.RunsOnce.sequential hplan

theorem runsStrategy_of_divideOutputRange (hplan : plan.isParallel = true)
    (h : job.divideOutputRange setting plan default = .ok attempt) :
    setting.RunsStrategy plan job attempt.report attempt.phases .divideOutputRange := by
  obtain ⟨windows, hwindows, h⟩ := Fault.bind_eq_ok.mp h
  obtain ⟨done, hdone, h⟩ := Fault.bind_eq_ok.mp h
  cases h
  refine ⟨_, ?_, runsOnce_of_scatterPhase hplan hdone⟩
  -- There is a window of the output for every worker.
  have hlength := length_of_splitWindows hwindows
  rw [Partition.slices_even, map_toSpan_ofSpan] at hlength ⊢
  have hcount : (evenSpans job.length plan.slices).length = max plan.slices 1 := by
    rw [evenSpans, List.length_map, List.length_range]
  rw [List.map_map, List.eq_replicate_iff, List.length_map, List.length_zip, hlength, Nat.min_self]
  refine ⟨hcount, ?_⟩
  intro slice hmem
  obtain ⟨owned, -, rfl⟩ := List.mem_map.mp hmem
  rfl

theorem runsStrategy_of_divideScatterVector (hplan : plan.isParallel = true)
    (h : job.divideScatterVector setting plan default = .ok attempt) :
    setting.RunsStrategy plan job attempt.report attempt.phases .divideScatterVector := by
  simp only [ScatterJob.divideScatterVector] at h
  obtain ⟨⟨report, states, calls, phases⟩, hdone, h⟩ := Fault.bind_eq_ok.mp h
  have hphases : setting.RunsStrategy plan job report phases .divideScatterVector :=
    runsOnce_of_scatterPhase hplan hdone
  -- Merging the outputs of the workers runs no phase.
  cases states with
  | none =>
    cases h
    exact hphases
  | some outputs =>
    obtain ⟨⟨merged, calls⟩, -, h⟩ := Fault.bind_eq_ok.mp h
    cases h
    exact hphases

end

/-- A job runs the phase of its strategy. -/
theorem ScatterJob.run_leaves_strategy {job : ScatterJob α} {default : α}
    {run : Run (α × α) (View α)} (h : job.run setting default = .ok run) :
    run.Leaves setting.config fun report traces =>
      setting.RunsStrategy (setting.plan .scatter job.targets.size) job report traces
        (job.strategy setting.config) := by
  simp only [ScatterJob.run] at h
  split at h
  · rename_i hparallel
    cases hstrategy : job.strategy setting.config <;> simp only [hstrategy] at h
    all_goals
      obtain ⟨attempt, hattempt, h⟩ := Fault.bind_eq_ok.mp h
      cases h
    · exact .ended (runsStrategy_of_divideOutputRange hparallel hattempt) (.of_check rfl)
    · exact .ended (runsStrategy_of_divideScatterVector hparallel hattempt) (.of_check rfl)
  · rename_i hsequential
    have hphases : setting.RunsStrategy (setting.plan .scatter job.targets.size) job
        (.sequential (setting.plan .scatter job.targets.size)) [] (job.strategy setting.config) :=
      .sequential _ (by simpa using hsequential)
    -- The expectation is held against the plan, before anything is written.
    cases hcheck : (Report.sequential (setting.plan .scatter job.targets.size)).check
        setting.config with
    | error error =>
      rw [hcheck] at h
      cases h
      exact .ended hphases (.of_error hcheck rfl)
    | ok checked =>
      simp only [hcheck] at h
      split at h
      · obtain ⟨⟨out, calls⟩, -, h⟩ := Fault.bind_eq_ok.mp h
        cases h
        exact .ended hphases (.of_ok hcheck rfl)
      · cases h
        exact .ended hphases (.of_ok hcheck rfl)

theorem ScatterJob.run_leaves {job : ScatterJob α} {default : α} {run : Run (α × α) (View α)}
    (h : job.run setting default = .ok run) :
    run.Leaves setting.config
      (setting.RunsScatter (setting.plan .scatter job.targets.size) job) :=
  (ScatterJob.run_leaves_strategy h).imp fun _ _ hphases => hphases.runsScatter

end ForkJoin
