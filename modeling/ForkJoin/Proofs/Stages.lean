import ForkJoin.Proofs.Reports

/-!
# Stages

The phases of an operation are stages that it goes through in order: each stage is one kernel on
slices that are known beforehand, and the next one is only reached when the one before it has
completed. The report sums up the outcomes. So whatever holds of single phases holds of every stage
of every operation.

## Main definitions
- `Slice.Begins`: the slices that phases are started on.
- `InTurn`, `Plan.RunsInTurn`: stages that follow each other as long as they complete.
- `Setting.Phased`: an operation that goes through some stages.
- `PhaseLaw`, `Setting.Lawful`: what is stated of a single phase, and that it holds of all phases.
- `Setting.Obeys`: that it holds of the stages of all operations.

## Main statements
- `Setting.RunsOnce.runsInTurn`, `ScanAttempt.Staged.runsInTurn`: the phases of operations are
  stages.
- `Setting.Lawful.obeys`: what holds of all phases holds of the stages of all operations.
-/

namespace ForkJoin

variable {α γ σ ρ τ : Type} {setting : Setting} {plan : Plan}

/-! ## §1 Slices that phases are started on -/

/-- Nothing of a slice is processed, or all of it counts as processed. -/
structure Slice.Begins (slice : Slice) : Prop where
  start_le : slice.start ≤ slice.stop
  pos_eq : slice.pos = slice.start ∨ slice.pos = slice.stop

theorem Slice.Begins.start_le_pos {slice : Slice} (h : slice.Begins) : slice.start ≤ slice.pos := by
  have hstart := h.start_le
  rcases h.pos_eq with hpos | hpos <;> omega

theorem Slice.Begins.pos_le {slice : Slice} (h : slice.Begins) : slice.pos ≤ slice.stop := by
  have hstart := h.start_le
  rcases h.pos_eq with hpos | hpos <;> omega

theorem Slice.Begins.exhaust {slice : Slice} (h : slice.Begins) : slice.exhaust.Begins :=
  ⟨h.start_le, .inr rfl⟩

theorem Tiling.begins {start stop : Nat} {spans : List Span} (h : Tiling start stop spans) :
    ∀ slice ∈ spans.map Slice.ofSpan, slice.Begins :=
  h.forall_map fun _ hle _ => ⟨hle, .inl rfl⟩

namespace Plan

/-- The slices of chunks. -/
def chunkSlices (plan : Plan) : List Slice :=
  (Partition.even plan.chunks plan.slices).slices

/-- The elements of these slices. -/
def elementSlices (plan : Plan) : List Slice :=
  ((Partition.even plan.chunks plan.slices).toElements plan.length).slices

theorem chunkSlices_eq (plan : Plan) :
    plan.chunkSlices = (evenSpans plan.chunks plan.slices).map Slice.ofSpan :=
  Partition.slices_even ..

theorem elementSlices_eq (plan : Plan) : plan.elementSlices =
    ((evenSpans plan.chunks plan.slices).map (Span.ofChunks · plan.length)).map Slice.ofSpan :=
  Partition.toElements_slices _ (Partition.slices_even ..)

theorem begins_of_chunkSlices : ∀ slice ∈ plan.chunkSlices, slice.Begins := by
  rw [chunkSlices_eq]
  exact (tiling_evenSpans plan.chunks plan.slices).begins

theorem begins_of_elementSlices : ∀ slice ∈ plan.elementSlices, slice.Begins := by
  rw [elementSlices_eq]
  exact ((tiling_evenSpans plan.chunks plan.slices).ofChunks plan.length).begins

/-- The first slice may be skipped. -/
theorem begins_of_skipped :
    ∀ slice ∈ plan.elementSlices.modifyHead Slice.exhaust, slice.Begins := by
  have hbegins := plan.begins_of_elementSlices
  cases hslices : plan.elementSlices with
  | nil => simp
  | cons first rest =>
    rw [hslices, List.forall_mem_cons] at hbegins
    exact List.forall_mem_cons.mpr ⟨hbegins.1.exhaust, hbegins.2⟩

theorem map_fst_shares (state : Slice → σ) : (plan.shares state).map (·.1) = plan.chunkSlices := by
  rw [shares, List.map_map]
  exact List.map_id _

end Plan

/-! ## §2 Stages in turn -/

/-- What is known of a phase by its place in an operation, in terms of its outcome and its trace. -/
abbrev Stage := PhaseOutcome → PhaseTrace → Prop

/-- Stages that follow each other as long as they complete. A fallback is the last of them. -/
inductive InTurn : List Stage → List PhaseOutcome → List PhaseTrace → Prop where
  | none : InTurn [] [] []
  | fallback {stage : Stage} {rest : List Stage} {outcome : PhaseOutcome} {trace : PhaseTrace}
      (hstage : stage outcome trace) (hfallback : outcome.isCompleted = false) :
      InTurn (stage :: rest) [outcome] [trace]
  | next {stage : Stage} {rest : List Stage} {outcome : PhaseOutcome} {trace : PhaseTrace}
      {outcomes : List PhaseOutcome} {traces : List PhaseTrace}
      (hstage : stage outcome trace) (hcompleted : outcome.isCompleted = true)
      (hrest : InTurn rest outcomes traces) :
      InTurn (stage :: rest) (outcome :: outcomes) (trace :: traces)

theorem InTurn.single {stage : Stage} {outcome : PhaseOutcome} {trace : PhaseTrace}
    (h : stage outcome trace) : InTurn [stage] [outcome] [trace] := by
  cases hcompleted : outcome.isCompleted with
  | true => exact .next h hcompleted .none
  | false => exact .fallback h hcompleted

/-- The report on phases with the given outcomes. -/
def Report.ofOutcomes (plan : Plan) : List PhaseOutcome → Report
  | [] => .sequential plan
  | first :: rest => rest.foldl Report.andThen (.ofPhase plan first)

/-- A parallel plan goes through the stages in turn, a sequential one through none, and the report
sums up the outcomes. -/
def Plan.RunsInTurn (plan : Plan) (stages : List Stage) (report : Report)
    (traces : List PhaseTrace) : Prop :=
  ∃ outcomes, report = .ofOutcomes plan outcomes ∧
    InTurn (if plan.isParallel then stages else []) outcomes traces

/-- A parallel plan goes through a single stage in one phase. -/
theorem Plan.RunsInTurn.single {stage : Stage} {outcome : PhaseOutcome} {trace : PhaseTrace}
    (hplan : plan.isParallel = true) (h : stage outcome trace) :
    plan.RunsInTurn [stage] (.ofPhase plan outcome) [trace] := by
  refine ⟨[outcome], rfl, ?_⟩
  rw [if_pos hplan]
  exact .single h

theorem Plan.RunsInTurn.sequential (stages : List Stage) (hplan : plan.isParallel = false) :
    plan.RunsInTurn stages (.sequential plan) [] := by
  refine ⟨[], rfl, ?_⟩
  rw [hplan, if_neg Bool.false_ne_true]
  exact .none

/-- An operation runs to its end, and its phases are those of the stages it goes through. -/
def Setting.Phased (setting : Setting) (plan : Plan)
    (operation : Setting → Except Fault (Run γ ρ)) (stages : List Stage) : Prop :=
  ∃ run report, operation setting = .ok run ∧ run.EndsIn setting.config report ∧
    plan.RunsInTurn stages report run.phases

/-! ## §3 Laws of phases -/

/-- A statement on a phase: on its operation and kernel, on the shares that it was started on, and
on what it has come to. -/
abbrev PhaseLaw :=
  ∀ γ σ : Type, Operation → Kernel γ σ → List (Slice × σ) → PhaseOutcome → Phase γ σ → Prop

/-- A law holds of every phase that runs in a setting, whatever its kernel. -/
def Setting.Lawful (setting : Setting) (law : PhaseLaw) : Prop :=
  ∀ {γ σ : Type} {op : Operation} {kernel : Kernel γ σ} {shares : List (Slice × σ)}
    {outcome : PhaseOutcome} {final : Phase γ σ}, (∀ share ∈ shares, share.1.Begins) →
    (Phase.start shares).run kernel setting.host op setting.config.mode = .ok (outcome, final) →
    law γ σ op kernel shares outcome final

/-- The stage that runs a kernel with the given warmup on the given slices, under a law. -/
def Setting.stage (setting : Setting) (law : PhaseLaw) (op : Operation) (kernel : Kernel γ σ)
    (warmup : Nat) (slices : List Slice) : Stage := fun outcome trace =>
  kernel.warmup = warmup ∧ ∃ (shares : List (Slice × σ)) (final : Phase γ σ),
    shares.map (·.1) = slices ∧
    (Phase.start shares).run kernel setting.host op setting.config.mode = .ok (outcome, final) ∧
    final.trace = trace ∧ law γ σ op kernel shares outcome final

/-- The stages of a scan. The second one skips the first slice, which has no carry. -/
def Setting.scanStages (setting : Setting) (law : PhaseLaw) (plan : Plan) (f : α → α → α) :
    List Stage :=
  [setting.stage law .scan (scanKernel plan.length f) 2 plan.chunkSlices,
    setting.stage law .scan (carryKernel f) 32 (plan.elementSlices.modifyHead Slice.exhaust)]

/-- The stage of a scatter. Each worker walks all targets if the output is divided, and otherwise
those of its slice. -/
def Setting.scatterStage (setting : Setting) (law : PhaseLaw) (plan : Plan) (job : ScatterJob α) :
    Strategy → Stage
  | .divideOutputRange => setting.stage law .scatter job.outputKernel 32
      (List.replicate (max plan.slices 1) (.ofSpan ⟨0, plan.length⟩))
  | .divideScatterVector => setting.stage law .scatter job.targetKernel 32 plan.elementSlices

/-- A law holds of the stages of all operations on accepted inputs. Elementwise operations have a
warmup of one chunk, and reductions and scans one of two. Where the units are elements, a warmup
processes as many as a chunk has. -/
structure Setting.Obeys (setting : Setting) (law : PhaseLaw) : Prop where
  build : ∀ {β : Type} (shape : Shape) (f : Coords → β),
    let plan := setting.plan .build shape.size
    setting.Phased plan (View.build · shape f)
      [setting.stage law .build (buildKernel shape f) 1 plan.chunkSlices]
  map : ∀ {α β : Type} (source : View α) (f : Visit α → β), source.Valid →
    let plan := setting.plan .map source.length
    setting.Phased plan (source.map · f)
      [setting.stage law .map (mapKernel source f) 1 plan.chunkSlices]
  records : ∀ {β : Type} (records : Records) (f : RecordVisit → β),
    let plan := setting.plan .map records.length
    setting.Phased plan (records.map · f)
      [setting.stage law .map (records.mapKernel f) 1 plan.chunkSlices]
  filter : ∀ {α : Type} (source : View α) (keep : Visit α → Bool), source.Valid →
    let plan := setting.plan .filter source.length
    setting.Phased plan (source.filter · keep)
      [setting.stage law .filter (filterKernel source keep) 1 plan.chunkSlices]
  reduce : ∀ {α : Type} (source : View α) (f : α → α → α), source.Valid → source.rank = 1 →
    source.isEmpty = false →
    let plan := setting.plan .reduce source.length
    setting.Phased plan (source.reduce · f)
      [setting.stage law .reduce (reduceKernel source.toArray f) 2 plan.chunkSlices]
  scan : ∀ {α : Type} (source : View α) (f : α → α → α), source.Valid → source.rank = 1 →
    source.isEmpty = false →
    let plan := setting.plan .scan source.length
    setting.Phased plan (source.scan · f) (setting.scanStages law plan f)
  scatter : ∀ {α : Type} (source : View α) (targets : Array Target) (default : α) (length : Nat)
    (conflict : Option (α → α → α)) (positions : List Nat), source.Valid → source.rank = 1 →
    Accepts targets source.length length conflict positions →
    let job := source.scatterJob positions length conflict
    let plan := setting.plan .scatter job.targets.size
    setting.Phased plan (source.scatter · targets default length conflict)
      [setting.scatterStage law plan job (job.strategy setting.config)]

/-! ## §4 The stages of operations -/

section

variable {law : PhaseLaw} {op : Operation} {kernel : Kernel γ σ} {shares : List (Slice × σ)}
  {slices : List Slice} {report : Report} {traces : List PhaseTrace}

/-- A phase that runs on some slices is the stage on these. -/
theorem Setting.Lawful.stage (h : setting.Lawful law) {outcome : PhaseOutcome} {final : Phase γ σ}
    (hslices : shares.map (·.1) = slices) (hbegins : ∀ slice ∈ slices, slice.Begins)
    (hrun : (Phase.start shares).run kernel setting.host op setting.config.mode =
      .ok (outcome, final)) :
    setting.stage law op kernel kernel.warmup slices outcome final.trace := by
  refine ⟨rfl, shares, final, hslices, hrun, rfl, h ?_ hrun⟩
  intro share hmem
  exact hbegins _ (hslices ▸ List.mem_map_of_mem hmem)

theorem Setting.RunsOnce.runsInTurn (h : setting.RunsOnce plan op kernel shares report traces)
    (hlawful : setting.Lawful law) (hslices : shares.map (·.1) = slices)
    (hbegins : ∀ slice ∈ slices, slice.Begins) :
    plan.RunsInTurn [setting.stage law op kernel kernel.warmup slices] report traces := by
  cases h with
  | sequential hplan => exact .sequential _ hplan
  | @parallel outcome phase hplan hphase =>
    exact .single hplan (hlawful.stage hslices hbegins hphase)

/-- An operation that accepts its input and leaves the phases of some stages. -/
theorem Setting.Phased.of_leaves {operation : Setting → Except Fault (Run γ ρ)}
    {phases : Report → List PhaseTrace → Prop} {stages : List Stage}
    (haccepted : RejectsNothing operation)
    (hleaves : ∀ run, operation setting = .ok run → run.Leaves setting.config phases)
    (hphases : ∀ {report traces}, phases report traces → plan.RunsInTurn stages report traces) :
    setting.Phased plan operation stages := by
  obtain ⟨run, report, hrun, hends, hreport⟩ := haccepted.exists_ended hleaves
  exact ⟨run, report, hrun, hends, hphases hreport⟩

/-- A sweep whose states are turned into a result. -/
theorem Setting.Lawful.phased_sweep (hlawful : setting.Lawful law) {state : Slice → σ}
    {length : Nat} {next : Setting → Option (List σ) → Except Fault (Except InputError τ)}
    (haccepted : RejectsNothing fun setting => do
      (← sweep setting op length kernel state).conclude (next setting)) :
    setting.Phased (setting.plan op length)
      (fun setting => do (← sweep setting op length kernel state).conclude (next setting))
      [setting.stage law op kernel kernel.warmup (setting.plan op length).chunkSlices] := by
  refine .of_leaves haccepted ?_
    fun hphases => Setting.RunsOnce.runsInTurn hphases hlawful (Plan.map_fst_shares state)
      Plan.begins_of_chunkSlices
  intro final hfinal
  obtain ⟨run, hrun, hconclude⟩ := Fault.bind_eq_ok.mp hfinal
  exact (sweep_leaves hrun).conclude hconclude

end

/-- The second phase of a scan skips the first slice alone, which is not empty since every worker
has a chunk. -/
theorem map_fst_share_carriedTasks {cells : Array α} (f : α → α → α) (hslices : 0 < plan.slices)
    (hle : plan.slices ≤ plan.chunks) (hchunks : plan.chunks = chunkCount cells.size)
    (hlength : plan.length = cells.size) :
    ((carriedTasks f cells ((evenSpans plan.chunks plan.slices).map
      (Span.ofChunks · cells.size))).map Task.share).map (·.1) =
        plan.elementSlices.modifyHead Slice.exhaust := by
  obtain ⟨stop, rest, hspans, hstop⟩ := evenSpans_eq_cons hslices hle
  -- The first slice gets no carry, and it is not empty.
  have hfirst : 0 < (Span.ofChunks ⟨0, stop⟩ cells.size).length := by
    rw [hchunks] at hle
    simp only [Span.ofChunks, Span.length, chunkCount, chunkSize] at hle ⊢
    omega
  rw [Plan.elementSlices_eq, hlength, hspans, List.map_cons, List.map_map]
  exact map_slice_carriedTasks f hfirst (Nat.min_le_right ..)

/-- The phases of a scan are its stages. -/
theorem ScanAttempt.Staged.runsInTurn {cells : Array α} {f : α → α → α} {attempt : ScanAttempt α}
    {law : PhaseLaw} (h : attempt.Staged f setting plan cells) (hlawful : setting.Lawful law)
    (hplan : plan.isParallel = true) (hslices : 0 < plan.slices) (hle : plan.slices ≤ plan.chunks)
    (hchunks : plan.chunks = chunkCount cells.size) (hlength : plan.length = cells.size) :
    plan.RunsInTurn (setting.scanStages law plan f) attempt.report attempt.phases := by
  -- The slices of the first phase are those of the plan.
  have hscan : (((evenSpans plan.chunks plan.slices).map (scanTask f cells)).map Task.share).map
      (·.1) = plan.chunkSlices := by
    rw [plan.chunkSlices_eq, List.map_map, List.map_map]
    rfl
  rw [Setting.scanStages, hlength]
  cases h with
  | @fallback first scanned hfirst hfallback =>
    refine ⟨[first], rfl, ?_⟩
    rw [if_pos hplan]
    exact .fallback (hlawful.stage hscan Plan.begins_of_chunkSlices hfirst) hfallback
  | @both first second scanned carried spans hspans hfirst hcompleted hscanned hsecond hcarried =>
    have hcarry := map_fst_share_carriedTasks f hslices hle hchunks hlength
    rw [← hspans] at hcarry
    refine ⟨[first, second], rfl, ?_⟩
    rw [if_pos hplan]
    exact .next (hlawful.stage hscan Plan.begins_of_chunkSlices hfirst) hcompleted
      (.single (hlawful.stage hcarry Plan.begins_of_skipped hsecond))

/-- A scan of an accepted sequence goes through both of its stages. -/
theorem Setting.Lawful.phased_scan {law : PhaseLaw} (hlawful : setting.Lawful law)
    {source : View α} (hvalid : source.Valid) (hrank : source.rank = 1)
    (hne : source.isEmpty = false) (f : α → α → α) :
    let plan := setting.plan .scan source.length
    setting.Phased plan (source.scan · f) (setting.scanStages law plan f) := by
  intro plan
  have hsize := View.size_toArray_eq_length hvalid hrank
  have hchunks : plan.chunks = chunkCount source.toArray.size := by
    rw [hsize]
    rfl
  obtain ⟨attempt, hattempt, hphases⟩ : ∃ attempt,
      attemptScan setting plan source.toArray f = .ok attempt ∧
        plan.RunsInTurn (setting.scanStages law plan f) attempt.report attempt.phases := by
    rw [attemptScan]
    cases hplan : plan.isParallel with
    | false => exact ⟨_, rfl, .sequential _ hplan⟩
    | true =>
      obtain ⟨attempt, hattempt, hstaged⟩ := scanInParallel_staged f setting hchunks
      have hworkers : 0 < plan.slices := Nat.le_max_right ..
      exact ⟨attempt, hattempt, hstaged.runsInTurn hlawful hplan hworkers
        (workerCount_le_chunkCount hplan) hchunks hsize.symm⟩
  obtain ⟨run, hrun, -, -⟩ := concludeScan_eq f setting source.toArray attempt
  -- Concluding a scan starts no phase.
  obtain ⟨hends, hsame⟩ := endsIn_of_concludeScan hrun
  rw [← View.scan_eq_concludeScan f setting hvalid hrank hne hattempt] at hrun
  exact ⟨run, attempt.report, hrun, hends, hsame ▸ hphases⟩

/-- The phase of a scatter is the stage of its strategy. -/
theorem Setting.RunsStrategy.runsInTurn {job : ScatterJob α} {law : PhaseLaw} {report : Report}
    {traces : List PhaseTrace} {strategy : Strategy}
    (h : setting.RunsStrategy plan job report traces strategy) (hlawful : setting.Lawful law)
    (hlength : plan.length = job.targets.size) (hchunks : plan.chunks = chunkCount plan.length) :
    plan.RunsInTurn [setting.scatterStage law plan job strategy] report traces := by
  cases strategy with
  | divideOutputRange =>
    obtain ⟨shares, hslices, hphase⟩ := h
    rw [← hlength] at hslices
    refine hphase.runsInTurn hlawful hslices ?_
    intro slice hmem
    -- Every worker walks all targets from the first one on.
    rw [List.eq_of_mem_replicate hmem]
    exact ⟨Nat.zero_le _, .inl rfl⟩
  | divideScatterVector =>
    refine Setting.RunsOnce.runsInTurn h hlawful ?_ Plan.begins_of_elementSlices
    rw [List.map_map, ← hlength, ← hchunks]
    exact List.map_id _

/-! ## §5 All operations -/

/-- **What holds of every phase holds of every stage of every operation.** -/
theorem Setting.Lawful.obeys {law : PhaseLaw} (hlawful : setting.Lawful law) :
    setting.Obeys law where
  build shape f := hlawful.phased_sweep (View.build_rejectsNothing shape f)
  map source f hvalid := hlawful.phased_sweep (View.map_rejectsNothing hvalid f)
  records records f := hlawful.phased_sweep (records.map_rejectsNothing f)
  filter source keep hvalid := hlawful.phased_sweep (View.filter_rejectsNothing hvalid keep)
  reduce source f hvalid hrank hne := by
    have hsize := View.size_toArray_eq_length hvalid hrank
    rw [← hsize]
    exact .of_leaves (View.reduce_rejectsNothing hvalid hrank hne f) (fun _ => View.reduce_leaves)
      fun hphases => Setting.RunsOnce.runsInTurn hphases hlawful (Plan.map_fst_shares _)
        Plan.begins_of_chunkSlices
  scan source f hvalid hrank hne := hlawful.phased_scan hvalid hrank hne f
  scatter source targets default length conflict positions hvalid hrank haccepts := by
    refine .of_leaves (View.scatter_rejectsNothing hvalid hrank haccepts default) ?_
      fun hphases => Setting.RunsStrategy.runsInTurn hphases hlawful rfl rfl
    intro run hrun
    rw [View.scatter_eq setting default hvalid hrank haccepts] at hrun
    exact ScatterJob.run_leaves_strategy hrun

end ForkJoin
