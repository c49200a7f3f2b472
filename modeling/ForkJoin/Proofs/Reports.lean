import ForkJoin.Proofs.Bailouts
import ForkJoin.Proofs.Phases
import ForkJoin.Proofs.Rejections

/-!
# Reports

A report is put together from the outcomes of the phases, one phase after another, and each phase
is accounted for by its trace. So a report is the summary of what can be seen of the run: what was
asked and answered, and how often a compilation was requested. What a run ends in is decided by
that report and the expectation alone.

## Main definitions
- `Report.Faithful`: what a report says of the phases of a run.
- `Setting.Reports`: an operation that accepts its input and reports its run.

## Main statements
- `Report.Faithful.of_phase`, `Report.Faithful.andThen`: one phase, and one more.
- `Setting.RunsOnce.faithful`, `Setting.RunsScan.faithful`, `Setting.RunsScatter.faithful`: the
  phases of operations.
- `Setting.reports_are_faithful`: all operations together.
-/

namespace ForkJoin

variable {α γ σ ρ τ : Type} {setting : Setting} {plan : Plan}

/-! ## §1 What a report says -/

/-- What a report says of the phases of a run. If nothing falls back there are `rounds` of them. -/
structure Report.Faithful (report : Report) (plan : Plan) (mode : Mode) (rounds : Nat)
    (starts : PhaseTrace → Nat → Prop) (phases : List PhaseTrace) : Prop where
  op_eq : report.op = plan.op
  reason_eq : report.reason = plan.reason
  /-- The bailouts are the attempts, over all phases, in which some answer was true. -/
  bailouts_eq : report.bailouts = (phases.flatMap (·.bailedAttempts)).length
  /-- Only the last phase can use up all of its attempts. -/
  bailouts_le : report.bailouts ≤ (maxBailouts - 1) * rounds + 1
  bailouts_le_of_parallel : report.path = .parallel → report.bailouts ≤ (maxBailouts - 1) * rounds
  path_iff : report.path = .parallel ↔
    plan.isParallel = true ∧ mode ≠ .compile ∧ ∀ trace ∈ phases, ¬ trace.BailedLast
  sequential : plan.isParallel = false → phases = []
  parallel : plan.isParallel = true → phases ≠ []
  rounds_eq : report.path = .parallel → phases.length = rounds
  /-- The compile requests are as many as the attempts that were started. -/
  compiles : ∀ trace ∈ phases, starts trace trace.compiles
  compile_mode : plan.isParallel = true → mode = .compile →
    ∃ trace, phases = [trace] ∧ trace.compiles = 1

theorem PhaseTrace.Accounts.imp {trace : PhaseTrace} {mode : Mode} {outcome : PhaseOutcome}
    {starts weaker : PhaseTrace → Nat → Prop} (h : trace.Accounts mode starts outcome)
    (himp : ∀ count, starts trace count → weaker trace count) :
    trace.Accounts mode weaker outcome :=
  { h with starts := himp _ h.starts }

namespace Report.Faithful

variable {mode : Mode} {rounds : Nat} {starts : PhaseTrace → Nat → Prop} {report : Report}
  {phases : List PhaseTrace} {trace : PhaseTrace} {outcome : PhaseOutcome}

theorem imp {weaker : PhaseTrace → Nat → Prop}
    (h : report.Faithful plan mode rounds starts phases)
    (himp : ∀ trace count, starts trace count → weaker trace count) :
    report.Faithful plan mode rounds weaker phases :=
  { h with compiles := fun trace hmem => himp trace _ (h.compiles trace hmem) }

/-- The report of a sequential plan. -/
theorem of_sequential (hplan : plan.isParallel = false) :
    (Report.sequential plan).Faithful plan mode rounds starts [] where
  op_eq := rfl
  reason_eq := rfl
  bailouts_eq := rfl
  bailouts_le := Nat.zero_le _
  bailouts_le_of_parallel _ := Nat.zero_le _
  path_iff := by simp [Report.sequential, hplan]
  sequential _ := rfl
  parallel hparallel := by simp [hplan] at hparallel
  rounds_eq hpath := by cases hpath
  compiles trace hmem := by cases hmem
  compile_mode hparallel := by simp [hplan] at hparallel

/-- The report of one phase, which is the only one unless it falls back. -/
theorem of_phase (hparallel : plan.isParallel = true) (h : trace.Accounts mode starts outcome)
    (hrounds : 1 ≤ rounds) (honly : outcome.isCompleted = true → rounds = 1) :
    (Report.ofPhase plan outcome).Faithful plan mode rounds starts [trace] where
  op_eq := rfl
  reason_eq := rfl
  bailouts_eq := by
    rw [List.flatMap_singleton, h.bailouts_eq]
    rfl
  bailouts_le := by
    have hle := h.bailouts_le
    show outcome.bailouts ≤ _
    simp only [maxBailouts] at hle ⊢
    omega
  -- A phase that completes has fewer bailouts than are allowed, and is the only round.
  bailouts_le_of_parallel hpath := by
    have hcompleted := Report.path_ofPhase_eq_parallel.mp hpath
    have hlt := h.bailouts_lt hcompleted
    show outcome.bailouts ≤ _
    rw [honly hcompleted]
    simp only [maxBailouts] at hlt ⊢
    omega
  path_iff := by
    rw [Report.path_ofPhase_eq_parallel, h.completed_iff]
    simp [hparallel]
  sequential hplan := by simp [hparallel] at hplan
  parallel _ := List.cons_ne_nil _ _
  rounds_eq hpath := (honly (Report.path_ofPhase_eq_parallel.mp hpath)).symm
  compiles other hmem := by
    rw [List.mem_singleton.mp hmem]
    exact h.starts
  compile_mode _ hmode := ⟨trace, rfl, h.compile hmode⟩

/-- The report of one more phase, after phases that have completed. -/
theorem andThen (hreport : report.Faithful plan mode rounds starts phases)
    (hpath : report.path = .parallel) (h : trace.Accounts mode starts outcome) :
    (report.andThen outcome).Faithful plan mode (rounds + 1) starts (phases ++ [trace]) := by
  have hbefore := hreport.bailouts_le_of_parallel hpath
  obtain ⟨hparallel, hmode, hlast⟩ := hreport.path_iff.mp hpath
  constructor
  case op_eq => exact hreport.op_eq
  case reason_eq => exact hreport.reason_eq
  case bailouts_eq =>
    rw [List.flatMap_append, List.length_append, ← hreport.bailouts_eq, List.flatMap_singleton,
      h.bailouts_eq]
    rfl
  case bailouts_le =>
    -- The phases before this one have completed, and have fewer bailouts.
    have hle := h.bailouts_le
    show report.bailouts + outcome.bailouts ≤ _
    simp only [maxBailouts] at hbefore hle ⊢
    omega
  case bailouts_le_of_parallel =>
    intro hboth
    have hlt := h.bailouts_lt (Report.path_andThen_eq_parallel.mp hboth).1
    show report.bailouts + outcome.bailouts ≤ _
    simp only [maxBailouts] at hbefore hlt ⊢
    omega
  case path_iff =>
    rw [Report.path_andThen_eq_parallel, h.completed_iff, and_iff_left hpath]
    simp only [hparallel, true_and, List.mem_append, List.mem_singleton, or_imp, forall_and,
      forall_eq, and_iff_right hlast]
  case sequential =>
    intro hplan
    simp [hparallel] at hplan
  case parallel => simp
  case rounds_eq => simp [hreport.rounds_eq hpath]
  case compiles =>
    intro other hmem
    rcases List.mem_append.mp hmem with hmem | hmem
    · exact hreport.compiles other hmem
    · rw [List.mem_singleton.mp hmem]
      exact h.starts
  case compile_mode => exact fun _ hcompile => absurd hcompile hmode

end Report.Faithful

/-! ## §2 Phases of operations -/

/-- A phase of an operation, run with a setting, has started some attempts. -/
def Setting.Starts (setting : Setting) (op : Operation) (kernel : Kernel γ σ)
    (shares : List (Slice × σ)) : PhaseTrace → Nat → Prop :=
  PhaseTrace.Starts kernel setting.host op setting.config.mode shares

theorem Plan.pos_le_stop_of_shares {state : Slice → σ} :
    ∀ share ∈ plan.shares state, share.1.pos ≤ share.1.stop := by
  intro share hmem
  obtain ⟨slice, hslice, rfl⟩ := List.mem_map.mp hmem
  exact (Partition.within_of_even hslice).pos_le

section

variable {report : Report} {traces : List PhaseTrace}

/-- A single phase on slices that are not overrun. -/
theorem Setting.RunsOnce.faithful {kernel : Kernel γ σ} {op : Operation}
    {shares : List (Slice × σ)} (h : setting.RunsOnce plan op kernel shares report traces)
    (hshares : ∀ share ∈ shares, share.1.pos ≤ share.1.stop) :
    report.Faithful plan setting.config.mode 1 (setting.Starts op kernel shares) traces := by
  cases h with
  | sequential hplan => exact .of_sequential hplan
  | parallel hplan hphase =>
    exact .of_phase hplan (Phase.accounts_of_run hshares hphase) (Nat.le_refl 1) fun _ => rfl

/-- A phase of a scan: the first one scans chunks, the second one combines elements. -/
def Setting.StartsScan (setting : Setting) (length : Nat) (f : α → α → α) (trace : PhaseTrace)
    (count : Nat) : Prop :=
  (∃ shares, setting.Starts .scan (scanKernel length f) shares trace count) ∨
  ∃ shares, setting.Starts .scan (carryKernel f) shares trace count

theorem accounts_of_scanKernel {length : Nat} {f : α → α → α}
    {shares : List (Slice × ScanWindow α)} {first : PhaseOutcome}
    {scanned : Phase (α × α) (ScanWindow α)}
    (hshares : ∀ share ∈ shares, share.1 ∈ (Partition.even plan.chunks plan.slices).slices)
    (h : (Phase.start shares).run (scanKernel length f) setting.host .scan setting.config.mode =
      .ok (first, scanned)) :
    scanned.trace.Accounts setting.config.mode (setting.StartsScan length f) first := by
  refine (Phase.accounts_of_run ?_ h).imp fun count hstarts => .inl ⟨_, hstarts⟩
  intro share hmem
  exact (Partition.within_of_even (hshares share hmem)).pos_le

theorem accounts_of_carryKernel {length count : Nat} {f : α → α → α}
    {shares : List (Slice × CarryWindow α)} {second : PhaseOutcome}
    {carried : Phase (α × α) (CarryWindow α)}
    (hshares : ∀ share ∈ shares,
      ∃ slice ∈ ((Partition.even (chunkCount length) count).toElements length).slices,
        share.1 = slice ∨ share.1 = slice.exhaust)
    (h : (Phase.start shares).run (carryKernel f) setting.host .scan setting.config.mode =
      .ok (second, carried)) :
    carried.trace.Accounts setting.config.mode (setting.StartsScan length f) second := by
  refine (Phase.accounts_of_run ?_ h).imp fun count hstarts => .inr ⟨_, hstarts⟩
  intro share hmem
  obtain ⟨slice, hslice, heq | heq⟩ := hshares share hmem
  · rw [heq]
    exact (Partition.within_of_toElements hslice).pos_le
  · -- Without a carry the slice counts as finished, and stands at its end.
    rw [heq]
    exact Nat.le_refl _

theorem Setting.RunsScan.faithful {length : Nat} {f : α → α → α}
    (hchunks : plan.chunks = chunkCount length)
    (h : setting.RunsScan plan length f report traces) :
    report.Faithful plan setting.config.mode 2 (setting.StartsScan length f) traces := by
  cases h with
  | sequential hplan => exact .of_sequential hplan
  | fallback hplan hshares hfirst hfallback =>
    apply Report.Faithful.of_phase hplan (accounts_of_scanKernel hshares hfirst) (Nat.le_succ 1)
    -- The first phase has fallen back, so there is no second one.
    intro hcompleted
    rw [hfallback] at hcompleted
    cases hcompleted
  | @both shares first second scanned carries carried hplan hshares hfirst hcompleted hcarries
      hsecond =>
    -- Both phases have completed or the second one has fallen back: their reports are put together.
    have honly : (Report.ofPhase plan first).Faithful plan setting.config.mode 1
        (setting.StartsScan length f) [scanned.trace] :=
      .of_phase hplan (accounts_of_scanKernel hshares hfirst) (Nat.le_refl 1) fun _ => rfl
    rw [hchunks] at hcarries
    exact honly.andThen (Report.path_ofPhase_eq_parallel.mpr hcompleted)
      (accounts_of_carryKernel hcarries hsecond)

/-- The phase of a scatter: either the output or the targets are divided. -/
def Setting.StartsScatter (setting : Setting) (job : ScatterJob α) (trace : PhaseTrace)
    (count : Nat) : Prop :=
  (∃ shares, setting.Starts .scatter job.outputKernel shares trace count) ∨
  ∃ shares, setting.Starts .scatter job.targetKernel shares trace count

theorem Setting.RunsScatter.faithful {job : ScatterJob α}
    (h : setting.RunsScatter plan job report traces) :
    report.Faithful plan setting.config.mode 1 (setting.StartsScatter job) traces := by
  rcases h with ⟨shares, hshares, h⟩ | h
  · -- Every worker walks all targets.
    refine (h.faithful ?_).imp fun _ _ hstarts => .inl ⟨_, hstarts⟩
    intro share hmem
    rw [hshares share hmem]
    exact Nat.zero_le _
  · -- Every worker has targets of its own.
    refine (h.faithful ?_).imp fun _ _ hstarts => .inr ⟨_, hstarts⟩
    intro share hmem
    obtain ⟨slice, hslice, rfl⟩ := List.mem_map.mp hmem
    exact (Partition.within_of_toElements hslice).pos_le

end

/-! ## §3 Operations -/

/-- An operation accepts its input, and its run ends in a faithful report. -/
def Setting.Reports (setting : Setting) (plan : Plan) (rounds : Nat)
    (operation : Setting → Except Fault (Run γ ρ)) (starts : PhaseTrace → Nat → Prop) : Prop :=
  ∃ run report, operation setting = .ok run ∧ run.EndsIn setting.config report ∧
    report.Faithful plan setting.config.mode rounds starts run.phases

section

variable {rounds : Nat} {starts : PhaseTrace → Nat → Prop}
  {phases : Report → List PhaseTrace → Prop}

/-- An operation that accepts its input ends in the report on its phases, and in nothing else. -/
theorem RejectsNothing.exists_ended {operation : Setting → Except Fault (Run γ ρ)}
    (haccepted : RejectsNothing operation)
    (hleaves : ∀ run, operation setting = .ok run → run.Leaves setting.config phases) :
    ∃ run report, operation setting = .ok run ∧ run.EndsIn setting.config report ∧
      phases report run.phases := by
  obtain ⟨run, hrun, honly⟩ := haccepted setting
  -- The complaint that is left is about the path, not about the input.
  have hinput : ∀ cause, run.result ≠ .error (.input cause) := by
    intro cause hcause
    obtain ⟨expected, report, hother⟩ := honly _ hcause
    cases hother
  cases hleaves run hrun with
  | rejected h => exact absurd (congrArg Run.result h) (hinput _)
  | refused _ h => exact absurd h (hinput _)
  | ended hphases hends => exact ⟨run, _, hrun, hends, hphases⟩

theorem Setting.Reports.of_leaves {operation : Setting → Except Fault (Run γ ρ)}
    (haccepted : RejectsNothing operation)
    (hleaves : ∀ run, operation setting = .ok run → run.Leaves setting.config phases)
    (hfaithful : ∀ {report traces}, phases report traces →
      report.Faithful plan setting.config.mode rounds starts traces) :
    setting.Reports plan rounds operation starts := by
  obtain ⟨run, report, hrun, hends, hphases⟩ := haccepted.exists_ended hleaves
  exact ⟨run, report, hrun, hends, hfaithful hphases⟩

/-- A sweep whose states are turned into a result. -/
theorem Setting.Reports.of_sweep {kernel : Kernel γ σ} {op : Operation} {state : Slice → σ}
    {length : Nat} {next : Setting → Option (List σ) → Except Fault (Except InputError τ)}
    (haccepted : RejectsNothing fun setting => do
      (← sweep setting op length kernel state).conclude (next setting)) :
    setting.Reports (setting.plan op length) 1
      (fun setting => do (← sweep setting op length kernel state).conclude (next setting))
      (setting.Starts op kernel ((setting.plan op length).shares state)) := by
  refine .of_leaves haccepted ?_ (Setting.RunsOnce.faithful · Plan.pos_le_stop_of_shares)
  intro final hfinal
  obtain ⟨run, hrun, hconclude⟩ := Fault.bind_eq_ok.mp hfinal
  exact (sweep_leaves hrun).conclude hconclude

end

/-! ## §4 All operations -/

/-- **Every report is faithful to its run.** On an input that is accepted, whatever the
configuration and whatever the host answers, the report counts the attempts with a true answer, of
which there are at most three and at most five in a scan; its path is parallel exactly if the plan
is, the mode is not the one that only compiles, and no phase had a true answer in its last attempt;
there is one compile request for each attempt that was started; and the run ends in that report if
it is as expected, and in the complaint about that report if it is not. -/
theorem Setting.reports_are_faithful (setting : Setting) :
    (∀ {β : Type} (shape : Shape) (f : Coords → β),
      let plan := setting.plan .build shape.size
      setting.Reports plan 1 (View.build · shape f)
        (setting.Starts .build (buildKernel shape f) (plan.shares fun _ => #[]))) ∧
    (∀ {α β : Type} (source : View α) (f : Visit α → β), source.Valid →
      let plan := setting.plan .map source.length
      setting.Reports plan 1 (source.map · f)
        (setting.Starts .map (mapKernel source f) (plan.shares fun _ => #[]))) ∧
    (∀ {β : Type} (records : Records) (f : RecordVisit → β),
      let plan := setting.plan .map records.length
      setting.Reports plan 1 (records.map · f)
        (setting.Starts .map (records.mapKernel f) (plan.shares fun _ => #[]))) ∧
    (∀ {α : Type} (source : View α) (keep : Visit α → Bool), source.Valid →
      let plan := setting.plan .filter source.length
      setting.Reports plan 1 (source.filter · keep) (setting.Starts .filter
        (filterKernel source keep) (plan.shares fun slice => { firstChunk := slice.start }))) ∧
    (∀ {α : Type} (source : View α) (f : α → α → α), source.Valid → source.rank = 1 →
      source.isEmpty = false →
      let plan := setting.plan .reduce source.toArray.size
      setting.Reports plan 1 (source.reduce · f) (setting.Starts .reduce
        (reduceKernel source.toArray f) (plan.shares fun _ => none))) ∧
    (∀ {α : Type} (source : View α) (f : α → α → α), source.Valid → source.rank = 1 →
      source.isEmpty = false →
      setting.Reports (setting.plan .scan source.length) 2 (source.scan · f)
        (setting.StartsScan source.toArray.size f)) ∧
    (∀ {α : Type} (source : View α) (targets : Array Target) (default : α) (length : Nat)
      (conflict : Option (α → α → α)) (positions : List Nat), source.Valid → source.rank = 1 →
      Accepts targets source.length length conflict positions →
      let job := source.scatterJob positions length conflict
      setting.Reports (setting.plan .scatter job.targets.size) 1
        (source.scatter · targets default length conflict) (setting.StartsScatter job)) := by
  refine ⟨?build, ?map, ?records, ?filter, ?reduce, ?scan, ?scatter⟩
  case build => exact fun shape f => .of_sweep (View.build_rejectsNothing shape f)
  case map => exact fun source f hvalid => .of_sweep (View.map_rejectsNothing hvalid f)
  case records => exact fun records f => .of_sweep (records.map_rejectsNothing f)
  case filter => exact fun source keep hvalid => .of_sweep (View.filter_rejectsNothing hvalid keep)
  case reduce =>
    intro α source f hvalid hrank hne
    exact .of_leaves (View.reduce_rejectsNothing hvalid hrank hne f)
      (fun _ => View.reduce_leaves) (·.faithful Plan.pos_le_stop_of_shares)
  case scan =>
    intro α source f hvalid hrank hne
    have hsize := View.size_toArray_eq_length hvalid hrank
    exact .of_leaves (View.scan_rejectsNothing hvalid hrank hne f) (fun _ => View.scan_leaves)
      (·.faithful (by rw [hsize]; rfl))
  case scatter =>
    intro α source targets default length conflict positions hvalid hrank haccepts
    refine .of_leaves (View.scatter_rejectsNothing hvalid hrank haccepts default) ?_
      Setting.RunsScatter.faithful
    intro run hrun
    rw [View.scatter_eq setting default hvalid hrank haccepts] at hrun
    exact ScatterJob.run_leaves hrun

/-- Scanning three chunks by a worker that is stopped once, in front of the last one. -/
theorem Setting.reports_are_faithful_scan :
    ∃ run, (View.ofArray 0 (Array.range 65)).scan
        { host := (BailSchedule.once 0 2).host, config := Config.withWorkers {} 1 } (· + ·) =
          .ok run ∧
      run.EndsIn (Config.withWorkers {} 1) ⟨.scan, .parallel, 1, .eligible⟩ ∧
      Report.Faithful ⟨.scan, .parallel, 1, .eligible⟩ (.make .scan 65 (Config.withWorkers {} 1) 1)
        .default 2
        (Setting.StartsScan
          { host := (BailSchedule.once 0 2).host, config := Config.withWorkers {} 1 } 65
          fun a b : Nat => a + b)
        run.phases := by
  have hvalid : (View.ofArray 0 (Array.range 65)).Valid := ⟨rfl, by decide⟩
  obtain ⟨run, out, hrun, hresult⟩ := Run.exists_result (x := (View.ofArray 0
    (Array.range 65)).scan
      { host := (BailSchedule.once 0 2).host, config := Config.withWorkers {} 1 } (· + ·))
    ⟨.scan, .parallel, 1, .eligible⟩ (by decide +kernel)
  obtain ⟨-, -, -, -, -, hscan, -⟩ := Setting.reports_are_faithful
    { host := (BailSchedule.once 0 2).host, config := Config.withWorkers {} 1 }
  obtain ⟨run', report, hrun', hends, hfaithful⟩ :=
    hscan (View.ofArray 0 (Array.range 65)) (· + ·) hvalid rfl rfl
  obtain rfl : run = run' := Except.ok.inj (hrun.symm.trans hrun')
  obtain rfl := hends.report_eq hresult
  exact ⟨run, hrun, hends, hfaithful⟩

end ForkJoin
