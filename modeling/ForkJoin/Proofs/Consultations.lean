import ForkJoin.Operation.Build
import ForkJoin.Operation.Filter
import ForkJoin.Operation.Map
import ForkJoin.Operation.Reduce
import ForkJoin.Operation.Scan
import ForkJoin.Proofs.Phases
import ForkJoin.Proofs.Targets
import ForkJoin.Record.Records
import ForkJoin.Scatter.Basic

/-!
# Consultations

An operation asks the host in its phases and nowhere else. A sequential plan has no phase, a phase
in compile mode asks nothing, and every other phase is a course of attempts, over all of which no
unit of a slice is asked about twice. That holds for every kernel whose warmup goes on at all, and
the warmup of every operation does.

## Main definitions
- `Setting.Orderly`: how a phase of an operation asks the host.
- `Setting.Quiet`: the settings in which no phase asks anything.
- `Setting.Consults`: how an operation asks the host.

## Main statements
- `sweep_consults`, `View.reduce_consults`, `View.scan_consults`, `View.scatter_consults`: the
  operations one by one.
- `Setting.no_unit_asked_twice`: all of them together.
-/

namespace ForkJoin

variable {α γ σ ρ τ : Type} {setting : Setting} {plan : Plan}

/-! ## §1 Operations and the host -/

/-- A phase of an operation, run with a setting, asks the host in order. -/
def Setting.Orderly (setting : Setting) (op : Operation) (kernel : Kernel γ σ)
    (shares : List (Slice × σ)) (trace : PhaseTrace) : Prop :=
  trace.Orderly kernel setting.host op setting.config.mode shares

/-- A run has no phase under a sequential plan, and otherwise its phases are orderly. -/
structure Run.Consults (run : Run γ ρ) (plan : Plan) (orderly : PhaseTrace → Prop) : Prop where
  sequential : plan.isParallel = false → run.phases = []
  phases : ∀ trace ∈ run.phases, orderly trace

/-- The plan makes no parallel attempt, or its attempts are warmups only. -/
def Setting.Quiet (setting : Setting) (plan : Plan) : Prop :=
  plan.isParallel = false ∨ setting.config.mode = .compile

/-- A plan does not depend on the host. -/
@[simp] theorem Setting.plan_with_host (setting : Setting) (host : Host) (op : Operation)
    (length : Nat) :
    ({ setting with host } : Setting).plan op length = setting.plan op length :=
  rfl

/-- How an operation asks the host. -/
structure Setting.Consults (setting : Setting) (plan : Plan)
    (operation : Setting → Except Fault (Run γ ρ)) (orderly : PhaseTrace → Prop) : Prop where
  run : ∀ run, operation setting = .ok run → run.Consults plan orderly
  /-- Where nothing is asked another host makes no difference. -/
  quiet : setting.Quiet plan → ∀ host, operation { setting with host } = operation setting

section

variable {run : Run γ ρ} {orderly : PhaseTrace → Prop}

/-- A run without phases, such as one that rejects its input. -/
theorem Run.Consults.of_none (h : run.phases = []) : run.Consults plan orderly where
  sequential _ := h
  phases trace hmem := by simp [h] at hmem

/-- A run whose phases are orderly, and are not there under a sequential plan. -/
theorem Run.Leaves.consults {config : Config} {phases : Report → List PhaseTrace → Prop}
    (h : run.Leaves config phases)
    (hphases : ∀ {report traces}, phases report traces →
      (plan.isParallel = false → traces = []) ∧ ∀ trace ∈ traces, orderly trace) :
    run.Consults plan orderly := by
  cases h with
  | rejected h =>
    subst h
    exact .of_none rfl
  | refused h _ => exact ⟨(hphases h).1, (hphases h).2⟩
  | ended h _ => exact ⟨(hphases h).1, (hphases h).2⟩

/-- An operation that rejects its input asks nothing. -/
theorem Setting.Consults.rejected (cause : InputError) :
    setting.Consults plan (fun _ => .ok (.rejected cause : Run γ ρ)) orderly where
  run run h := by
    cases h
    exact .of_none rfl
  quiet _ _ := rfl

/-- Nor does a first step that does not depend on what the operation runs with. -/
theorem Setting.Consults.bind {x : Except Fault τ}
    {operation : τ → Setting → Except Fault (Run γ ρ)}
    (h : ∀ a, x = .ok a → setting.Consults plan (operation a) orderly) :
    setting.Consults plan (fun setting => x >>= fun a => operation a setting) orderly where
  run run hrun := by
    obtain ⟨a, hx, hrun⟩ := Fault.bind_eq_ok.mp hrun
    exact (h a hx).run run hrun
  quiet hquiet host := by
    cases x with
    | error fault => rfl
    | ok a => exact (h a rfl).quiet hquiet host

theorem Setting.Consults.imp {operation : Setting → Except Fault (Run γ ρ)}
    {weaker : PhaseTrace → Prop} (h : setting.Consults plan operation orderly)
    (himp : ∀ trace, orderly trace → weaker trace) : setting.Consults plan operation weaker where
  run run hrun :=
    ⟨(h.run run hrun).sequential, fun trace hmem => himp trace ((h.run run hrun).phases trace hmem)⟩
  quiet := h.quiet

/-- Turning the result into another one asks nothing. -/
theorem Setting.Consults.conclude {operation : Setting → Except Fault (Run γ ρ)}
    {next : Setting → ρ → Except Fault (Except InputError τ)}
    (h : setting.Consults plan operation orderly)
    (hnext : ∀ host, next { setting with host } = next setting) :
    setting.Consults plan (fun setting => do (← operation setting).conclude (next setting))
      orderly where
  run final hfinal := by
    obtain ⟨run, hrun, hconclude⟩ := Fault.bind_eq_ok.mp hfinal
    have hconsults := h.run run hrun
    -- What comes after the run leaves its phases as they are.
    have hphases := (Run.same_of_conclude hconclude).2
    constructor
    · intro hplan
      rw [hphases, hconsults.sequential hplan]
    · rw [hphases]
      exact hconsults.phases
  quiet hquiet host := by simp only [h.quiet hquiet host, hnext host]

/-- In compile mode it does not matter which host a phase has. -/
theorem Phase.run_of_compile {kernel : Kernel γ σ} {mode : Mode} (hmode : mode = .compile)
    (host : Host) (op : Operation) (phase : Phase γ σ) :
    phase.run kernel host op mode = phase.run kernel Host.never op mode := by
  rw [Phase.run, Phase.run, if_pos hmode, if_pos hmode]

end

/-- The phase of an operation that runs a single one is orderly if its warmup goes on. -/
theorem Setting.RunsOnce.orderly {kernel : Kernel γ σ} {op : Operation}
    {shares : List (Slice × σ)} {report : Report} {traces : List PhaseTrace}
    (hwarmup : 0 < kernel.warmup) (h : setting.RunsOnce plan op kernel shares report traces) :
    (plan.isParallel = false → traces = []) ∧
      ∀ trace ∈ traces, setting.Orderly op kernel shares trace := by
  cases h with
  | sequential hplan => exact ⟨fun _ => rfl, fun trace hmem => by cases hmem⟩
  | parallel hplan hphase =>
    refine ⟨fun hsequential => by simp [hplan] at hsequential, ?_⟩
    intro trace hmem
    rw [List.mem_singleton.mp hmem]
    exact Phase.orderly_of_run hwarmup hphase

/-! ## §2 Sweeps -/

section

variable {kernel : Kernel γ σ} {op : Operation} {state : Slice → σ}

theorem attemptSweep_quiet (h : setting.Quiet plan) (host : Host) :
    attemptSweep { setting with host } op plan kernel state =
      attemptSweep setting op plan kernel state := by
  rcases h with hplan | hmode
  · simp [attemptSweep, hplan]
  · simp [attemptSweep, Phase.run_of_compile hmode host, Phase.run_of_compile hmode setting.host]

/-- A sweep asks about the chunks of its slices. -/
theorem sweep_consults {length : Nat} (hwarmup : 0 < kernel.warmup) :
    setting.Consults (setting.plan op length) (sweep · op length kernel state)
      (setting.Orderly op kernel ((setting.plan op length).shares state)) where
  run _ h := (sweep_leaves h).consults (·.orderly hwarmup)
  quiet hquiet host :=
    congrArg (· >>= concludeSweep setting kernel) (attemptSweep_quiet hquiet host)

end

/-! ## §3 Reductions -/

/-- A reduction asks about the chunks of its slices. What follows its phase asks nothing. -/
theorem View.reduce_consults (source : View α) (f : α → α → α) :
    setting.Consults (setting.plan .reduce source.toArray.size) (source.reduce · f)
      (setting.Orderly .reduce (reduceKernel source.toArray f)
        ((setting.plan .reduce source.toArray.size).shares fun _ => none)) where
  run _ h := (View.reduce_leaves h).consults (·.orderly Nat.zero_lt_two)
  quiet hquiet host := by
    unfold View.reduce
    cases hwindow : source.window with
    | error fault => simp only [Fault.error_bind]
    | ok cells =>
      obtain rfl := toArray_of_window hwindow
      -- A plan that is not parallel starts no phase; one that only compiles asks the host nothing.
      rcases hquiet with hplan | hmode
      · simp [hplan]
      · simp only [Setting.plan_with_host, Phase.run_of_compile hmode host,
          Phase.run_of_compile hmode setting.host]

/-! ## §4 Scans -/

/-- How the phases of a scan ask: in the first one the units are the chunks of the slices, in the
second one their elements, none of which is left where there is no carry. -/
def Setting.OrderlyScan (setting : Setting) (plan : Plan) (length : Nat) (f : α → α → α)
    (trace : PhaseTrace) : Prop :=
  let chunks := Partition.even plan.chunks plan.slices
  let elements := chunks.toElements length
  (∃ shares, (∀ share ∈ shares, share.1 ∈ chunks.slices) ∧
    setting.Orderly .scan (scanKernel length f) shares trace) ∨
  (∃ shares, (∀ share ∈ shares, ∃ slice ∈ elements.slices,
      share.1 = slice ∨ share.1 = slice.exhaust) ∧
    setting.Orderly .scan (carryKernel f) shares trace)

theorem Setting.RunsScan.orderly {length : Nat} {f : α → α → α} {report : Report}
    {traces : List PhaseTrace} (h : setting.RunsScan plan length f report traces) :
    (plan.isParallel = false → traces = []) ∧
      ∀ trace ∈ traces, setting.OrderlyScan plan length f trace := by
  cases h with
  | sequential hplan => exact ⟨fun _ => rfl, fun trace hmem => by cases hmem⟩
  | fallback hplan hshares hfirst _ =>
    refine ⟨fun hsequential => by simp [hplan] at hsequential, ?_⟩
    intro trace hmem
    rw [List.mem_singleton.mp hmem]
    exact .inl ⟨_, hshares, Phase.orderly_of_run Nat.zero_lt_two hfirst⟩
  | both hplan hshares hfirst _ hcarries hsecond =>
    refine ⟨fun hsequential => by simp [hplan] at hsequential, ?_⟩
    intro trace hmem
    rcases List.mem_cons.mp hmem with rfl | hmem
    · -- The scan of the slices.
      exact .inl ⟨_, hshares, Phase.orderly_of_run Nat.zero_lt_two hfirst⟩
    · -- The slices that get a carry.
      rw [List.mem_singleton.mp hmem]
      exact .inr ⟨_, hcarries, Phase.orderly_of_run (by decide : 0 < chunkSize) hsecond⟩

theorem attemptScan_quiet {cells : Array α} {f : α → α → α} (h : setting.Quiet plan)
    (host : Host) :
    attemptScan { setting with host } plan cells f = attemptScan setting plan cells f := by
  rcases h with hplan | hmode
  · simp [attemptScan, hplan]
  · simp only [attemptScan, scanInParallel, Phase.run_of_compile hmode host,
      Phase.run_of_compile hmode setting.host]

/-- A scan asks in both of its phases. What follows them asks nothing. -/
theorem View.scan_consults (source : View α) (f : α → α → α) :
    setting.Consults (setting.plan .scan source.length) (source.scan · f)
      (setting.OrderlyScan (setting.plan .scan source.length) source.toArray.size f) where
  run _ h := (View.scan_leaves h).consults (·.orderly)
  quiet hquiet host := by
    simp only [View.scan, Setting.plan_with_host, attemptScan_quiet hquiet host]
    rfl

/-! ## §5 Scatters -/

/-- How the phase of a scatter asks. The units are the targets: each worker walks all of them if
the output is divided, and otherwise those of its slice. -/
def Setting.OrderlyScatter (setting : Setting) (plan : Plan) (job : ScatterJob α)
    (trace : PhaseTrace) : Prop :=
  let count := job.targets.size
  let slices := ((Partition.even (chunkCount count) plan.slices).toElements count).slices
  (∃ shares, (∀ share ∈ shares, share.1 = .ofSpan ⟨0, count⟩) ∧
    setting.Orderly .scatter job.outputKernel shares trace) ∨
  setting.Orderly .scatter job.targetKernel
    (slices.map fun slice => (slice, PrivateOutput.blank job.length)) trace

theorem Setting.RunsScatter.orderly {job : ScatterJob α} {report : Report}
    {traces : List PhaseTrace} (h : setting.RunsScatter plan job report traces) :
    (plan.isParallel = false → traces = []) ∧
      ∀ trace ∈ traces, setting.OrderlyScatter plan job trace := by
  rcases h with ⟨shares, hshares, h⟩ | h
  · obtain ⟨hsequential, horderly⟩ := h.orderly (by decide : 0 < chunkSize)
    exact ⟨hsequential, fun trace hmem => .inl ⟨shares, hshares, horderly trace hmem⟩⟩
  · obtain ⟨hsequential, horderly⟩ := h.orderly (by decide : 0 < chunkSize)
    exact ⟨hsequential, fun trace hmem => .inr (horderly trace hmem)⟩

/-- A job asks about its targets, under either strategy. -/
theorem ScatterJob.run_consults (job : ScatterJob α) (default : α) :
    setting.Consults (setting.plan .scatter job.targets.size) (job.run · default)
      (setting.OrderlyScatter (setting.plan .scatter job.targets.size) job) where
  run _ h := (ScatterJob.run_leaves h).consults (·.orderly)
  quiet hquiet host := by
    rcases hquiet with hplan | hmode
    · simp [ScatterJob.run, hplan]
    · simp only [ScatterJob.run, divideOutputRange, divideScatterVector, scatterPhase,
        Phase.run_of_compile hmode host, Phase.run_of_compile hmode setting.host]
      rfl

/-- A scatter asks what its job asks, unless it rejects its input. -/
theorem View.scatter_consults (source : View α) (targets : Array Target) (default : α)
    (length : Nat) (conflict : Option (α → α → α)) :
    setting.Consults (setting.plan .scatter (min targets.size source.length))
      (source.scatter · targets default length conflict) fun trace =>
        ∃ job : ScatterJob α, job.length = length ∧ job.conflict = conflict ∧
          job.targets.size = min targets.size source.length ∧
          setting.OrderlyScatter (setting.plan .scatter job.targets.size) job trace := by
  unfold View.scatter
  by_cases hrank : source.rank ≠ 1
  · simp only [if_pos hrank]
    exact .rejected _
  simp only [if_neg hrank]
  refine .bind fun cells _ => .bind fun values _ => ?_
  cases hpositions : resolveTargets length 0 (targets.toList.take (min targets.size source.length))
    with
  | error cause => exact .rejected cause
  | ok positions =>
    have hlength := (resolveTargets_forall₂ hpositions).length_eq
    rw [List.length_take, Array.length_toList, Nat.min_eq_left (Nat.min_le_left ..)] at hlength
    let job : ScatterJob α := ⟨values, positions.toArray, length, conflict⟩
    have hjob : setting.Consults (setting.plan .scatter positions.length) (job.run · default)
        fun trace => ∃ job : ScatterJob α, job.length = length ∧ job.conflict = conflict ∧
          job.targets.size = positions.length ∧
          setting.OrderlyScatter (setting.plan .scatter job.targets.size) job trace :=
      (job.run_consults default).imp fun trace h => ⟨job, rfl, rfl, rfl, h⟩
    rw [hlength]
    -- Without a conflict function repetitions are looked for first.
    cases conflict with
    | some f => exact hjob
    | none =>
      refine .bind fun distinct _ => ?_
      cases distinct with
      | error cause => exact .rejected cause
      | ok _ => exact hjob

/-! ## §6 All operations -/

/-- **No unit is put to the host twice.** In every phase of every operation, whatever the host
answers, each attempt asks about consecutive units from where its warmup has ended, a true answer
is the last one a worker gets in that attempt, and over all attempts no unit of a slice is asked
about twice. Under a sequential plan there is no phase, in compile mode a phase asks nothing, and
in neither case does the host make any difference. Nor does the sequential pass that follows a
fallback ask anything. -/
theorem Setting.no_unit_asked_twice (setting : Setting) :
    (∀ {γ σ : Type} {kernel : Kernel γ σ} {phase rest : Phase γ σ},
      phase.finishAlone kernel = .ok rest → rest.trace = phase.trace) ∧
    (∀ {β : Type} (shape : Shape) (f : Coords → β),
      let plan := setting.plan .build shape.size
      setting.Consults plan (View.build · shape f)
        (setting.Orderly .build (buildKernel shape f) (plan.shares fun _ => #[]))) ∧
    (∀ {α β : Type} (source : View α) (f : Visit α → β),
      let plan := setting.plan .map source.length
      setting.Consults plan (source.map · f)
        (setting.Orderly .map (mapKernel source f) (plan.shares fun _ => #[]))) ∧
    (∀ {β : Type} (records : Records) (f : RecordVisit → β),
      let plan := setting.plan .map records.length
      setting.Consults plan (records.map · f)
        (setting.Orderly .map (records.mapKernel f) (plan.shares fun _ => #[]))) ∧
    (∀ {α : Type} (source : View α) (keep : Visit α → Bool),
      let plan := setting.plan .filter source.length
      setting.Consults plan (source.filter · keep) (setting.Orderly .filter
        (filterKernel source keep) (plan.shares fun slice => { firstChunk := slice.start }))) ∧
    (∀ {α : Type} (source : View α) (f : α → α → α),
      let plan := setting.plan .reduce source.toArray.size
      setting.Consults plan (source.reduce · f) (setting.Orderly .reduce
        (reduceKernel source.toArray f) (plan.shares fun _ => none))) ∧
    (∀ {α : Type} (source : View α) (f : α → α → α),
      let plan := setting.plan .scan source.length
      setting.Consults plan (source.scan · f)
        (setting.OrderlyScan plan source.toArray.size f)) ∧
    (∀ {α : Type} (source : View α) (targets : Array Target) (default : α) (length : Nat)
      (conflict : Option (α → α → α)),
      let count := min targets.size source.length
      setting.Consults (setting.plan .scatter count)
        (source.scatter · targets default length conflict) fun trace =>
          ∃ job : ScatterJob α, job.length = length ∧ job.conflict = conflict ∧
            job.targets.size = count ∧
            setting.OrderlyScatter (setting.plan .scatter job.targets.size) job trace) := by
  refine ⟨Phase.trace_of_finishAlone, ?build, ?map, ?records, ?filter, ?reduce, ?scan, ?scatter⟩
  case build => exact fun shape f => (sweep_consults Nat.zero_lt_one).conclude fun _ => rfl
  case map => exact fun source f => (sweep_consults Nat.zero_lt_one).conclude fun _ => rfl
  case records => exact fun records f => (sweep_consults Nat.zero_lt_one).conclude fun _ => rfl
  case filter => exact fun source keep => (sweep_consults Nat.zero_lt_one).conclude fun _ => rfl
  case reduce => exact fun source f => source.reduce_consults f
  case scan => exact fun source f => source.scan_consults f
  case scatter => exact fun source targets default length conflict =>
    source.scatter_consults targets default length conflict

/-- Mapping three chunks by one worker that bails out of every attempt in which it is asked: about
the second chunk in the first attempt, and about the third one in the second. -/
theorem Setting.no_unit_asked_twice_map :
    ∃ run, (View.ofArray 0 (Array.range 65)).map
        { host := BailSchedule.always.host, config := Config.withWorkers {} 1 } (·.index) =
          .ok run ∧
      run.phases = [⟨3, [#[⟨⟨.map, 0, 0, 1⟩, true⟩, ⟨⟨.map, 1, 0, 2⟩, true⟩]]⟩] ∧
      run.Consults (.make .map 65 (Config.withWorkers {} 1) 1)
        (Setting.Orderly
          { host := BailSchedule.always.host, config := Config.withWorkers {} 1 } .map
          (mapKernel (View.ofArray 0 (Array.range 65)) (·.index))
          (Plan.shares (.make .map 65 (Config.withWorkers {} 1) 1) fun _ => #[])) := by
  -- Every question is answered with yes, so each attempt only gets as far as its warmup.
  have hphases : ((View.ofArray 0 (Array.range 65)).map
      { host := BailSchedule.always.host, config := Config.withWorkers {} 1 } (·.index)).map
        (·.phases) =
      .ok [⟨3, [#[⟨⟨.map, 0, 0, 1⟩, true⟩, ⟨⟨.map, 1, 0, 2⟩, true⟩]]⟩] := by rfl
  cases hrun : (View.ofArray 0 (Array.range 65)).map
      { host := BailSchedule.always.host, config := Config.withWorkers {} 1 } (·.index) with
  | error fault =>
    rw [hrun] at hphases
    cases hphases
  | ok run =>
    rw [hrun] at hphases
    have hconsults := (Setting.no_unit_asked_twice
      { host := BailSchedule.always.host, config := Config.withWorkers {} 1 }).2.2.1
        (View.ofArray 0 (Array.range 65)) (·.index)
    exact ⟨run, rfl, Except.ok.inj hphases, hconsults.run run hrun⟩

end ForkJoin
