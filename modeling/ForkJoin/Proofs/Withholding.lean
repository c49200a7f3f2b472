import ForkJoin.Proofs.Layouts
import ForkJoin.Proofs.Outcomes

/-!
# Withheld results

If the sequential path is needed and forbidden, what the workers have done so far is dropped as a
whole: nothing of the states they stopped in gets into the result, which is empty. Up to there each
of them has made the calls of its units from the first one on, so no call is made twice.

## Main definitions
- `Kernel.Logs`: kernels that add calls to the log and take none away.
- `Run.Withholds`: how a run without the permission to run sequentially is related to one with it.
- `NeverPartial`, `CallsOnce`: an operation that returns all of its result or none of it, and one
  that makes no call twice.

## Main statements
- `Phase.Resumes.calls_sublist`: the calls of workers that have stopped somewhere.
- `sweep_calls`: the calls of a sweep, finished or not.
- `Setting.never_partial`: all operations together.
-/

namespace ForkJoin

variable {α β γ σ : Type}

/-! ## §1 The calls of unfinished work -/

section

variable {kernel : Kernel γ σ} {count : Nat} {task : Task γ σ} {tasks : List (Task γ σ)}

/-- On each of `count` units the kernel makes some calls, whatever its state. -/
def Kernel.Logs (kernel : Kernel γ σ) (count : Nat) : Prop :=
  ∀ unit < count, ∀ state, ∃ next calls, (kernel.work unit state).Returns next calls

/-- What is logged when work begins is still there when it ends. -/
theorem Kernel.Logs.log_le (h : kernel.Logs count) {units : List Nat}
    (hunits : ∀ unit ∈ units, unit < count) {state : σ} {log : Array γ} {final : σ × Array γ}
    (hwork : kernel.workAll units state log = .ok final) : log.toList <+: final.2.toList := by
  induction units generalizing state log with
  | nil =>
    cases hwork
    exact List.prefix_rfl
  | cons unit rest ih =>
    obtain ⟨next, calls, hunit⟩ := h unit (hunits unit (List.mem_cons_self ..)) state
    -- The first unit has added its calls, and the rest begins with them.
    have hrest : kernel.workAll rest next (log ++ calls.toArray) = .ok final := by
      have hfirst : kernel.workAll [unit] state log = .ok (next, log ++ calls.toArray) := by
        simp [Kernel.workAll, hunit log]
      have hsplit := kernel.workAll_append [unit] rest state log
      rw [hfirst] at hsplit
      exact hsplit.symm.trans hwork
    have hlog := ih (fun other hother => hunits other (List.mem_cons_of_mem _ hother)) hrest
    rw [Array.toList_append] at hlog
    exact (List.prefix_append ..).trans hlog

/-- Wherever a worker stands, it has begun with the calls of its task. -/
theorem Worker.Resumes.calls_le {worker : Worker γ σ} (hsound : task.Sound kernel)
    (h : worker.Resumes kernel task) (hlogs : kernel.Logs count)
    (hstop : task.slice.stop ≤ count) : worker.calls.toList <+: task.calls := by
  -- The rest of the task is done behind what the worker has logged.
  have hle : worker.slice.pos - task.slice.pos ≤ task.slice.stop - task.slice.pos :=
    Nat.sub_le_sub_right h.le_stop _
  obtain ⟨middle, hdone, hrest⟩ := Kernel.workAll_split hle hsound.work_nil
  obtain rfl : middle = (worker.state, worker.calls) := Except.ok.inj (hdone.symm.trans h.work)
  refine hlogs.log_le (fun unit hunit => ?_) hrest
  have hpos := hsound.pos_le
  have hlt := (List.mem_range'_1.mp hunit).2
  omega

/-- The calls of workers that have stopped somewhere are some of those of their tasks, in order. -/
theorem Phase.Resumes.calls_sublist {phase : Phase γ σ} (hsound : ∀ task ∈ tasks, task.Sound kernel)
    (hstop : ∀ task ∈ tasks, task.slice.stop ≤ count) (h : phase.Resumes kernel tasks)
    (hlogs : kernel.Logs count) : phase.calls.toList.Sublist (tasks.flatMap (·.calls)) := by
  unfold Phase.Resumes at h
  rw [Phase.calls, toList_joinArrays]
  generalize phase.workers = workers at h ⊢
  -- Worker by worker; what each has logged is in front of all that its task logs.
  induction h with
  | nil => exact List.Sublist.refl _
  | @cons task worker tasks workers hhead _ ih =>
    have hmem := List.mem_cons_self (a := task) (l := tasks)
    have hfirst := hhead.calls_le (hsound task hmem) hlogs (hstop task hmem)
    exact hfirst.sublist.append (ih
      (fun other hother => hsound other (List.mem_cons_of_mem _ hother))
      fun other hother => hstop other (List.mem_cons_of_mem _ hother))

end

/-! ## §2 The calls of operations -/

/-- Whether a sweep is finished or not, it makes no other calls than those of its tasks, and none of
them twice. -/
theorem sweep_calls {kernel : Kernel γ σ} (op : Operation) (length : Nat) (state : Slice → σ)
    (task : Span → Task γ σ)
    (hshare : ∀ span, (task span).share = (.ofSpan span, state (.ofSpan span)))
    (hsound : ∀ span : Span, span.start ≤ span.stop → span.stop ≤ chunkCount length →
      (task span).Sound kernel) (hlogs : kernel.Logs (chunkCount length)) {setting : Setting}
    {run : Run γ (Option (List σ))} (hrun : sweep setting op length kernel state = .ok run) :
    ∃ spans, Tiling 0 (chunkCount length) spans ∧
      run.calls.toList.Sublist ((spans.map task).flatMap (·.calls)) := by
  obtain ⟨report, spans, htiling, hruns⟩ :=
    sweep_permit state task length hshare hsound setting op
  obtain ⟨same, hsame, -, hcalls⟩ := hruns setting.config.sequential
  rw [Setting.permit_self] at hsame hcalls
  obtain rfl : run = same := Except.ok.inj (hrun.symm.trans hsame)
  -- No slice ends behind the last chunk.
  have hstop : ∀ span : Span, span.start ≤ span.stop → span.stop ≤ chunkCount length →
      (task span).slice.stop ≤ chunkCount length := by
    intro span _ hle
    have hslice : (task span).slice = .ofSpan span := congrArg (·.1) (hshare span)
    rwa [hslice]
  refine ⟨spans, htiling, ?_⟩
  split at hcalls
  · -- The workers have stopped somewhere.
    obtain ⟨phase, hresumes, hphase⟩ := hcalls
    rw [hphase]
    exact hresumes.calls_sublist (htiling.forall_map hsound) (htiling.forall_map hstop) hlogs
  · rw [hcalls]

section

variable {kernel : Kernel γ (Array β)} {f : γ → β} {args : Nat → List γ} {count : Nat}

theorem Kernel.Appends.logs (h : kernel.Appends f args count) : kernel.Logs count :=
  fun unit hunit out => ⟨_, _, h unit hunit out⟩

theorem sweep_appends_calls {op : Operation} {length : Nat}
    (h : kernel.Appends f args (chunkCount length)) {setting : Setting}
    {run : Run γ (Option (List (Array β)))}
    (hrun : sweep setting op length kernel (fun _ => #[]) = .ok run) :
    run.calls.toList.Sublist ((List.range (chunkCount length)).flatMap args) := by
  obtain ⟨spans, htiling, hcalls⟩ := sweep_calls op length (fun _ => #[]) (appendTask f args)
    (fun _ => rfl) (fun _ hle hstop => appendTask_sound h hle hstop) h.logs hrun
  rwa [flatMap_calls_appendTask f htiling] at hcalls

end

theorem View.build_calls {shape : Shape} {f : Coords → β} {setting : Setting}
    {run : Run Coords (View β)} (hrun : View.build setting shape f = .ok run) :
    run.calls.toList.Sublist shape.dims.rowMajor := by
  obtain ⟨swept, hswept, hconclude⟩ := Fault.bind_eq_ok.mp hrun
  have hcalls := sweep_appends_calls (buildKernel_appends shape f) hswept
  rwa [(Run.same_of_conclude hconclude).1, ← Shape.coordsOfChunk_flatMap]

section

variable {source : View α} (hvalid : source.Valid)

include hvalid

theorem View.map_calls {f : Visit α → β} {setting : Setting} {run : Run (Visit α) (View β)}
    (hrun : source.map setting f = .ok run) : run.calls.toList.Sublist source.visits := by
  obtain ⟨swept, hswept, hconclude⟩ := Fault.bind_eq_ok.mp hrun
  have hcalls := sweep_appends_calls (mapKernel_appends hvalid f _) hswept
  rwa [(Run.same_of_conclude hconclude).1, ← View.visitsAt_chunks]

theorem filterKernel_logs (keep : Visit α → Bool) (count : Nat) :
    (filterKernel source keep).Logs count := by
  intro chunk _ survivors
  have hwork := (chunkVerdict_returns keep hvalid chunk).map fun word : Word => { survivors with
    words := survivors.words.push word
    count := survivors.count + word.bitCount }
  exact ⟨_, _, hwork⟩

theorem View.filter_calls {keep : Visit α → Bool} {setting : Setting}
    {run : Run (Visit α) (View α)} (hrun : source.filter setting keep = .ok run) :
    run.calls.toList.Sublist source.visits := by
  obtain ⟨swept, hswept, hconclude⟩ := Fault.bind_eq_ok.mp hrun
  obtain ⟨spans, htiling, hcalls⟩ := sweep_calls .filter source.length _ (filterTask source keep)
    (fun _ => rfl) (fun _ hle _ => filterTask_sound keep hvalid hle)
    (filterKernel_logs hvalid keep _) hswept
  rw [(Run.same_of_conclude hconclude).1, View.visits, ← htiling.flatMap_elements,
    View.visitsAt_flatMap]
  rwa [List.flatMap_map] at hcalls

end

theorem Records.map_calls {records : Records} {f : RecordVisit → β} {setting : Setting}
    {run : Run RecordVisit (View β)} (hrun : records.map setting f = .ok run) :
    run.calls.toList.Sublist records.visits := by
  obtain ⟨swept, hswept, hconclude⟩ := Fault.bind_eq_ok.mp hrun
  have hcalls := sweep_appends_calls (records.mapKernel_appends f _) hswept
  rwa [(Run.same_of_conclude hconclude).1, ← Records.visits_chunks]

/-! ## §3 Nothing or all of it -/

/-- How a run without the permission to run sequentially is related to one with it. -/
structure Run.Withholds (permitted forbidden : Run γ (View β)) (setting : Setting) : Prop where
  /-- Both end in the same report, or in the same error. -/
  report_eq : forbidden.result.map (·.2) = permitted.result.map (·.2)
  /-- The only error is the complaint about the report. -/
  error : ∀ cause, forbidden.result = .error cause → ∃ report : Report,
    cause = .unexpectedOutcome setting.config.effectiveExpectation report
  /-- On the parallel path both return the same view. -/
  parallel : ∀ out report, forbidden.result = .ok (out, report) → report.path = .parallel →
    permitted.result = .ok (out, report)
  /-- On the sequential path an empty one is returned. -/
  sequential : ∀ out report, forbidden.result = .ok (out, report) → report.path = .sequential →
    out = .empty setting.newBuffer ∧ out.shape.dims = [0]

theorem Run.Withholds.of_check {permitted forbidden : Run γ (View β)} {setting : Setting}
    {report : Report} {view : View β}
    (hpermitted : permitted.result = (report.check setting.config).map fun checked =>
      ((setting.permit true).release report view, checked))
    (hforbidden : forbidden.result = (report.check setting.config).map fun checked =>
      ((setting.permit false).release report view, checked)) :
    permitted.Withholds forbidden setting := by
  refine ⟨?_, ?_, ?_, ?_⟩
  · rw [hpermitted, hforbidden]
    cases report.check setting.config <;> rfl
  · intro cause hcause
    have hends : forbidden.Ends setting.config fun _ => True := .of_check hforbidden trivial
    obtain ⟨unexpected, -, heq⟩ := hends.error cause hcause
    exact ⟨unexpected, heq⟩
  · intro out reported hresult hpath
    obtain ⟨rfl, rfl⟩ := Run.eq_of_check hforbidden hresult
    -- Neither run withholds the view.
    rw [Setting.release_of_parallel view hpath] at hpermitted hforbidden hresult ⊢
    rw [hpermitted, ← hforbidden, hresult]
  · intro out reported hresult hpath
    obtain ⟨rfl, rfl⟩ := Run.eq_of_check hforbidden hresult
    rw [Setting.release, if_pos (Setting.withholds_eq_true.mpr ⟨hpath, rfl⟩)]
    exact ⟨rfl, rfl⟩

/-- The operation never returns a part of its result. -/
def NeverPartial (operation : Setting → Except Fault (Run γ (View β))) : Prop :=
  ∀ setting : Setting, ∃ permitted forbidden, operation (setting.permit true) = .ok permitted ∧
    operation (setting.permit false) = .ok forbidden ∧ permitted.Withholds forbidden setting

/-- Whatever the setting, the operation makes some of the given calls, in their order, and no two
calls at one index. -/
def CallsOnce {ι : Type} (operation : Setting → Except Fault (Run γ (View β))) (index : γ → ι)
    (calls : List γ) : Prop :=
  ∀ setting run, operation setting = .ok run →
    run.calls.toList.Sublist calls ∧ (run.calls.toList.map index).Nodup

section

variable {operation : Setting → Except Fault (Run γ (View β))}

theorem NeverPartial.of_yields (h : ∀ setting, ∃ view, Yields operation setting view) :
    NeverPartial operation := by
  intro setting
  obtain ⟨view, report, hruns⟩ := h setting
  obtain ⟨permitted, hpermitted, hresult⟩ := hruns true
  obtain ⟨forbidden, hforbidden, hwithheld⟩ := hruns false
  exact ⟨permitted, forbidden, hpermitted, hforbidden, .of_check hresult hwithheld⟩

theorem CallsOnce.of_sublist {ι : Type} {index : γ → ι} {calls : List γ}
    (hnodup : (calls.map index).Nodup)
    (h : ∀ setting run, operation setting = .ok run → run.calls.toList.Sublist calls) :
    CallsOnce operation index calls := by
  intro setting run hrun
  have hsublist := h setting run hrun
  exact ⟨hsublist, hnodup.sublist (hsublist.map index)⟩

end

theorem View.nodup_index_visits {source : View α} (hvalid : source.Valid) :
    (source.visits.map (·.index)).Nodup := by
  rw [(View.covers_visits hvalid).indices_eq]
  exact List.nodup_range

/-- No two records begin at one offset. -/
theorem Records.nodup_offset_visits {bytes : Array UInt8} {layout : Layout} {records : Records}
    (hrecords : Records.ofBytes? bytes layout = .ok records) :
    (records.visits.map (·.offset)).Nodup := by
  obtain ⟨hsize, -, rfl, -⟩ := Records.ofBytes?_eq_ok hrecords
  rw [Records.visits, List.map_map]
  refine List.nodup_range.map fun i j hij => ?_
  exact Nat.eq_of_mul_eq_mul_right (Nat.pos_of_ne_zero hsize) hij

/-- **Without the sequential path there is never a part of a result.** With the permission to run
sequentially and without it an operation ends in the same report or in the same complaint. On the
parallel path it returns the same view; on the sequential path it returns the empty sequence. No
callback of a build, a map or a filter is called twice at one index, finished or not. -/
theorem Setting.never_partial :
    (∀ {β : Type} (shape : Shape) (f : Coords → β),
      NeverPartial (View.build · shape f) ∧
      CallsOnce (View.build · shape f) id shape.dims.rowMajor) ∧
    (∀ {α β : Type} (source : View α) (f : Visit α → β), source.Valid →
      NeverPartial (source.map · f) ∧ CallsOnce (source.map · f) (·.index) source.visits) ∧
    (∀ {β : Type} (bytes : Array UInt8) (layout : Layout) (records : Records)
      (f : RecordVisit → β), Records.ofBytes? bytes layout = .ok records →
      NeverPartial (records.map · f) ∧ CallsOnce (records.map · f) (·.offset) records.visits) ∧
    (∀ {α : Type} (source : View α) (keep : Visit α → Bool), source.Valid →
      NeverPartial (source.filter · keep) ∧
      CallsOnce (source.filter · keep) (·.index) source.visits) ∧
    (∀ {α : Type} (source : View α) (f : α → α → α), source.Valid → source.rank = 1 →
      source.isEmpty = false → NeverPartial (source.scan · f)) ∧
    (∀ {α : Type} (source : View α) (targets : Array Target) (default : α) (length : Nat)
      (conflict : Option (α → α → α)) (positions : List Nat), source.Valid → source.rank = 1 →
      Accepts targets source.length length conflict positions →
      NeverPartial (source.scatter · targets default length conflict)) := by
  refine ⟨?build, ?map, ?records, ?filter, ?scan, ?scatter⟩
  case build =>
    intro β shape f
    refine ⟨.of_yields fun setting => ⟨_, View.build_yields shape f setting⟩,
      .of_sublist ?_ fun _ _ hrun => View.build_calls hrun⟩
    rw [List.map_id]
    exact Dims.nodup_rowMajor shape.dims
  case map =>
    intro α β source f hvalid
    exact ⟨.of_yields fun setting => ⟨_, View.map_yields hvalid f setting⟩,
      .of_sublist (View.nodup_index_visits hvalid) fun _ _ hrun => View.map_calls hvalid hrun⟩
  case records =>
    intro β bytes layout records f hrecords
    exact ⟨.of_yields fun setting => ⟨_, records.map_yields f setting⟩,
      .of_sublist (Records.nodup_offset_visits hrecords) fun _ _ hrun => Records.map_calls hrun⟩
  case filter =>
    intro α source keep hvalid
    exact ⟨.of_yields fun setting => ⟨_, View.filter_yields hvalid keep setting⟩,
      .of_sublist (View.nodup_index_visits hvalid) fun _ _ hrun => View.filter_calls hvalid hrun⟩
  case scan =>
    intro α source f hvalid hrank hne
    apply NeverPartial.of_yields
    intro setting
    obtain ⟨out, -, hyields⟩ := View.scan_yields hvalid hrank hne f setting
    exact ⟨_, hyields⟩
  case scatter =>
    intro α source targets default length conflict positions hvalid hrank haccepts
    apply NeverPartial.of_yields
    intro setting
    obtain ⟨out, -, hyields⟩ := View.scatter_yields hvalid hrank haccepts default setting
    exact ⟨_, hyields⟩

/-- A hundred numbers, filtered by a worker that bails out of every attempt. Three warmups leave it in
front of the last chunk; the verdicts on the other chunks are dropped, and nothing is kept. -/
theorem Setting.never_partial_filter :
    ∃ run, (View.ofArray 0 (Array.range 100)).filter
        { host := BailSchedule.always.host, config := (Config.withWorkers {} 1).withoutSequential }
        (fun visit => visit.index % 2 == 0) = .ok run ∧
      run.result = .ok (.empty 0, ⟨.filter, .sequential, 3, .eligible⟩) ∧
      run.calls.toList.Sublist (View.ofArray 0 (Array.range 100)).visits := by
  have hvalid : (View.ofArray 0 (Array.range 100)).Valid := ⟨rfl, by decide⟩
  obtain ⟨-, -, -, hfilter, -, -⟩ := Setting.never_partial
  obtain ⟨hpartial, hcalls⟩ := hfilter _ (fun visit => visit.index % 2 == 0) hvalid
  obtain ⟨permitted, forbidden, -, hforbidden, hwithholds⟩ := hpartial
    { host := BailSchedule.always.host, config := Config.withWorkers {} 1 }
  obtain ⟨run, out, hrun, hresult⟩ := Run.exists_result
    (x := (View.ofArray 0 (Array.range 100)).filter
      { host := BailSchedule.always.host, config := (Config.withWorkers {} 1).withoutSequential }
      (fun visit => visit.index % 2 == 0)) ⟨.filter, .sequential, 3, .eligible⟩ (by decide +kernel)
  obtain rfl : run = forbidden := Except.ok.inj (hrun.symm.trans hforbidden)
  obtain ⟨rfl, -⟩ := hwithholds.sequential _ _ hresult rfl
  exact ⟨run, hrun, hresult, (hcalls _ _ hrun).1⟩

end ForkJoin
