import ForkJoin.Proofs.Build
import ForkJoin.Proofs.Filter
import ForkJoin.Proofs.Map
import ForkJoin.Proofs.Scan
import ForkJoin.Proofs.Scatter

/-!
# What operations come to

An operation on an accepted input runs to its end whatever the host answers, and there is one view
that it comes to. Whether the sequential path may run is asked once the parallel attempt is over, so
that it has no influence on the report; it decides only whether the view is returned or withheld.

## Main definitions
- `Yields`: what an operation comes to, with and without the permission to run sequentially.

## Main statements
- `Yields.result_eq`: what the operation returns.
- `sweep_yields`, `sweep_appends_yields`: sweeps whose states are turned into a view.
- `View.build_yields`, `View.map_yields`, `View.filter_yields`, `Records.map_yields`,
  `View.scan_yields`, `View.scatter_yields`: the operations one by one.
-/

namespace ForkJoin

variable {α β γ σ : Type}

/-! ## §1 Views that are returned or withheld -/

/-- What an operation comes to in a setting. With the permission to run sequentially and without it,
the operation runs and ends in one report, and it returns the view unless that is withheld. -/
def Yields (operation : Setting → Except Fault (Run γ (View β))) (setting : Setting)
    (view : View β) : Prop :=
  ∃ report : Report, ∀ sequential, ∃ run, operation (setting.permit sequential) = .ok run ∧
    run.result = (report.check setting.config).map fun checked =>
      ((setting.permit sequential).release report view, checked)

section

variable {operation : Setting → Except Fault (Run γ (View β))} {setting : Setting} {view : View β}

/-- The run in the setting itself. -/
theorem Yields.exists_run (h : Yields operation setting view) :
    ∃ (run : Run γ (View β)) (report : Report), operation setting = .ok run ∧
      run.result = (report.check setting.config).map fun checked =>
        (setting.release report view, checked) := by
  obtain ⟨report, hruns⟩ := h
  obtain ⟨run, hrun, hresult⟩ := hruns setting.config.sequential
  rw [Setting.permit_self] at hrun hresult
  exact ⟨run, report, hrun, hresult⟩

/-- What is returned is the view, or an empty one. -/
theorem Yields.result_eq (h : Yields operation setting view) {run : Run γ (View β)}
    {out : View β} {report : Report} (hrun : operation setting = .ok run)
    (hresult : run.result = .ok (out, report)) : out = view ∨ out = .empty setting.newBuffer := by
  obtain ⟨same, reported, hsame, hends⟩ := h.exists_run
  obtain rfl : run = same := Except.ok.inj (hrun.symm.trans hsame)
  obtain ⟨rfl, -⟩ := Run.eq_of_check hends hresult
  rw [Setting.release]
  split
  · exact .inr rfl
  · exact .inl rfl

end

/-! ## §2 Sweeps -/

/-- A sweep comes to what the states of its workers are turned into. -/
theorem sweep_yields {kernel : Kernel γ σ} (op : Operation) (length : Nat) (state : Slice → σ)
    (task : Span → Task γ σ)
    (hshare : ∀ span, (task span).share = (.ofSpan span, state (.ofSpan span)))
    (hsound : ∀ span : Span, span.start ≤ span.stop → span.stop ≤ chunkCount length →
      (task span).Sound kernel)
    {next : Setting → Option (List σ) → Except Fault (Except InputError (View β))}
    (hnone : ∀ setting, next setting none = .ok (.ok (.empty setting.newBuffer)))
    {setting : Setting} {view : View β}
    (hsome : ∀ sequential spans, Tiling 0 (chunkCount length) spans →
      next (setting.permit sequential) (some ((spans.map task).map (·.final))) = .ok (.ok view)) :
    Yields (fun setting => do
      (← sweep setting op length kernel state).conclude (next setting)) setting view := by
  obtain ⟨report, spans, htiling, hruns⟩ :=
    sweep_permit state task length hshare hsound setting op
  refine ⟨report, fun sequential => ?_⟩
  obtain ⟨run, hrun, hresult, -⟩ := hruns sequential
  -- States that are withheld have no part in what is returned.
  have hnext : next (setting.permit sequential)
      ((setting.permit sequential).keep report ((spans.map task).map (·.final))) =
        .ok (.ok ((setting.permit sequential).release report view)) := by
    unfold Setting.keep Setting.release
    split
    · exact hnone _
    · exact hsome sequential spans htiling
  obtain ⟨final, hfinal, hends, -⟩ := Run.conclude_of_check hresult hnext
  exact ⟨final, by simp only [hrun, Fault.ok_bind, hfinal], hends⟩

/-- A sweep of a kernel that appends comes to what the values at all arguments are turned into. -/
theorem sweep_appends_yields {τ : Type} {kernel : Kernel γ (Array β)} {f : γ → β}
    {args : Nat → List γ} (op : Operation) (length : Nat)
    (h : kernel.Appends f args (chunkCount length))
    {next : Setting → Option (List (Array β)) → Except Fault (Except InputError (View τ))}
    (hnone : ∀ setting, next setting none = .ok (.ok (.empty setting.newBuffer)))
    {setting : Setting} {view : View τ}
    (hsome : ∀ sequential parts,
      joinArrays parts = (((List.range (chunkCount length)).flatMap args).map f).toArray →
      next (setting.permit sequential) (some parts) = .ok (.ok view)) :
    Yields (fun setting => do
      (← sweep setting op length kernel fun _ => #[]).conclude (next setting)) setting view :=
  sweep_yields op length (fun _ => #[]) (appendTask f args) (fun _ => rfl)
    (fun _ hle hstop => appendTask_sound h hle hstop) hnone
    fun sequential _ htiling => hsome sequential _ (joinArrays_appendTask htiling)

/-! ## §3 Building, mapping and filtering -/

theorem View.build_yields (shape : Shape) (f : Coords → β) (setting : Setting) :
    Yields (View.build · shape f) setting
      ⟨shape, ⟨setting.newBuffer, (shape.dims.rowMajor.map f).toArray⟩, 0⟩ := by
  apply sweep_appends_yields .build shape.size (buildKernel_appends shape f)
  · exact fun _ => rfl
  intro sequential parts hparts
  rw [Shape.coordsOfChunk_flatMap] at hparts
  -- The values of all coordinates are as many as the shape has elements.
  have hsize := shape.size_map_rowMajor f
  rw [← hparts] at hsize ⊢
  exact congrArg Except.ok (if_pos hsize)

section

variable {source : View α} (hvalid : source.Valid)

include hvalid

theorem View.map_yields (f : Visit α → β) (setting : Setting) :
    Yields (source.map · f) setting (.ofArray setting.newBuffer (source.visits.map f).toArray) := by
  apply sweep_appends_yields .map source.length (mapKernel_appends hvalid f _)
  · exact fun _ => rfl
  intro sequential parts hparts
  rw [View.visitsAt_chunks] at hparts
  rw [← hparts]
  rfl

theorem View.filter_yields (keep : Visit α → Bool) (setting : Setting) :
    Yields (source.filter · keep) setting (source.kept keep setting.newBuffer) := by
  apply sweep_yields .filter source.length _ (filterTask source keep) (fun _ => rfl)
    fun _ hle _ => filterTask_sound keep hvalid hle
  · exact fun _ => rfl
  intro sequential spans htiling
  -- Whatever the slices were, collecting comes to the same rows.
  have hfinals : (spans.map (filterTask source keep)).map (·.final) =
      spans.map (survivorsOf source keep) := by
    rw [List.map_map]
    rfl
  rw [hfinals]
  exact View.collect_survivorsOf keep hvalid htiling setting.newBuffer

end

/-- The visits of all records. -/
def Records.visits (records : Records) : List RecordVisit :=
  (List.range records.length).map fun i => ⟨records.bytes, i * records.layout.size⟩

theorem Records.visits_chunks (records : Records) :
    ((List.range (chunkCount records.length)).flatMap fun chunk =>
      (Span.ofChunk chunk records.length).positions.map fun i =>
        RecordVisit.mk records.bytes (i * records.layout.size)) = records.visits := by
  rw [Records.visits, ← flatMap_positions_range_chunkCount records.length, List.map_flatMap]

theorem Records.map_yields (records : Records) (f : RecordVisit → β) (setting : Setting) :
    Yields (records.map · f) setting
      (.ofArray setting.newBuffer (records.visits.map f).toArray) := by
  apply sweep_appends_yields .map records.length (records.mapKernel_appends f _)
  · exact fun _ => rfl
  intro sequential parts hparts
  rw [Records.visits_chunks] at hparts
  rw [← hparts]
  rfl

/-! ## §4 Scanning and scattering -/

section

variable {source : View α}

/-- What a scan comes to is as long as its source. -/
theorem View.scan_yields (hvalid : source.Valid) (hrank : source.rank = 1)
    (hne : source.isEmpty = false) (f : α → α → α) (setting : Setting) :
    ∃ out : Array α, out.size = source.length ∧
      Yields (source.scan · f) setting (.ofArray setting.newBuffer out) := by
  obtain ⟨attempt, hattempt, hparallel⟩ := attemptScan_eq f setting hvalid hrank
  have hsize := size_scanned f attempt fun hpath => (hparallel hpath).1
  rw [View.size_toArray_eq_length hvalid hrank] at hsize
  refine ⟨attempt.scanned f source.toArray, hsize, attempt.report, fun sequential => ?_⟩
  obtain ⟨run, hrun, hresult, -⟩ :=
    concludeScan_eq f (setting.permit sequential) source.toArray attempt
  -- The attempt is the same with and without the permission.
  have hsame : attemptScan (setting.permit sequential)
      ((setting.permit sequential).plan .scan source.length) source.toArray f = .ok attempt :=
    hattempt
  rw [← View.scan_eq_concludeScan f _ hvalid hrank hne hsame] at hrun
  exact ⟨run, hrun, hresult⟩

/-- What a scatter comes to is as long as its output. -/
theorem View.scatter_yields {targets : Array Target} {length : Nat} {conflict : Option (α → α → α)}
    {positions : List Nat} (hvalid : source.Valid) (hrank : source.rank = 1)
    (haccepts : Accepts targets source.length length conflict positions) (default : α)
    (setting : Setting) :
    ∃ out : Array α, out.size = length ∧
      Yields (source.scatter · targets default length conflict) setting
        (.ofArray setting.newBuffer out) := by
  obtain ⟨report, hruns⟩ := (View.scatterJob_ready hvalid hrank haccepts).run_ends setting default
  refine ⟨_, (source.scatterJob positions length conflict).size_resultOf default setting, report,
    fun sequential => ?_⟩
  obtain ⟨run, hrun, hresult, -⟩ := hruns sequential
  rw [← View.scatter_eq _ default hvalid hrank haccepts] at hrun
  exact ⟨run, hrun, hresult⟩

end

end ForkJoin
