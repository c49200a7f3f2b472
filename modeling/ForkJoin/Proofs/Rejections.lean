import ForkJoin.Proofs.Outcomes
import ForkJoin.Proofs.Reduce

/-!
# Rejections

An input is accepted or rejected by what it is, not by how it is run. What looks at an input before
anything runs does not look at the setting; and once something has run, whatever the host answers,
the steps that could still fail do not: there is a view that the operation comes to, or some worker
has come to a value. So no operation fails in one setting only.

## Main definitions
- `Run.Accepted`: a run that ends in a result, or in the complaint about its execution.
- `RejectsNothing`: the operations that accept their input in every setting.
- `RejectsAlike`: those that reject it in all settings or in none.
- `Screens`: those that reject it in all settings, or come to a sequence of some length.

## Main statements
- `RejectsNothing.of_yields`, `View.reduce_rejectsNothing`: the accepted inputs.
- `View.scan_screens`, `View.scatter_screens`: all inputs of a scan and of a scatter.
- `InputError.same_in_every_setting`: all operations together.
-/

namespace ForkJoin

variable {α β γ ρ : Type}

/-! ## §1 Rejected and accepted inputs -/

/-- The only error is that the execution was not the expected one. -/
def Run.Accepted (run : Run γ ρ) : Prop :=
  ∀ error, run.result = .error error → ∃ expected report, error = .unexpectedOutcome expected report

/-- An operation runs in every setting, and accepts its input. -/
def RejectsNothing (operation : Setting → Except Fault (Run γ ρ)) : Prop :=
  ∀ setting, ∃ run, operation setting = .ok run ∧ run.Accepted

/-- If an operation rejects its input in one setting it does so in every setting, for the same
cause and before anything runs: there are no calls and no phases. -/
def RejectsAlike (operation : Setting → Except Fault (Run γ ρ)) : Prop :=
  ∀ setting run error, operation setting = .ok run → run.result = .error error →
    (∀ expected report, error ≠ .unexpectedOutcome expected report) →
    ∀ other, ∃ twin, operation other = .ok twin ∧ twin.result = .error error ∧
      twin.calls = #[] ∧ twin.phases = []

/-- A run whose report is held against the expectation has accepted its input. -/
theorem Run.Accepted.of_check {run : Run γ ρ} {config : Config} {report : Report} {out : ρ}
    (h : run.result = (report.check config).map fun report => (out, report)) : run.Accepted := by
  intro error herror
  have hends : run.Ends config fun _ => True := .of_check h trivial
  obtain ⟨unexpected, -, rfl⟩ := hends.error error herror
  exact ⟨_, unexpected, rfl⟩

section

variable {operation : Setting → Except Fault (Run γ ρ)}

/-- An accepted input is rejected in no setting. -/
theorem RejectsNothing.rejectsAlike (h : RejectsNothing operation) : RejectsAlike operation := by
  intro setting run error hrun herror hinput
  obtain ⟨accepted, haccepted, hends⟩ := h setting
  obtain rfl : run = accepted := Except.ok.inj (hrun.symm.trans haccepted)
  obtain ⟨expected, report, rfl⟩ := hends error herror
  exact absurd rfl (hinput expected report)

theorem RejectsNothing.exists_run (h : RejectsNothing operation) (setting : Setting) :
    ∃ run, operation setting = .ok run := by
  obtain ⟨run, hrun, -⟩ := h setting
  exact ⟨run, hrun⟩

/-- An input that is rejected without a look at the setting. -/
theorem RejectsAlike.of_rejected {cause : InputError}
    (h : ∀ setting, operation setting = .ok (.rejected cause)) : RejectsAlike operation := by
  intro setting run error hrun herror _ other
  obtain rfl : run = .rejected cause := Except.ok.inj (hrun.symm.trans (h setting))
  exact ⟨.rejected cause, h other, herror, rfl, rfl⟩

end

/-- An operation rejects its input in every setting, for one cause, or it comes to a sequence of a
given length in every setting. -/
def Screens (operation : Setting → Except Fault (Run γ (View β))) (length : Nat) : Prop :=
  (∃ cause, ∀ setting, operation setting = .ok (.rejected cause)) ∨
  ∀ setting, ∃ out : Array β, out.size = length ∧
    Yields operation setting (.ofArray setting.newBuffer out)

section

variable {operation : Setting → Except Fault (Run γ (View β))}

/-- An operation that comes to a view accepts its input. -/
theorem RejectsNothing.of_yields (h : ∀ setting, ∃ view, Yields operation setting view) :
    RejectsNothing operation := by
  intro setting
  obtain ⟨view, hyields⟩ := h setting
  obtain ⟨run, report, hrun, hresult⟩ := hyields.exists_run
  exact ⟨run, hrun, .of_check hresult⟩

/-- An input that is accepted or rejected is one that the operation runs on. -/
theorem Screens.exists_run {length : Nat} (h : Screens operation length) (setting : Setting) :
    ∃ run, operation setting = .ok run := by
  rcases h with ⟨cause, hrejected⟩ | hyields
  · exact ⟨_, hrejected setting⟩
  · obtain ⟨out, -, hview⟩ := hyields setting
    obtain ⟨run, report, hrun, -⟩ := hview.exists_run
    exact ⟨run, hrun⟩

theorem Screens.rejectsAlike {length : Nat} (h : Screens operation length) :
    RejectsAlike operation := by
  rcases h with ⟨cause, hrejected⟩ | hyields
  · exact .of_rejected hrejected
  · apply RejectsNothing.rejectsAlike
    apply RejectsNothing.of_yields
    intro setting
    obtain ⟨out, -, hview⟩ := hyields setting
    exact ⟨_, hview⟩

end

/-! ## §2 Building, mapping and filtering -/

theorem View.build_rejectsNothing (shape : Shape) (f : Coords → β) :
    RejectsNothing (View.build · shape f) :=
  .of_yields fun setting => ⟨_, View.build_yields shape f setting⟩

theorem View.map_rejectsNothing {source : View α} (hvalid : source.Valid)
    (f : Visit α → β) : RejectsNothing (source.map · f) :=
  .of_yields fun setting => ⟨_, View.map_yields hvalid f setting⟩

theorem Records.map_rejectsNothing (records : Records) (f : RecordVisit → β) :
    RejectsNothing (records.map · f) :=
  .of_yields fun setting => ⟨_, records.map_yields f setting⟩

theorem View.filter_rejectsNothing {source : View α} (hvalid : source.Valid)
    (keep : Visit α → Bool) : RejectsNothing (source.filter · keep) :=
  .of_yields fun setting => ⟨_, View.filter_yields hvalid keep setting⟩

/-! ## §3 Reductions and scans -/

section

variable {source : View α}

/-- Some worker comes to a value, so the result of a reduction is there. -/
theorem View.reduce_rejectsNothing (hvalid : source.Valid) (hrank : source.rank = 1)
    (hne : source.isEmpty = false) (f : α → α → α) : RejectsNothing (source.reduce · f) := by
  intro setting
  obtain ⟨run, report, value, hrun, hresult, -, -⟩ := View.reduce_eq f setting hvalid hrank hne
  exact ⟨run, hrun, .of_check hresult⟩

/-- A sequence without an element is rejected. -/
theorem View.reduce_of_isEmpty (hvalid : source.Valid) (hrank : source.rank = 1)
    (hempty : source.isEmpty = true) (f : α → α → α) (setting : Setting) :
    source.reduce setting f = .ok (.rejected .emptyDomain) := by
  have hcells : source.toArray.isEmpty = true := by rw [isEmpty_toArray hvalid hrank, hempty]
  rw [View.reduce, if_neg (by simp [hrank]), window_eq hvalid]
  exact if_pos hcells

theorem View.reduce_rejectsAlike (hvalid : source.Valid) (f : α → α → α) :
    RejectsAlike (source.reduce · f) := by
  by_cases hrank : source.rank = 1
  · cases hempty : source.isEmpty with
    | false => exact (View.reduce_rejectsNothing hvalid hrank hempty f).rejectsAlike
    | true => exact .of_rejected (View.reduce_of_isEmpty hvalid hrank hempty f)
  · exact .of_rejected fun setting => if_pos hrank

theorem View.scan_rejectsNothing (hvalid : source.Valid) (hrank : source.rank = 1)
    (hne : source.isEmpty = false) (f : α → α → α) : RejectsNothing (source.scan · f) := by
  apply RejectsNothing.of_yields
  intro setting
  obtain ⟨out, -, hyields⟩ := View.scan_yields hvalid hrank hne f setting
  exact ⟨_, hyields⟩

theorem View.scan_of_isEmpty (hrank : source.rank = 1) (hempty : source.isEmpty = true)
    (f : α → α → α) (setting : Setting) :
    source.scan setting f = .ok (.rejected .emptyDomain) := by
  rw [View.scan, if_neg (by simp [hrank]), if_pos hempty]

theorem View.scan_screens (hvalid : source.Valid) (f : α → α → α) :
    Screens (source.scan · f) source.length := by
  by_cases hrank : source.rank = 1
  · cases hempty : source.isEmpty with
    | false => exact .inr (View.scan_yields hvalid hrank hempty f)
    | true => exact .inl ⟨_, View.scan_of_isEmpty hrank hempty f⟩
  · exact .inl ⟨_, fun setting => if_pos hrank⟩

theorem View.scan_rejectsAlike (hvalid : source.Valid) (f : α → α → α) :
    RejectsAlike (source.scan · f) :=
  (View.scan_screens hvalid f).rejectsAlike

end

/-! ## §4 Scatters -/

section

variable {source : View α} {targets : Array Target} {length : Nat}
  {conflict : Option (α → α → α)} {positions : List Nat}

theorem View.scatter_rejectsNothing (hvalid : source.Valid) (hrank : source.rank = 1)
    (haccepts : Accepts targets source.length length conflict positions) (default : α) :
    RejectsNothing (source.scatter · targets default length conflict) := by
  apply RejectsNothing.of_yields
  intro setting
  obtain ⟨out, -, hyields⟩ := View.scatter_yields hvalid hrank haccepts default setting
  exact ⟨_, hyields⟩

/-- A target that is not resolved is rejected. -/
theorem View.scatter_of_unresolved (hvalid : source.Valid) (hrank : source.rank = 1)
    {cause : InputError} (h : resolveTargets length 0
      (targets.toList.take (min targets.size source.length)) = .error cause)
    (default : α) (conflict : Option (α → α → α)) (setting : Setting) :
    source.scatter setting targets default length conflict = .ok (.rejected cause) := by
  simp only [View.scatter, hrank, ne_eq, not_true, if_false, View.window_eq hvalid, Fault.ok_bind,
    View.extract_values hvalid hrank, h]
  rfl

/-- A position that occurs a second time is rejected if there is no conflict function. -/
theorem View.scatter_of_repeated (hvalid : source.Valid) (hrank : source.rank = 1)
    (h : resolveTargets length 0
      (targets.toList.take (min targets.size source.length)) = .ok positions)
    {found : Nat × Nat} (hrepeat : firstRepeat? 0 [] positions = some found) (default : α)
    (setting : Setting) :
    source.scatter setting targets default length none =
      .ok (.rejected (.targetConflict found.1 found.2)) := by
  have hdistinct := requireDistinct_blank (lt_of_resolveTargets h)
  rw [hrepeat] at hdistinct
  simp only [View.scatter, hrank, ne_eq, not_true, if_false, View.window_eq hvalid, Fault.ok_bind,
    View.extract_values hvalid hrank, h]
  simp [hdistinct]

/-- Nothing else is. -/
theorem Accepts.of_resolved (h : resolveTargets length 0
      (targets.toList.take (min targets.size source.length)) = .ok positions)
    (hrepeat : conflict = none → firstRepeat? 0 [] positions = none) :
    Accepts targets source.length length conflict positions := by
  refine ⟨h, fun hnone => ?_⟩
  rw [requireDistinct_blank (lt_of_resolveTargets h), hrepeat hnone]
  rfl

/-- Validation never breaks off: it rejects the input whatever the setting, or accepts it. -/
theorem View.scatter_rejected_or_accepts (hvalid : source.Valid) (targets : Array Target)
    (default : α) (length : Nat) (conflict : Option (α → α → α)) :
    (∃ cause, ∀ setting,
      source.scatter setting targets default length conflict = .ok (.rejected cause)) ∨
    (source.rank = 1 ∧ ∃ positions, Accepts targets source.length length conflict positions) := by
  by_cases hrank : source.rank = 1
  -- The checks one after another: the rank, the targets, and their conflicts.
  swap
  · exact .inl ⟨_, fun setting => if_pos hrank⟩
  cases hresolved : resolveTargets length 0
      (targets.toList.take (min targets.size source.length)) with
  | error cause =>
    exact .inl ⟨cause, View.scatter_of_unresolved hvalid hrank hresolved default conflict⟩
  | ok positions =>
    cases conflict with
    | some f => exact .inr ⟨hrank, positions, .of_resolved hresolved fun hnone => by cases hnone⟩
    | none =>
      cases hrepeat : firstRepeat? 0 [] positions with
      | some found =>
        exact .inl ⟨_, View.scatter_of_repeated hvalid hrank hresolved hrepeat default⟩
      | none => exact .inr ⟨hrank, positions, .of_resolved hresolved fun _ => hrepeat⟩

theorem View.scatter_screens (hvalid : source.Valid) (targets : Array Target) (default : α)
    (length : Nat) (conflict : Option (α → α → α)) :
    Screens (source.scatter · targets default length conflict) length := by
  rcases View.scatter_rejected_or_accepts hvalid targets default length conflict with
    hrejected | ⟨hrank, positions, haccepts⟩
  · exact .inl hrejected
  · exact .inr (View.scatter_yields hvalid hrank haccepts default)

theorem View.scatter_rejectsAlike (hvalid : source.Valid) (targets : Array Target) (default : α)
    (length : Nat) (conflict : Option (α → α → α)) :
    RejectsAlike (source.scatter · targets default length conflict) :=
  (View.scatter_screens hvalid targets default length conflict).rejectsAlike

end

/-! ## §5 All operations -/

/-- **No input is rejected in one setting only.** Whatever is wrong with an input is found in every
setting, for the same cause and before anything runs. With shapes, views and records that can be
made, a build, a map or a filter finds nothing wrong at all, and neither does a reduction or a scan
of a sequence with an element: its domain is never found to be empty. -/
theorem InputError.same_in_every_setting :
    (∀ {β : Type} (shape : Shape) (f : Coords → β),
      RejectsAlike (View.build · shape f) ∧ RejectsNothing (View.build · shape f)) ∧
    (∀ {α β : Type} (source : View α) (f : Visit α → β), source.Valid →
      RejectsAlike (source.map · f) ∧ RejectsNothing (source.map · f)) ∧
    (∀ {β : Type} (records : Records) (f : RecordVisit → β),
      RejectsAlike (records.map · f) ∧ RejectsNothing (records.map · f)) ∧
    (∀ {α : Type} (source : View α) (keep : Visit α → Bool), source.Valid →
      RejectsAlike (source.filter · keep) ∧ RejectsNothing (source.filter · keep)) ∧
    (∀ {α : Type} (source : View α) (f : α → α → α), source.Valid →
      RejectsAlike (source.reduce · f) ∧
      (source.rank = 1 → source.isEmpty = false → RejectsNothing (source.reduce · f))) ∧
    (∀ {α : Type} (source : View α) (f : α → α → α), source.Valid →
      RejectsAlike (source.scan · f) ∧
      (source.rank = 1 → source.isEmpty = false → RejectsNothing (source.scan · f))) ∧
    (∀ {α : Type} (source : View α) (targets : Array Target) (default : α) (length : Nat)
      (conflict : Option (α → α → α)), source.Valid →
      RejectsAlike (source.scatter · targets default length conflict)) := by
  refine ⟨?build, ?map, ?records, ?filter, ?reduce, ?scan, ?scatter⟩
  case build =>
    intro β shape f
    have hbuild := View.build_rejectsNothing shape f
    exact ⟨hbuild.rejectsAlike, hbuild⟩
  case map =>
    intro α β source f hvalid
    have hmap := View.map_rejectsNothing hvalid f
    exact ⟨hmap.rejectsAlike, hmap⟩
  case records =>
    intro β records f
    have hmap := records.map_rejectsNothing f
    exact ⟨hmap.rejectsAlike, hmap⟩
  case filter =>
    intro α source keep hvalid
    have hfilter := View.filter_rejectsNothing hvalid keep
    exact ⟨hfilter.rejectsAlike, hfilter⟩
  case reduce =>
    intro α source f hvalid
    exact ⟨View.reduce_rejectsAlike hvalid f,
      fun hrank hne => View.reduce_rejectsNothing hvalid hrank hne f⟩
  case scan =>
    intro α source f hvalid
    exact ⟨View.scan_rejectsAlike hvalid f,
      fun hrank hne => View.scan_rejectsNothing hvalid hrank hne f⟩
  case scatter =>
    intro α source targets default length conflict hvalid
    exact View.scatter_rejectsAlike hvalid targets default length conflict

/-- The second target lies outside the output. By two workers that bail out of every attempt and
may not finish sequentially it is rejected as it is with the defaults, and a reduction by the same
workers is run to its end. -/
theorem InputError.same_in_every_setting_target :
    (∃ run, (View.ofArray 0 #[5, 7]).scatter {} #[.unsigned 1, .unsigned 4] 0 3 none = .ok run ∧
      run.result = .error (.input (.targetOutOfBounds 1 4 3))) ∧
    (∃ twin, (View.ofArray 0 #[5, 7]).scatter
        { host := BailSchedule.always.host, config := (Config.withWorkers {} 2).withoutSequential }
        #[.unsigned 1, .unsigned 4] 0 3 none = .ok twin ∧
      twin.result = .error (.input (.targetOutOfBounds 1 4 3)) ∧ twin.calls = #[] ∧
      twin.phases = []) ∧
    ∃ run, (View.ofArray 0 #[5, 7]).reduce
        { host := BailSchedule.always.host, config := (Config.withWorkers {} 2).withoutSequential }
        (· - ·) = .ok run ∧ run.Accepted := by
  have hvalid : (View.ofArray 0 #[5, 7]).Valid := ⟨rfl, by decide⟩
  obtain ⟨-, -, -, -, hreduce, -, hscatter⟩ := InputError.same_in_every_setting
  have hrun : (View.ofArray 0 #[5, 7]).scatter {} #[.unsigned 1, .unsigned 4] 0 3 none =
      .ok (.rejected (.targetOutOfBounds 1 4 3)) := rfl
  refine ⟨⟨_, hrun, rfl⟩, ?_, (hreduce _ (· - ·) hvalid).2 rfl rfl _⟩
  exact hscatter _ _ 0 3 none hvalid {} _ _ hrun rfl (fun _ _ h => by cases h) _

end ForkJoin
