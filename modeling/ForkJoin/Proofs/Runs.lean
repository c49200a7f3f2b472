import ForkJoin.Operation.Run
import ForkJoin.Proofs.Calling

/-!
# How runs end

A run on an accepted input ends in a result, or in the complaint that the execution was not the
expected one. Which of the two it is depends on the report alone.

## Main definitions
- `Run.Ends`: every result has a property, and there is no other error.
- `Run.EndsIn`: the run ends in a report, or in the complaint about it.
- `Setting.permit`: a setting with or without the permission to run sequentially.
- `Setting.withholds`: whether a result is withheld.
- `Setting.keep`, `Setting.release`: what is kept of the states of workers and of a view.

## Main statements
- `Report.path_ofPhase_eq_parallel`, `Report.path_andThen_eq_parallel`: which path phases lead to.
- `Run.Ends.of_check`: the runs of all operations end so.
- `Run.conclude_of_check`: turning a result into another one keeps that.
-/

namespace ForkJoin

variable {γ ρ : Type}

/-! ## §1 Paths -/

/-- The path is parallel after a phase that completed, and only then. -/
theorem Report.path_ofPhase_eq_parallel {plan : Plan} {outcome : PhaseOutcome} :
    (Report.ofPhase plan outcome).path = .parallel ↔ outcome.isCompleted = true := by
  cases outcome <;> simp [Report.ofPhase, PhaseOutcome.isCompleted]

/-- One more phase leaves the path parallel if it completed as well. -/
theorem Report.path_andThen_eq_parallel {report : Report} {outcome : PhaseOutcome} :
    (report.andThen outcome).path = .parallel ↔
      outcome.isCompleted = true ∧ report.path = .parallel := by
  cases outcome <;> simp [Report.andThen, PhaseOutcome.isCompleted]

/-! ## §2 Ends -/

/-- How a run on an accepted input ends. -/
structure Run.Ends (run : Run γ ρ) (config : Config) (good : ρ → Prop) : Prop where
  /-- A result has the property. -/
  ok : ∀ out report, run.result = .ok (out, report) → good out
  /-- An error is a report that is not as expected. -/
  error : ∀ cause, run.result = .error cause → ∃ report : Report,
    report.satisfies config.effectiveExpectation = false ∧
      cause = .unexpectedOutcome config.effectiveExpectation report

/-- A run whose report is held against the expectation. -/
theorem Run.Ends.of_check {run : Run γ ρ} {config : Config} {good : ρ → Prop} {report : Report}
    {out : ρ} (h : run.result = (report.check config).map fun report => (out, report))
    (hgood : good out) : run.Ends config good := by
  rw [Report.check] at h
  split at h
  · -- The report is as expected, and the run has a result.
    constructor
    · intro other _ hother
      rw [h] at hother
      cases hother
      exact hgood
    · intro cause hcause
      rw [h] at hcause
      cases hcause
  · -- It is not, and that is the only complaint.
    rename_i hunexpected
    constructor
    · intro other _ hother
      rw [h] at hother
      cases hother
    · intro cause hcause
      rw [h] at hcause
      cases hcause
      exact ⟨report, by simpa using hunexpected, rfl⟩

/-- A run ends in a report if it is as expected, and in the complaint about it if it is not. -/
structure Run.EndsIn (run : Run γ ρ) (config : Config) (report : Report) : Prop where
  ok_iff : (∃ out, run.result = .ok (out, report)) ↔
    report.satisfies config.effectiveExpectation = true
  error_iff : run.result = .error (.unexpectedOutcome config.effectiveExpectation report) ↔
    report.satisfies config.effectiveExpectation = false

section

variable {run : Run γ ρ} {config : Config} {report : Report} {out : ρ}

theorem Run.EndsIn.of_ok {checked : Report} (hcheck : report.check config = .ok checked)
    (h : run.result = .ok (out, checked)) : run.EndsIn config report := by
  rw [Report.check] at hcheck
  split at hcheck
  · rename_i hsatisfies
    cases hcheck
    constructor
    · exact ⟨fun _ => hsatisfies, fun _ => ⟨out, h⟩⟩
    · simp [h, hsatisfies]
  · cases hcheck

theorem Run.EndsIn.of_error {error : Error} (hcheck : report.check config = .error error)
    (h : run.result = .error error) : run.EndsIn config report := by
  rw [Report.check] at hcheck
  split at hcheck
  · cases hcheck
  · rename_i hsatisfies
    cases hcheck
    constructor
    · simp [h, hsatisfies]
    · exact ⟨fun _ => by simpa using hsatisfies, fun _ => h⟩

/-- A run whose report is held against the expectation. -/
theorem Run.EndsIn.of_check
    (h : run.result = (report.check config).map fun report => (out, report)) :
    run.EndsIn config report := by
  cases hcheck : report.check config with
  | ok checked => exact .of_ok hcheck (by rw [h, hcheck]; rfl)
  | error error => exact .of_error hcheck (by rw [h, hcheck]; rfl)

/-- A run ends in one report only. -/
theorem Run.EndsIn.report_eq {reported : Report} (h : run.EndsIn config report)
    (hresult : run.result = .ok (out, reported)) : reported = report := by
  -- Only a report that satisfies the expectation is in a result.
  cases hsatisfies : report.satisfies config.effectiveExpectation with
  | true =>
    obtain ⟨other, hother⟩ := h.ok_iff.mpr hsatisfies
    rw [hresult] at hother
    cases hother
    rfl
  | false =>
    have hother := h.error_iff.mpr hsatisfies
    rw [hresult] at hother
    cases hother

end

/-- Its result, if there is one, comes with the report. -/
theorem Run.eq_of_check {run : Run γ ρ} {config : Config} {report reported : Report} {out other : ρ}
    (h : run.result = (report.check config).map fun report => (out, report))
    (hresult : run.result = .ok (other, reported)) : other = out ∧ reported = report := by
  rw [h, Report.check] at hresult
  split at hresult
  · cases hresult
    exact ⟨rfl, rfl⟩
  · cases hresult

/-- A run that is known to end in a report has a result. -/
theorem Run.exists_result {x : Except Fault (Run γ ρ)} (report : Report)
    (h : x.map (fun run => run.result.map (·.2)) = .ok (.ok report)) :
    ∃ run out, x = .ok run ∧ run.result = .ok (out, report) := by
  cases x with
  | error fault => cases h
  | ok run =>
    have hreport : run.result.map (·.2) = .ok report := Except.ok.inj h
    cases hresult : run.result with
    | error cause =>
      rw [hresult] at hreport
      cases hreport
    | ok result =>
      rw [hresult] at hreport
      cases hreport
      exact ⟨run, result.1, rfl, hresult⟩

/-- Turning the result of such a run into another one keeps everything else. -/
theorem Run.conclude_of_check {τ : Type} {run : Run γ ρ} {config : Config} {report : Report}
    {out : ρ} {next : ρ → Except Fault (Except InputError τ)} {final : τ}
    (h : run.result = (report.check config).map fun report => (out, report))
    (hnext : next out = .ok (.ok final)) :
    ∃ concluded, run.conclude next = .ok concluded ∧
      concluded.result = (report.check config).map (fun report => (final, report)) ∧
      concluded.calls = run.calls ∧ concluded.phases = run.phases := by
  rw [Run.conclude, h]
  cases report.check config with
  | error cause =>
    -- A complaint is handed on, and `next` is not run.
    exact ⟨_, rfl, rfl, rfl, rfl⟩
  | ok report =>
    refine ⟨{ run with result := .ok (final, report) }, ?_, rfl, rfl, rfl⟩
    simp only [Except.map, hnext]
    rfl

/-- Turning a result into another one makes no calls and runs no phase. -/
theorem Run.same_of_conclude {τ : Type} {run : Run γ ρ}
    {next : ρ → Except Fault (Except InputError τ)} {final : Run γ τ}
    (h : run.conclude next = .ok final) : final.calls = run.calls ∧ final.phases = run.phases := by
  rw [Run.conclude] at h
  split at h
  · cases h
    exact ⟨rfl, rfl⟩
  · obtain ⟨concluded, -, h⟩ := Fault.bind_eq_ok.mp h
    cases concluded <;> cases h <;> exact ⟨rfl, rfl⟩

/-! ## §3 Permission to run sequentially -/

/-- The setting with or without the permission to run sequentially. -/
def Setting.permit (setting : Setting) (sequential : Bool) : Setting :=
  { setting with config := { setting.config with sequential } }

/-- Whether a result is withheld: the sequential path was needed, and is forbidden. -/
def Setting.withholds (setting : Setting) (report : Report) : Bool :=
  report.path == .sequential && !setting.config.sequential

/-- What is kept of the states of the workers: nothing if they are withheld. -/
def Setting.keep {τ : Type} (setting : Setting) (report : Report) (states : τ) : Option τ :=
  if setting.withholds report then none else some states

/-- What is returned of a view: an empty one if it is withheld. -/
def Setting.release {β : Type} (setting : Setting) (report : Report) (view : View β) : View β :=
  if setting.withholds report then .empty setting.newBuffer else view

section

variable {setting : Setting} {report : Report} {τ υ β : Type}

theorem Setting.permit_self (setting : Setting) :
    setting.permit setting.config.sequential = setting :=
  rfl

theorem Setting.withholds_eq_true : setting.withholds report = true ↔
    report.path = .sequential ∧ setting.config.sequential = false := by
  simp [withholds]

theorem Setting.map_keep (states : τ) (f : τ → υ) :
    (setting.keep report states).map f = setting.keep report (f states) := by
  rw [keep, keep]
  split <;> rfl

/-- States that are withheld lead to an empty view. -/
theorem Setting.elim_keep (states : τ) (view : τ → View β) :
    (setting.keep report states).elim (.empty setting.newBuffer) view =
      setting.release report (view states) := by
  rw [keep, release]
  split <;> rfl

/-- Nothing is withheld where the sequential path may run. -/
theorem Setting.release_of_sequential (view : View β) (h : setting.config.sequential = true) :
    setting.release report view = view := by
  have hwithholds : ¬ setting.withholds report = true := by simp [withholds, h]
  rw [release, if_neg hwithholds]

/-- Nothing is withheld where it was not needed. -/
theorem Setting.release_of_parallel (view : View β) (h : report.path = .parallel) :
    setting.release report view = view := by
  have hwithholds : ¬ setting.withholds report = true := by simp [withholds, h]
  rw [release, if_neg hwithholds]

end

end ForkJoin
