import ForkJoin.Dispatch.Phase
import ForkJoin.Proofs.Calling
import Mathlib.Data.List.Forall2

/-!
# Resumed work

However often a phase is interrupted and resumed, every worker has at all times processed the
units of its slice from the first up to where it stands, each of them once and in order. So what
a finished worker leaves is what its kernel leads to when it processes the slice in one go, and
no host has any influence on it.

## Main definitions
- `Kernel.workAll`: some units in one go.
- `Task`: a share of a phase with what it leads to.
- `Worker.Resumes`: the invariant that every pass of every attempt keeps.

## Main statements
- `Worker.Resumes.proceed`: one pass keeps the invariant.
- `Phase.run_tasks`: a phase runs, keeps the invariant, and is what the tasks say if it completes.
- `Phase.finishAlone_tasks`: so is what the sequential pass leaves.
-/

namespace ForkJoin

variable {γ σ : Type}

/-! ## §1 Work in one go -/

namespace Kernel

/-- Processes units in order, without an interruption. -/
def workAll (kernel : Kernel γ σ) (units : List Nat) (state : σ) : Calling γ σ :=
  units.foldlM (fun state unit => kernel.work unit state) state

theorem workAll_cons (kernel : Kernel γ σ) (unit : Nat) (units : List Nat) (state : σ) :
    kernel.workAll (unit :: units) state =
      kernel.work unit state >>= fun state => kernel.workAll units state :=
  List.foldlM_cons

theorem workAll_append (kernel : Kernel γ σ) (first second : List Nat) (state : σ)
    (log : Array γ) :
    kernel.workAll (first ++ second) state log =
      (kernel.workAll first state log).bind fun (state, log) => kernel.workAll second state log := by
  rw [workAll, List.foldlM_append]
  rfl

/-- Units that can be processed in one go can be processed up to any of them. -/
theorem workAll_split {kernel : Kernel γ σ} {start n m : Nat} {state : σ} {log : Array γ}
    {result : σ × Array γ} (hle : n ≤ m)
    (h : kernel.workAll (List.range' start m) state log = .ok result) :
    ∃ middle, kernel.workAll (List.range' start n) state log = .ok middle ∧
      kernel.workAll (List.range' (start + n) (m - n)) middle.1 middle.2 = .ok result := by
  have hsplit : List.range' start m = List.range' start n ++ List.range' (start + n) (m - n) := by
    rw [List.range'_append_1, Nat.add_sub_cancel' hle]
  rw [hsplit, workAll_append] at h
  -- The first part cannot break off, or the whole would.
  cases hfirst : kernel.workAll (List.range' start n) state log with
  | error fault => simp [hfirst, Except.bind] at h
  | ok middle => exact ⟨middle, rfl, by simpa [hfirst, Except.bind] using h⟩

end Kernel

/-! ## §2 One pass -/

/-- A pass over units that can be processed in one go processes the first few of them. Without a
host it processes all that it may. -/
theorem Worker.proceed_eq_workAll {kernel : Kernel γ σ}
    (consult : Option (Nat → Consultation)) {fuel : Nat} {worker : Worker γ σ}
    {result : σ × Array γ}
    (h : kernel.workAll (List.range' worker.slice.pos fuel) worker.state worker.calls =
      .ok result) :
    ∃ n next, n ≤ fuel ∧ worker.proceed kernel consult fuel = .ok next ∧
      next.slice = { worker.slice with pos := worker.slice.pos + n } ∧
      kernel.workAll (List.range' worker.slice.pos n) worker.state worker.calls =
        .ok (next.state, next.calls) ∧
      (consult = none → n = fuel) := by
  induction fuel generalizing worker with
  | zero => exact ⟨0, worker, Nat.le_refl 0, rfl, rfl, rfl, fun _ => rfl⟩
  | succ fuel ih =>
    obtain ⟨slice, state, calls, asked⟩ := worker
    -- What is known of the whole pass is known of its first unit, and of the pass after it.
    obtain ⟨⟨state', calls'⟩, hone, hrest⟩ := Kernel.workAll_split (n := 1) (by omega) h
    have hwork : kernel.work slice.pos state calls = .ok (state', calls') := by
      simpa [Kernel.workAll] using hone
    rw [Worker.proceed]
    by_cases hbail : (consult.map (· slice.pos)).any (·.bail)
    · -- The host stops the worker in front of the unit.
      refine ⟨0, _, Nat.zero_le _, if_pos hbail, rfl, rfl, ?_⟩
      rintro rfl
      simp at hbail
    · -- The unit is processed, and the pass goes on behind it.
      simp only [hbail, hwork]
      obtain ⟨n, next, hn, hproceed, hslice, hstate, hall⟩ := @ih
        ⟨slice.advance, state', calls', (consult.map (· slice.pos)).elim asked asked.push⟩ hrest
      refine ⟨n + 1, next, by omega, hproceed, ?_, ?_, fun hnone => by rw [hall hnone]⟩
      · rw [hslice]
        simp [Slice.advance, Nat.add_comm n 1, Nat.add_assoc]
      · rw [Nat.add_comm n 1, ← List.range'_append_1, Kernel.workAll_append, hone]
        exact hstate

/-! ## §3 Tasks -/

/-- The units of a slice that are still to be processed. -/
def Slice.remaining (slice : Slice) : List Nat :=
  List.range' slice.pos (slice.stop - slice.pos)

/-- A share of a phase, with the state and the calls that it leads to. -/
structure Task (γ σ : Type) where
  slice : Slice
  state : σ
  final : σ
  calls : List γ

namespace Task

/-- What a phase is started on. -/
def share (task : Task γ σ) : Slice × σ :=
  (task.slice, task.state)

/-- The shares of tasks on some spans are slices of which nothing is processed, each with its first
state. -/
theorem map_share {state : Slice → σ} {task : Span → Task γ σ}
    (h : ∀ span, (task span).share = (.ofSpan span, state (.ofSpan span))) (spans : List Span) :
    ((spans.map Slice.ofSpan).map fun slice => (slice, state slice)) =
      (spans.map task).map share := by
  rw [List.map_map, List.map_map]
  apply List.map_congr_left
  intro span _
  exact (h span).symm

/-- Processing the share in one go leads to what the task says. -/
structure Sound (kernel : Kernel γ σ) (task : Task γ σ) : Prop where
  pos_le : task.slice.pos ≤ task.slice.stop
  work : (kernel.workAll task.slice.remaining task.state).Returns task.final task.calls

theorem Sound.work_nil {kernel : Kernel γ σ} {task : Task γ σ} (h : task.Sound kernel) :
    kernel.workAll (List.range' task.slice.pos (task.slice.stop - task.slice.pos)) task.state #[] =
      .ok (task.final, task.calls.toArray) := by
  have hwork := h.work #[]
  simpa [Slice.remaining] using hwork

end Task

namespace Worker

/-- A worker that has processed the units of its share up to where it stands, and made the calls
that belong to them. -/
structure Resumes (kernel : Kernel γ σ) (task : Task γ σ) (worker : Worker γ σ) : Prop where
  slice_eq : worker.slice = { task.slice with pos := worker.slice.pos }
  pos_le : task.slice.pos ≤ worker.slice.pos
  le_stop : worker.slice.pos ≤ task.slice.stop
  work : kernel.workAll (List.range' task.slice.pos (worker.slice.pos - task.slice.pos))
    task.state #[] = .ok (worker.state, worker.calls)

namespace Resumes

variable {kernel : Kernel γ σ} {task : Task γ σ} {worker : Worker γ σ}

theorem stop_eq (h : worker.Resumes kernel task) : worker.slice.stop = task.slice.stop := by
  rw [h.slice_eq]

/-- A worker that has not begun. -/
theorem start (h : task.Sound kernel) :
    Resumes kernel task { slice := task.slice, state := task.state } where
  slice_eq := rfl
  pos_le := Nat.le_refl _
  le_stop := h.pos_le
  work := by simp [Kernel.workAll]; rfl

/-- One pass resumes the work where it stands. -/
theorem proceed (hsound : task.Sound kernel) (h : worker.Resumes kernel task)
    (consult : Option (Nat → Consultation)) {fuel : Nat}
    (hfuel : worker.slice.pos + fuel ≤ task.slice.stop) :
    ∃ next, worker.proceed kernel consult fuel = .ok next ∧ next.Resumes kernel task ∧
      (consult = none → next.slice.pos = worker.slice.pos + fuel) := by
  have hpos := h.pos_le
  -- The whole share can be processed in one go: first what is done, then the units of this pass.
  obtain ⟨middle, hdone, hrest⟩ := Kernel.workAll_split
    (n := worker.slice.pos - task.slice.pos) (by omega) hsound.work_nil
  obtain rfl : middle = (worker.state, worker.calls) := by
    simpa [hdone] using h.work
  rw [Nat.add_sub_cancel' hpos] at hrest
  obtain ⟨_, hfirst, -⟩ := Kernel.workAll_split (n := fuel) (by omega) hrest
  -- The host decides how many of them it is, and nothing else.
  obtain ⟨n, next, hn, hproceed, hslice, hwork, hall⟩ :=
    Worker.proceed_eq_workAll consult hfirst
  have hnext : next.slice.pos = worker.slice.pos + n := by rw [hslice]
  refine ⟨next, hproceed, ⟨?_, by omega, by omega, ?_⟩, fun hnone => by rw [hnext, hall hnone]⟩
  · rw [hslice, h.slice_eq]
  · -- What was done before, followed by what this pass did.
    rw [show next.slice.pos - task.slice.pos = (worker.slice.pos - task.slice.pos) + n by omega,
      ← List.range'_append_1, Kernel.workAll_append, h.work, Nat.add_sub_cancel' hpos]
    exact hwork

theorem passEnd_le (h : worker.Resumes kernel task) (warmup : Bool) (units : Nat) :
    worker.slice.pos + (worker.slice.passEnd warmup units - worker.slice.pos) ≤
      task.slice.stop := by
  have hle := h.le_stop
  have hstop := h.stop_eq
  cases warmup with
  | false =>
    simp only [Slice.passEnd, Bool.false_eq_true, if_false]
    omega
  | true =>
    -- A warmup ends at the end of the slice at the latest.
    simp only [Slice.passEnd, if_true]
    omega

/-- A worker at the end of its slice has the state and the calls of its task. -/
theorem finished (hsound : task.Sound kernel) (h : worker.Resumes kernel task)
    (hfinished : worker.slice.isFinished = true) :
    worker.state = task.final ∧ worker.calls = task.calls.toArray := by
  have hpos : worker.slice.pos = task.slice.stop := by
    rw [← h.stop_eq]
    simpa [Slice.isFinished] using hfinished
  -- What it has done is then the whole share.
  have hwork := h.work
  rw [hpos, hsound.work_nil] at hwork
  simpa [eq_comm] using hwork

/-! ## §4 The three passes -/

theorem warmUp (hsound : task.Sound kernel) (h : worker.Resumes kernel task) :
    ∃ next, worker.warmUp kernel = .ok next ∧ next.Resumes kernel task := by
  obtain ⟨next, hnext, hresumes, -⟩ := h.proceed hsound none (h.passEnd_le true kernel.warmup)
  exact ⟨next, hnext, hresumes⟩

theorem dispatch (hsound : task.Sound kernel) (h : worker.Resumes kernel task) (host : Host)
    (op : Operation) (attempt index : Nat) :
    ∃ next, worker.dispatch kernel host op attempt index = .ok next ∧
      next.Resumes kernel task := by
  obtain ⟨next, hnext, hresumes, -⟩ := h.proceed hsound
    (some fun unit => host.consult ⟨op, attempt, index, unit⟩) (h.passEnd_le false kernel.warmup)
  exact ⟨next, hnext, hresumes⟩

/-- The sequential pass is never stopped, so it ends at the end of the slice. -/
theorem finishAlone (hsound : task.Sound kernel) (h : worker.Resumes kernel task) :
    ∃ next, worker.finishAlone kernel = .ok next ∧ next.state = task.final ∧
      next.calls = task.calls.toArray := by
  obtain ⟨next, hnext, hresumes, hpos⟩ :=
    h.proceed hsound none (h.passEnd_le false kernel.warmup)
  have hle := h.le_stop
  have hstop := h.stop_eq
  -- Nobody is asked, so the pass only ends with the slice.
  have hfinished : next.slice.isFinished = true := by
    have hend : worker.slice.passEnd false kernel.warmup = worker.slice.stop := rfl
    simp only [Slice.isFinished, beq_iff_eq, hpos rfl, hresumes.stop_eq, hend]
    omega
  exact ⟨next, hnext, hresumes.finished hsound hfinished⟩

end Resumes

end Worker

/-! ## §5 Phases -/

/-- A step that every element of a list can take can be taken by all of them in turn. -/
theorem exists_mapM_eq_ok {ι τ υ ε : Type} {R : ι → τ → Prop} {S : ι → υ → Prop}
    {g : τ → Except ε υ} {indices : List ι} {xs : List τ} (h : List.Forall₂ R indices xs)
    (step : ∀ i x, i ∈ indices → R i x → ∃ y, g x = .ok y ∧ S i y) :
    ∃ ys, xs.mapM g = .ok ys ∧ List.Forall₂ S indices ys := by
  -- Each step comes to something by itself, so all of them do in turn.
  induction h with
  | nil => exact ⟨[], rfl, .nil⟩
  | @cons i x indices xs hx _ ih =>
    obtain ⟨y, hy, hS⟩ := step i x (List.mem_cons_self ..) hx
    obtain ⟨ys, hys, hall⟩ := ih fun j z hj => step j z (List.mem_cons_of_mem _ hj)
    refine ⟨y :: ys, ?_, .cons hS hall⟩
    rw [List.mapM_cons, hy, hys]
    rfl

/-- Numbering the elements of a list changes none of them. -/
theorem forall₂_zipIdx {ι τ : Type} {R : ι → τ → Prop} {indices : List ι} {xs : List τ}
    (h : List.Forall₂ R indices xs) (k : Nat) :
    List.Forall₂ (fun i x => R i x.1) indices (xs.zipIdx k) := by
  induction h generalizing k with
  | nil => exact .nil
  | cons hx _ ih => exact .cons hx (ih (k + 1))

namespace Phase

/-- Every worker resumes its task. -/
def Resumes (kernel : Kernel γ σ) (tasks : List (Task γ σ)) (phase : Phase γ σ) : Prop :=
  List.Forall₂ (fun task worker => worker.Resumes kernel task) tasks phase.workers

/-- Every worker has done its task. -/
def Finishes (tasks : List (Task γ σ)) (phase : Phase γ σ) : Prop :=
  List.Forall₂ (fun task worker => worker.state = task.final ∧ worker.calls = task.calls.toArray)
    tasks phase.workers

variable {kernel : Kernel γ σ} {tasks : List (Task γ σ)} {phase : Phase γ σ}

theorem resumes_start (hsound : ∀ task ∈ tasks, task.Sound kernel) :
    (start (tasks.map Task.share)).Resumes kernel tasks := by
  induction tasks with
  | nil => exact .nil
  | cons task tasks ih =>
    exact .cons (.start (hsound task (List.mem_cons_self ..)))
      (ih fun other hother => hsound other (List.mem_cons_of_mem _ hother))

theorem Resumes.warmUp (hsound : ∀ task ∈ tasks, task.Sound kernel)
    (h : phase.Resumes kernel tasks) :
    ∃ next, phase.warmUp kernel = .ok next ∧ next.Resumes kernel tasks := by
  obtain ⟨workers, hworkers, hall⟩ := exists_mapM_eq_ok (g := (·.warmUp kernel)) h
    fun task _ hmem hresumes => hresumes.warmUp (hsound task hmem)
  exact ⟨⟨workers, phase.compiles + 1⟩, by rw [Phase.warmUp, hworkers]; rfl, hall⟩

theorem Resumes.dispatch (hsound : ∀ task ∈ tasks, task.Sound kernel)
    (h : phase.Resumes kernel tasks) (host : Host) (op : Operation) (number : Nat) :
    ∃ next, phase.dispatch kernel host op number = .ok next ∧ next.Resumes kernel tasks := by
  obtain ⟨workers, hworkers, hall⟩ := exists_mapM_eq_ok (forall₂_zipIdx h 0)
    (g := fun numbered => numbered.1.dispatch kernel host op number numbered.2)
    fun task numbered hmem hresumes => hresumes.dispatch (hsound task hmem) host op number numbered.2
  exact ⟨{ phase with workers }, by rw [Phase.dispatch, hworkers]; rfl, hall⟩

/-- Every attempt resumes the tasks where the one before left them. -/
theorem Resumes.attempt (hsound : ∀ task ∈ tasks, task.Sound kernel)
    (h : phase.Resumes kernel tasks) (host : Host) (op : Operation) (number : Nat) :
    ∃ next, phase.attempt kernel host op number = .ok next ∧ next.Resumes kernel tasks := by
  obtain ⟨warm, hwarm, hresumes⟩ := h.warmUp hsound
  obtain ⟨next, hnext, hfinal⟩ := hresumes.dispatch hsound host op number
  exact ⟨next, by rw [Phase.attempt, hwarm]; exact hnext, hfinal⟩

theorem Resumes.finished (hsound : ∀ task ∈ tasks, task.Sound kernel)
    (h : phase.Resumes kernel tasks) (hfinished : phase.isFinished = true) :
    phase.Finishes tasks := by
  rw [isFinished, List.all_eq_true] at hfinished
  refine List.forall₂_iff_get.mpr ⟨h.length_eq, fun i hi hi' => ?_⟩
  have hresumes := (List.forall₂_iff_get.mp h).2 i hi hi'
  exact hresumes.finished (hsound _ (List.get_mem ..)) (hfinished _ (List.get_mem ..))

theorem Resumes.attempts (hsound : ∀ task ∈ tasks, task.Sound kernel)
    (h : phase.Resumes kernel tasks) (host : Host) (op : Operation) (left bailouts : Nat) :
    ∃ outcome next, phase.attempts kernel host op left bailouts = .ok (outcome, next) ∧
      next.Resumes kernel tasks ∧ (outcome.isCompleted = true → next.Finishes tasks) := by
  induction left generalizing phase bailouts with
  | zero => exact ⟨.fallback bailouts, phase, rfl, h, fun hcompleted => by cases hcompleted⟩
  | succ left ih =>
    -- The attempt keeps the invariant, so the next one may begin where it ended.
    obtain ⟨tried, htried, hresumes⟩ := h.attempt hsound host op bailouts
    by_cases hfinished : tried.isFinished = true
    · refine ⟨.completed bailouts, tried, ?_, hresumes, fun _ => hresumes.finished hsound hfinished⟩
      rw [Phase.attempts, htried]
      simp [hfinished]
    · obtain ⟨outcome, next, hnext, hfinal⟩ := ih hresumes (bailouts + 1)
      refine ⟨outcome, next, ?_, hfinal⟩
      rw [Phase.attempts, htried]
      simpa [hfinished] using hnext

/-- A phase runs under every host and in every mode. Its workers resume their tasks, and have done
them if the phase completes. -/
theorem run_tasks (hsound : ∀ task ∈ tasks, task.Sound kernel) (host : Host) (op : Operation)
    (mode : Mode) :
    ∃ outcome phase, (start (tasks.map Task.share)).run kernel host op mode = .ok (outcome, phase) ∧
      phase.Resumes kernel tasks ∧ (outcome.isCompleted = true → phase.Finishes tasks) := by
  have hstart := resumes_start hsound
  by_cases hmode : mode = .compile
  · -- In compile mode the warmup is all there is, and the phase counts as fallen back.
    obtain ⟨warm, hwarm, hresumes⟩ := hstart.warmUp hsound
    refine ⟨.fallback 0, warm, ?_, hresumes, fun hcompleted => by cases hcompleted⟩
    rw [run, if_pos hmode, hwarm]
    rfl
  · obtain ⟨outcome, phase, hrun, hphase⟩ := hstart.attempts hsound host op maxBailouts 0
    exact ⟨outcome, phase, by rw [run, if_neg hmode]; exact hrun, hphase⟩

/-- The sequential pass does what is left of every task. -/
theorem finishAlone_tasks (hsound : ∀ task ∈ tasks, task.Sound kernel)
    (h : phase.Resumes kernel tasks) :
    ∃ next, phase.finishAlone kernel = .ok next ∧ next.Finishes tasks := by
  obtain ⟨workers, hworkers, hall⟩ := exists_mapM_eq_ok (g := (·.finishAlone kernel)) h
    fun task _ hmem hresumes => hresumes.finishAlone (hsound task hmem)
  exact ⟨{ phase with workers }, by rw [Phase.finishAlone, hworkers]; rfl, hall⟩

theorem Finishes.states_eq (h : phase.Finishes tasks) : phase.states = tasks.map (·.final) := by
  unfold Finishes at h
  rw [states]
  generalize phase.workers = workers at h ⊢
  induction h with
  | nil => rfl
  | cons hhead _ ih => rw [List.map_cons, List.map_cons, hhead.1, ih]

theorem Finishes.calls_eq (h : phase.Finishes tasks) :
    phase.calls.toList = tasks.flatMap (·.calls) := by
  unfold Finishes at h
  rw [calls, toList_joinArrays]
  generalize phase.workers = workers at h ⊢
  induction h with
  | nil => rfl
  | cons hhead _ ih => simpa [hhead.2] using ih

end Phase

end ForkJoin
