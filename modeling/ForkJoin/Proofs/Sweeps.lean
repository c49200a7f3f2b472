import ForkJoin.Operation.Sweep
import ForkJoin.Partition.Window
import ForkJoin.Proofs.Resumption
import ForkJoin.Proofs.Runs
import ForkJoin.Proofs.Tiling

/-!
# Sweeps

Whatever the host answers, a sweep that may finish sequentially processes every chunk once: the
slices of its workers follow each other over all chunks, and each worker ends where its task says.
A kernel therefore has to be understood on one run of chunks only, and one that appends values to
its output even on a single chunk only.

## Main definitions
- `Kernel.Appends`: kernels that append the values of a function.

## Main statements
- `attemptSweep_tasks`: what the parallel attempt leaves.
- `sweep_permit`, `sweep_tasks`: what a sweep leaves.
- `sweep_appends`: what a sweep of a kernel that appends leaves.
- `Run.conclude_joinArrays`: the sequence of what the workers have appended.
-/

namespace ForkJoin

/-! ## §1 Sweeps of any kernel -/

section

variable {γ σ : Type} {kernel : Kernel γ σ} (state : Slice → σ) (task : Span → Task γ σ)

/-- The attempt of a sweep keeps the tasks of its workers, and has done them on the parallel
path. -/
theorem attemptSweep_tasks (plan : Plan)
    (hshare : ∀ span, (task span).share = (.ofSpan span, state (.ofSpan span)))
    (hsound : ∀ span : Span, span.start ≤ span.stop → span.stop ≤ plan.chunks →
      (task span).Sound kernel) (setting : Setting) (op : Operation) :
    ∃ attempt spans, attemptSweep setting op plan kernel state = .ok attempt ∧
      Tiling 0 plan.chunks spans ∧ attempt.phase.Resumes kernel (spans.map task) ∧
      (attempt.report.path = .parallel → attempt.phase.Finishes (spans.map task)) := by
  have hshares := Task.map_share hshare
  rw [attemptSweep]
  by_cases hparallel : plan.isParallel = true
  · -- One task for each slice of the plan.
    have htiling := tiling_evenSpans plan.chunks plan.slices
    obtain ⟨outcome, phase, hrun, hresumes, hfinishes⟩ :=
      Phase.run_tasks (htiling.forall_map hsound) setting.host op setting.config.mode
    simp only [if_pos hparallel, Partition.slices_even, hshares, hrun, Fault.ok_bind]
    refine ⟨_, _, rfl, htiling, hresumes, ?_⟩
    intro hpath
    exact hfinishes (Report.path_ofPhase_eq_parallel.mp hpath)
  · -- Without an attempt there is one worker, who has not begun.
    have hwhole : Tiling 0 plan.chunks [⟨0, plan.chunks⟩] := .cons (Nat.zero_le _) (.nil _)
    have hresumes := Phase.resumes_start (hwhole.forall_map hsound)
    rw [← hshares] at hresumes
    rw [if_neg hparallel]
    exact ⟨_, _, rfl, hwhole, hresumes, fun hpath => by cases hpath⟩

/-- A sweep runs under every host, and ends in one report whether or not it may finish
sequentially. It leaves what the tasks of its workers say unless that is withheld; then no state is
left, and the workers have stopped somewhere in their tasks. -/
theorem sweep_permit (length : Nat)
    (hshare : ∀ span, (task span).share = (.ofSpan span, state (.ofSpan span)))
    (hsound : ∀ span : Span, span.start ≤ span.stop → span.stop ≤ chunkCount length →
      (task span).Sound kernel) (setting : Setting) (op : Operation) :
    ∃ (report : Report) (spans : List Span), Tiling 0 (chunkCount length) spans ∧
      ∀ sequential, ∃ run : Run γ (Option (List σ)),
        sweep (setting.permit sequential) op length kernel state = .ok run ∧
        run.result = (report.check setting.config).map (fun checked =>
          ((setting.permit sequential).keep report ((spans.map task).map (·.final)), checked)) ∧
        if (setting.permit sequential).withholds report then
          ∃ phase : Phase γ σ, phase.Resumes kernel (spans.map task) ∧ run.calls = phase.calls
        else run.calls.toList = (spans.map task).flatMap (·.calls) := by
  obtain ⟨attempt, spans, hattempt, htiling, hresumes, hfinishes⟩ :=
    attemptSweep_tasks state task (setting.plan op length) hshare hsound setting op
  refine ⟨attempt.report, spans, htiling, fun sequential => ?_⟩
  -- The attempt is the same with and without the permission.
  have hsame : attemptSweep (setting.permit sequential) op
      ((setting.permit sequential).plan op length) kernel state = .ok attempt := hattempt
  rw [sweep, hsame, Fault.ok_bind, concludeSweep]
  unfold Setting.keep Setting.withholds
  cases hpath : attempt.report.path with
  | parallel =>
    -- Nothing is left to be done.
    have hdone := hfinishes hpath
    rw [← hdone.states_eq, ← hdone.calls_eq]
    exact ⟨_, rfl, rfl, rfl⟩
  | sequential =>
    cases sequential with
    | true =>
      -- The sequential pass resumes the workers of the attempt, wherever they stopped.
      obtain ⟨phase, halone, hdone⟩ := Phase.finishAlone_tasks (htiling.forall_map hsound) hresumes
      simp only [Setting.permit, beq_self_eq_true, Bool.and_true, if_true, halone, Fault.ok_bind]
      rw [← hdone.states_eq, ← hdone.calls_eq]
      exact ⟨_, rfl, rfl, rfl⟩
    | false => exact ⟨_, rfl, rfl, attempt.phase, hresumes, rfl⟩

/-- A sweep runs under every host. It leaves what the tasks of its workers say, unless it falls
back and the rest may not be done sequentially. -/
theorem sweep_tasks (length : Nat)
    (hshare : ∀ span, (task span).share = (.ofSpan span, state (.ofSpan span)))
    (hsound : ∀ span : Span, span.start ≤ span.stop → span.stop ≤ chunkCount length →
      (task span).Sound kernel) (setting : Setting) (op : Operation) :
    ∃ (run : Run γ (Option (List σ))) (report : Report) (states : Option (List σ))
      (spans : List Span),
      sweep setting op length kernel state = .ok run ∧
      run.result = (report.check setting.config).map (fun report => (states, report)) ∧
      Tiling 0 (chunkCount length) spans ∧
      (states = some ((spans.map task).map (·.final)) ∧
          run.calls.toList = (spans.map task).flatMap (·.calls) ∨
        states = none ∧ report.path = .sequential ∧ setting.config.sequential = false) := by
  obtain ⟨report, spans, htiling, hboth⟩ := sweep_permit state task length hshare hsound setting op
  obtain ⟨run, hrun, hresult, hcalls⟩ := hboth setting.config.sequential
  refine ⟨run, report, _, spans, hrun, hresult, htiling, ?_⟩
  -- The states are there unless the setting withholds them.
  by_cases hwithholds : setting.withholds report = true
  · exact .inr ⟨if_pos hwithholds, Setting.withholds_eq_true.mp hwithholds⟩
  · exact .inl ⟨if_neg hwithholds, (if_neg hwithholds).mp hcalls⟩

end

/-! ## §2 Sweeps that append -/

section

variable {γ β : Type} {kernel : Kernel γ (Array β)} {f : γ → β} {args : Nat → List γ} {count : Nat}

/-- On each of `count` chunks the kernel calls `f` on the arguments that belong to the chunk, and
appends the values. -/
def Kernel.Appends (kernel : Kernel γ (Array β)) (f : γ → β) (args : Nat → List γ) (count : Nat) :
    Prop :=
  ∀ chunk < count, ∀ out,
    (kernel.work chunk out).Returns (out ++ ((args chunk).map f).toArray) (args chunk)

theorem Kernel.Appends.workAll (h : kernel.Appends f args count) {chunks : List Nat}
    (hchunks : ∀ chunk ∈ chunks, chunk < count) (out : Array β) :
    (kernel.workAll chunks out).Returns (out ++ ((chunks.flatMap args).map f).toArray)
      (chunks.flatMap args) := by
  -- By induction on the chunks; what has been appended stays in front.
  induction chunks generalizing out with
  | nil => simpa [Kernel.workAll] using Calling.Returns.pure out
  | cons chunk rest ih =>
    have hfirst := h chunk (hchunks chunk (List.mem_cons_self ..)) out
    have hrest := ih (fun other hother => hchunks other (List.mem_cons_of_mem _ hother))
      (out ++ ((args chunk).map f).toArray)
    rw [Kernel.workAll_cons, List.flatMap_cons, List.map_append, ← List.append_toArray,
      ← Array.append_assoc]
    exact hfirst.bind hrest

/-- A worker appends the values at the arguments that belong to its chunks. -/
def appendTask (f : γ → β) (args : Nat → List γ) (chunks : Span) : Task γ (Array β) where
  slice := .ofSpan chunks
  state := #[]
  final := ((chunks.positions.flatMap args).map f).toArray
  calls := chunks.positions.flatMap args

theorem appendTask_sound (h : kernel.Appends f args count) {chunks : Span}
    (hle : chunks.start ≤ chunks.stop) (hstop : chunks.stop ≤ count) :
    (appendTask f args chunks).Sound kernel where
  pos_le := hle
  work := by
    have hchunks : ∀ chunk ∈ chunks.positions, chunk < count := by
      intro chunk hmem
      have hlt := (List.mem_range'_1.mp hmem).2
      simp only [Span.length] at hlt
      omega
    have hwork := h.workAll hchunks #[]
    rw [Array.empty_append] at hwork
    exact hwork

/-- The slices follow each other over all chunks, and so do the arguments. -/
theorem flatMap_calls_appendTask (f : γ → β) {spans : List Span}
    (htiling : Tiling 0 count spans) :
    (spans.map (appendTask f args)).flatMap (·.calls) = (List.range count).flatMap args := by
  have hpositions := htiling.flatMap_positions
  rw [Nat.sub_zero, ← List.range_eq_range'] at hpositions
  rw [← hpositions, List.flatMap_map, List.flatMap_assoc]
  rfl

/-- What the workers have appended are the values at all arguments. -/
theorem joinArrays_appendTask {spans : List Span} (htiling : Tiling 0 count spans) :
    joinArrays ((spans.map (appendTask f args)).map (·.final)) =
      (((List.range count).flatMap args).map f).toArray := by
  apply Array.ext'
  rw [toList_joinArrays, ← flatMap_calls_appendTask f htiling, List.map_flatMap, List.flatMap_def]
  simp only [List.map_map]
  rfl

/-- A sweep of a kernel that appends, and that may finish sequentially, makes the calls of all
chunks once and in order, and its workers leave the values of these calls. -/
theorem sweep_appends (length : Nat) (h : kernel.Appends f args (chunkCount length))
    (setting : Setting) (op : Operation) (hsequential : setting.config.sequential = true) :
    ∃ (run : Run γ (Option (List (Array β)))) (report : Report) (parts : List (Array β)),
      sweep setting op length kernel (fun _ => #[]) = .ok run ∧
      run.result = (report.check setting.config).map (fun report => (some parts, report)) ∧
      run.calls.toList = (List.range (chunkCount length)).flatMap args ∧
      joinArrays parts = (((List.range (chunkCount length)).flatMap args).map f).toArray := by
  obtain ⟨run, report, states, spans, hrun, hresult, htiling, hdone⟩ := sweep_tasks
    (fun _ => #[]) (appendTask f args) length (fun _ => rfl)
    (fun _ hle hstop => appendTask_sound h hle hstop) setting op
  obtain ⟨rfl, hcalls⟩ | ⟨-, -, hforbidden⟩ := hdone
  swap
  · -- Only a sweep that may not finish sequentially leaves no states.
    rw [hsequential] at hforbidden
    cases hforbidden
  exact ⟨run, report, _, hrun, hresult, hcalls.trans (flatMap_calls_appendTask f htiling),
    joinArrays_appendTask htiling⟩

/-- What the workers have appended is joined to a sequence. -/
theorem Run.conclude_joinArrays {run : Run γ (Option (List (Array β)))} {report : Report}
    {config : Config} {parts : List (Array β)} (newBuffer : BufferId)
    (h : run.result = (report.check config).map fun report => (some parts, report)) :
    ∃ final : Run γ (View β), (run.conclude fun
        | none => .ok (.ok (.empty newBuffer))
        | some parts => .ok (.ok (.ofArray newBuffer (joinArrays parts)))) = .ok final ∧
      final.result = (report.check config).map (fun report =>
        (View.ofArray newBuffer (joinArrays parts), report)) ∧
      final.calls = run.calls := by
  let next : Option (List (Array β)) → Except Fault (Except InputError (View β)) := fun
    | none => .ok (.ok (.empty newBuffer))
    | some parts => .ok (.ok (.ofArray newBuffer (joinArrays parts)))
  have hnext : next (some parts) = .ok (.ok (.ofArray newBuffer (joinArrays parts))) := rfl
  obtain ⟨final, hfinal, hresult, hcalls, -⟩ := Run.conclude_of_check h hnext
  exact ⟨final, hfinal, hresult, hcalls⟩

end

end ForkJoin
