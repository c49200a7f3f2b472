import ForkJoin.Proofs.Attempts
import Mathlib.Data.List.Dedup
import Mathlib.Data.List.Nodup

/-!
# Bailouts

A phase counts its bailouts without looking at any answer: an attempt that leaves a slice unfinished
counts as one, and is followed by another attempt or by the fallback. The count is right all the
same. A worker that is never told to bail out reaches the end of its slice, and one that is told to
stops in front of a unit, so an attempt leaves a slice unfinished exactly if an answer was true.

## Main definitions
- `PhaseTrace.bailedAttempts`: the attempts in which an answer was true.
- `Phase.Tries`, `PhaseTrace.Starts`: the attempts that a phase has started.
- `PhaseTrace.Accounts`: how a trace accounts for the outcome of its phase.

## Main statements
- `Worker.Attempted.finished_or_bailed`: one attempt of a worker.
- `Phase.Attempted.bailedIn_iff`, `Phase.Course.bailedIn_iff`: one attempt of a phase, and all.
- `Phase.accounts_of_run`: the trace of every phase accounts for its outcome.
-/

namespace ForkJoin

variable {γ σ : Type} {kernel : Kernel γ σ} {host : Host} {op : Operation}

/-! ## §1 One attempt of a worker -/

namespace Worker

variable {attempt index : Nat} {before warm after : Worker γ σ} {questions : List Consultation}

/-- All questions of a dispatched pass belong to its attempt. -/
theorem Dispatched.attempt_eq {units : Nat}
    (h : before.Dispatched kernel host op attempt index units after questions) :
    ∀ question ∈ questions, question.checkpoint.attempt = attempt := by
  intro question hmem
  rw [h.consecutive] at hmem
  obtain ⟨unit, -, rfl⟩ := List.mem_map.mp hmem
  rfl

/-- A worker ends either at the end of its slice, and was never told to bail out, or in front of
it, and was told so. -/
theorem Attempted.finished_or_bailed
    (h : Attempted kernel host op attempt index before warm after questions)
    (hle : before.slice.pos ≤ before.slice.stop) :
    ((∀ question ∈ questions, question.bail = false) ∧ after.slice.pos = after.slice.stop) ∨
    ((∃ question ∈ questions, question.bail = true) ∧ after.slice.pos < after.slice.stop) := by
  have hstop := h.stop_eq
  have hwarmStop := h.warmup.stop_eq
  -- The warmup stays within the slice, so the dispatch may go on up to its end.
  have hwarm : warm.slice.pos ≤ warm.slice.stop := by
    have hpos := h.warmup_pos
    simp only [Slice.passEnd, if_true] at hpos
    omega
  by_cases hbail : ∃ question ∈ questions, question.bail = true
  · right
    refine ⟨hbail, ?_⟩
    rcases hbail with ⟨question, hmem, htrue⟩
    have hunit := (h.dispatch.bails question hmem htrue).2
    have hinside := (h.dispatch.bounds question hmem).2.2
    omega
  · left
    have hfalse : ∀ question ∈ questions, question.bail = false := by
      intro question hmem
      cases hanswer : question.bail with
      | false => rfl
      | true => exact absurd ⟨question, hmem, hanswer⟩ hbail
    have hend := h.dispatch.reaches_end hfalse
    exact ⟨hfalse, by omega⟩

/-- So it stays within its slice. -/
theorem Attempted.pos_le_stop
    (h : Attempted kernel host op attempt index before warm after questions)
    (hle : before.slice.pos ≤ before.slice.stop) : after.slice.pos ≤ after.slice.stop := by
  rcases h.finished_or_bailed hle with ⟨-, hend⟩ | ⟨-, hfront⟩
  · exact Nat.le_of_eq hend
  · exact Nat.le_of_lt hfront

/-- And it is left unfinished exactly if it was told to bail out. -/
theorem Attempted.isFinished_eq_false_iff
    (h : Attempted kernel host op attempt index before warm after questions)
    (hle : before.slice.pos ≤ before.slice.stop) :
    after.slice.isFinished = false ↔ ∃ question ∈ questions, question.bail = true := by
  rw [Slice.isFinished, beq_eq_false_iff_ne]
  rcases h.finished_or_bailed hle with ⟨hfalse, hend⟩ | ⟨hbail, hfront⟩
  · -- No answer was true, so the slice was finished.
    constructor
    · intro hne
      exact absurd hend hne
    · rintro ⟨question, hmem, htrue⟩
      rw [hfalse question hmem] at htrue
      cases htrue
  · -- The answer that stopped the worker is among the questions.
    exact ⟨fun _ => hbail, fun _ => Nat.ne_of_lt hfront⟩

end Worker

/-! ## §2 One attempt of a phase -/

namespace Phase

variable {number : Nat} {before after : Phase γ σ}

/-- Every worker stands within its slice. -/
def InBounds (phase : Phase γ σ) : Prop :=
  ∀ (index : Nat) worker, phase.workers[index]? = some worker →
    worker.slice.pos ≤ worker.slice.stop

/-- In an attempt some worker was told to bail out. -/
def BailedIn (phase : Phase γ σ) (attempt : Nat) : Prop :=
  ∃ (index : Nat) (worker : Worker γ σ), phase.workers[index]? = some worker ∧
    ∃ question ∈ worker.asked.toList,
      question.bail = true ∧ question.checkpoint.attempt = attempt

/-- A phase is left unfinished by one worker. -/
theorem isFinished_eq_false_iff (phase : Phase γ σ) :
    phase.isFinished = false ↔ ∃ (index : Nat) (worker : Worker γ σ),
      phase.workers[index]? = some worker ∧ worker.slice.isFinished = false := by
  rw [isFinished, List.all_eq_false]
  constructor
  · rintro ⟨worker, hmem, hunfinished⟩
    obtain ⟨index, hindex⟩ := List.mem_iff_getElem?.mp hmem
    exact ⟨index, worker, hindex, by simpa using hunfinished⟩
  · rintro ⟨index, worker, hindex, hunfinished⟩
    exact ⟨worker, List.mem_of_getElem? hindex, by simp [hunfinished]⟩

/-- An attempt makes one compile request, and keeps the workers. -/
theorem compiles_of_attempt (h : before.attempt kernel host op number = .ok after) :
    after.compiles = before.compiles + 1 ∧ after.workers.length = before.workers.length := by
  obtain ⟨middle, hwarmUp, hdispatch⟩ := Fault.bind_eq_ok.mp h
  obtain ⟨hcompiles, hwarmed⟩ := warmUp_eq_ok hwarmUp
  obtain ⟨hsame, hdispatched⟩ := dispatch_eq_ok hdispatch
  have hwarmLength := (forall₂_of_mapM_eq_ok hwarmed).length_eq
  have hlength := (forall₂_of_mapM_eq_ok hdispatched).length_eq
  rw [List.length_zipIdx] at hlength
  exact ⟨hsame.trans hcompiles, by rw [← hlength, ← hwarmLength]⟩

/-- Every worker of the phase is in the attempt. -/
theorem Attempted.exists_last (h : before.Attempted kernel host op number after) {index : Nat}
    {first : Worker γ σ} (hfirst : before.workers[index]? = some first) :
    ∃ last warm questions, after.workers[index]? = some last ∧
      Worker.Attempted kernel host op number index first warm last questions := by
  have hindex : index < after.workers.length := by
    rw [(compiles_of_attempt h.attempt_eq).2]
    exact (List.getElem?_eq_some_iff.mp hfirst).1
  have hlast := List.getElem?_eq_getElem hindex
  obtain ⟨other, warm, questions, hother, hattempted⟩ := h.workers index _ hlast
  obtain rfl : first = other := Option.some.inj (hfirst.symm.trans hother)
  exact ⟨_, warm, questions, hlast, hattempted⟩

theorem Attempted.inBounds (h : before.Attempted kernel host op number after)
    (hin : before.InBounds) : after.InBounds := by
  intro index last hlast
  obtain ⟨first, warm, questions, hfirst, hattempted⟩ := h.workers index last hlast
  exact hattempted.pos_le_stop (hin index first hfirst)

/-- An attempt adds itself to the attempts with a true answer if it leaves the phase unfinished,
and only then. -/
theorem Attempted.bailedIn_iff (h : before.Attempted kernel host op number after)
    (hin : before.InBounds) (attempt : Nat) :
    after.BailedIn attempt ↔
      before.BailedIn attempt ∨ (attempt = number ∧ after.isFinished = false) := by
  constructor
  · rintro ⟨index, last, hlast, question, hmem, htrue, rfl⟩
    obtain ⟨first, warm, questions, hfirst, hattempted⟩ := h.workers index last hlast
    have hunfinished := hattempted.isFinished_eq_false_iff (hin index first hfirst)
    rw [hattempted.asked_eq] at hmem
    rcases List.mem_append.mp hmem with hmem | hmem
    · -- The question was asked before.
      exact .inl ⟨index, first, hfirst, question, hmem, htrue, rfl⟩
    · -- It was asked in this attempt, and its worker has not finished.
      refine .inr ⟨hattempted.dispatch.attempt_eq question hmem, ?_⟩
      exact (isFinished_eq_false_iff after).mpr
        ⟨index, last, hlast, hunfinished.mpr ⟨question, hmem, htrue⟩⟩
  · rintro (⟨index, first, hfirst, question, hmem, htrue, rfl⟩ | ⟨rfl, hunfinished⟩)
    · -- No question is forgotten.
      obtain ⟨last, warm, questions, hlast, hattempted⟩ := h.exists_last hfirst
      refine ⟨index, last, hlast, question, ?_, htrue, rfl⟩
      rw [hattempted.asked_eq]
      exact List.mem_append_left _ hmem
    · -- The worker that has not finished was told to bail out.
      obtain ⟨index, last, hlast, hopen⟩ := (isFinished_eq_false_iff after).mp hunfinished
      obtain ⟨first, warm, questions, hfirst, hattempted⟩ := h.workers index last hlast
      obtain ⟨question, hmem, htrue⟩ :=
        (hattempted.isFinished_eq_false_iff (hin index first hfirst)).mp hopen
      refine ⟨index, last, hlast, question, ?_, htrue, hattempted.dispatch.attempt_eq question hmem⟩
      rw [hattempted.asked_eq]
      exact List.mem_append_right _ hmem

/-! ## §3 All attempts of a phase -/

variable {left bailouts : Nat} {phase final : Phase γ σ} {outcome : PhaseOutcome}

/-- `count` attempts of a phase, one after another, the first of which has a given number. -/
inductive Tries (kernel : Kernel γ σ) (host : Host) (op : Operation) :
    (number count : Nat) → Phase γ σ → Phase γ σ → Prop where
  | none (number : Nat) (phase : Phase γ σ) : Tries kernel host op number 0 phase phase
  | next {number count : Nat} {phase tried final : Phase γ σ}
      (hattempt : phase.attempt kernel host op number = .ok tried)
      (hrest : Tries kernel host op (number + 1) count tried final) :
      Tries kernel host op number (count + 1) phase final

/-- Every attempt makes one compile request. -/
theorem Tries.compiles_eq {count : Nat} (h : Tries kernel host op number count phase final) :
    final.compiles = phase.compiles + count := by
  induction h with
  | none => rfl
  | next hattempt hrest ih =>
    rw [ih, (compiles_of_attempt hattempt).1]
    omega

end Phase

/-- The number of attempts that lead to an outcome: those that ended in a bailout, and the one that
completed. -/
def PhaseOutcome.attempts : PhaseOutcome → Nat
  | .completed n => n + 1
  | .fallback n => n

namespace Phase

variable {left bailouts : Nat} {phase final : Phase γ σ} {outcome : PhaseOutcome}

theorem Course.tries (h : Course kernel host op left bailouts phase outcome final) :
    ∃ count, Tries kernel host op bailouts count phase final ∧
      bailouts + count = outcome.attempts := by
  induction h with
  | fallback bailouts phase => exact ⟨0, .none bailouts phase, rfl⟩
  | @completed left bailouts phase tried hattempt hfinished =>
    exact ⟨1, .next hattempt.attempt_eq (.none _ tried), rfl⟩
  | retry hattempt hunfinished hrest ih =>
    obtain ⟨count, htries, hcount⟩ := ih
    exact ⟨count + 1, .next hattempt.attempt_eq htries, by omega⟩

/-- A phase that completes has an attempt to spare, and one that falls back has none. -/
theorem Course.bailouts_bounds (h : Course kernel host op left bailouts phase outcome final) :
    if outcome.isCompleted then outcome.bailouts < bailouts + left
    else outcome.bailouts = bailouts + left := by
  -- By induction on the attempts: each that fails takes one from those that are left.
  induction h with
  | fallback bailouts phase => rfl
  | @completed left bailouts phase tried hattempt hfinished =>
    show bailouts < bailouts + (left + 1)
    omega
  | retry hattempt hunfinished hrest ih =>
    split at ih
    · rename_i hcompleted
      rw [if_pos hcompleted]
      omega
    · rename_i hfallback
      rw [if_neg hfallback]
      omega

/-- If the attempts so far are those in which some worker was told to bail out, then in the end
the bailouts that were counted are. -/
theorem Course.bailedIn_iff (h : Course kernel host op left bailouts phase outcome final)
    (hin : phase.InBounds) (hphase : ∀ attempt, phase.BailedIn attempt ↔ attempt < bailouts) :
    ∀ attempt, final.BailedIn attempt ↔ attempt < outcome.bailouts := by
  induction h with
  | fallback bailouts phase => exact hphase
  | completed hattempt hfinished =>
    -- The last attempt leaves nothing unfinished, and so had no true answer.
    intro attempt
    rw [hattempt.bailedIn_iff hin, hphase, hfinished]
    simp [PhaseOutcome.bailouts]
  | retry hattempt hunfinished hrest ih =>
    apply ih (hattempt.inBounds hin)
    intro attempt
    rw [hattempt.bailedIn_iff hin, hphase, and_iff_left hunfinished]
    omega

/-- A phase that has not begun stands within its slices, and was not told anything. -/
theorem inBounds_start {shares : List (Slice × σ)}
    (h : ∀ share ∈ shares, share.1.pos ≤ share.1.stop) :
    (start shares : Phase γ σ).InBounds := by
  intro index worker hworker
  rw [start, List.getElem?_map, Option.map_eq_some_iff] at hworker
  obtain ⟨share, hshare, rfl⟩ := hworker
  exact h share (List.mem_of_getElem? hshare)

theorem not_bailedIn_start (shares : List (Slice × σ)) (attempt : Nat) :
    ¬ (start shares : Phase γ σ).BailedIn attempt := by
  rintro ⟨index, worker, hworker, question, hmem, -⟩
  rw [start, List.getElem?_map, Option.map_eq_some_iff] at hworker
  obtain ⟨share, -, rfl⟩ := hworker
  simp at hmem

end Phase

/-! ## §4 Traces and outcomes -/

/-- A list that holds the numbers below `n`, each of them once, has `n` entries. -/
theorem length_eq_of_mem_iff_lt {numbers : List Nat} {n : Nat} (hnodup : numbers.Nodup)
    (h : ∀ a, a ∈ numbers ↔ a < n) : numbers.length = n := by
  have hperm : numbers.Perm (List.range n) := by
    apply (List.perm_ext_iff_of_nodup hnodup List.nodup_range).mpr
    intro a
    exact (h a).trans List.mem_range.symm
  rw [hperm.length_eq, List.length_range]

namespace PhaseTrace

/-- The attempts in which the host has told some worker to bail out, each of them once. -/
def bailedAttempts (trace : PhaseTrace) : List Nat :=
  (((trace.asked.flatMap (·.toList)).filter (·.bail)).map (·.checkpoint.attempt)).dedup

/-- In the last attempt some worker was told to bail out. Attempts are numbered from zero, and
each of them makes one compile request. -/
def BailedLast (trace : PhaseTrace) : Prop :=
  ∃ last, last + 1 = trace.compiles ∧ last ∈ trace.bailedAttempts

/-- A phase that runs a kernel on some shares has left this trace, and has started `count`
attempts. In compile mode there is one, and it is a warmup. -/
def Starts (kernel : Kernel γ σ) (host : Host) (op : Operation) (mode : Mode)
    (shares : List (Slice × σ)) (trace : PhaseTrace) (count : Nat) : Prop :=
  ∃ outcome final, (Phase.start shares).run kernel host op mode = .ok (outcome, final) ∧
    final.trace = trace ∧
    if mode = .compile then count = 1 ∧ (Phase.start shares).warmUp kernel = .ok final
    else Phase.Tries kernel host op 0 count (Phase.start shares) final

theorem mem_bailedAttempts_trace (phase : Phase γ σ) (attempt : Nat) :
    attempt ∈ phase.trace.bailedAttempts ↔ phase.BailedIn attempt := by
  simp only [bailedAttempts, List.mem_dedup, List.mem_map, List.mem_filter, List.mem_flatMap,
    Phase.trace, Phase.BailedIn]
  constructor
  · rintro ⟨question, ⟨⟨_, ⟨worker, hworker, rfl⟩, hmem⟩, htrue⟩, hattempt⟩
    obtain ⟨index, hindex⟩ := List.mem_iff_getElem?.mp hworker
    exact ⟨index, worker, hindex, question, hmem, htrue, hattempt⟩
  · rintro ⟨index, worker, hindex, question, hmem, htrue, hattempt⟩
    exact ⟨question, ⟨⟨_, ⟨worker, List.mem_of_getElem? hindex, rfl⟩, hmem⟩, htrue⟩, hattempt⟩

/-- Attempts that are numbered without a gap are as many as their numbers say. -/
theorem length_bailedAttempts {trace : PhaseTrace} {n : Nat}
    (h : ∀ attempt, attempt ∈ trace.bailedAttempts ↔ attempt < n) :
    trace.bailedAttempts.length = n :=
  length_eq_of_mem_iff_lt (List.nodup_dedup _) h

/-- Attempts are numbered up to the last one, which is a bailout unless the phase completes. -/
theorem not_bailedLast_iff {trace : PhaseTrace} {outcome : PhaseOutcome}
    (hcompiles : trace.compiles = outcome.attempts)
    (hbailed : ∀ attempt, attempt ∈ trace.bailedAttempts ↔ attempt < outcome.bailouts)
    (hfallback : outcome.isCompleted = false → 0 < outcome.bailouts) :
    ¬ trace.BailedLast ↔ outcome.isCompleted = true := by
  simp only [BailedLast, hcompiles, hbailed]
  cases outcome with
  | completed n =>
    simp only [PhaseOutcome.isCompleted, PhaseOutcome.attempts, PhaseOutcome.bailouts, iff_true]
    -- As many attempts have failed as there are bailouts, and the last one was one more.
    rintro ⟨last, hlast, hlt⟩
    omega
  | fallback n =>
    have hpos : 0 < n := hfallback rfl
    simp only [PhaseOutcome.isCompleted, PhaseOutcome.attempts, PhaseOutcome.bailouts,
      Bool.false_eq_true, iff_false, not_not]
    -- All attempts have failed, and with them the last one.
    exact ⟨n - 1, by omega, by omega⟩

/-- How the trace of a phase accounts for its outcome. -/
structure Accounts (trace : PhaseTrace) (mode : Mode) (starts : PhaseTrace → Nat → Prop)
    (outcome : PhaseOutcome) : Prop where
  bailouts_eq : trace.bailedAttempts.length = outcome.bailouts
  completed_iff : outcome.isCompleted = true ↔ mode ≠ .compile ∧ ¬ trace.BailedLast
  starts : starts trace trace.compiles
  compile : mode = .compile → trace.compiles = 1
  bailouts_le : outcome.bailouts ≤ maxBailouts
  bailouts_lt : outcome.isCompleted = true → outcome.bailouts < maxBailouts

end PhaseTrace

namespace Phase

variable {mode : Mode} {final : Phase γ σ} {outcome : PhaseOutcome} {shares : List (Slice × σ)}

/-- The warmup of compile mode asks nothing, and is the only attempt. -/
theorem accounts_of_compile (hmode : mode = .compile)
    (h : (start shares).run kernel host op mode = .ok (outcome, final)) :
    final.trace.Accounts mode (PhaseTrace.Starts kernel host op mode shares) outcome := by
  obtain ⟨rfl, hwarm⟩ := warmUp_of_run hmode h
  have hcompiles : final.trace.compiles = 1 := (warmUp_eq_ok hwarm).1
  -- Nothing is asked in a warmup, so there is no true answer either.
  have hnone : ∀ attempt, attempt ∉ final.trace.bailedAttempts := by
    intro attempt hmem
    have hasked := asked_of_warmUp hwarm
    rw [PhaseTrace.bailedAttempts, hasked] at hmem
    exact not_bailedIn_start shares attempt
      ((PhaseTrace.mem_bailedAttempts_trace _ _).mp hmem)
  refine ⟨?_, ?_, ⟨_, _, h, rfl, ?_⟩, fun _ => hcompiles, Nat.zero_le _, ?_⟩
  · apply PhaseTrace.length_bailedAttempts
    intro attempt
    simp [hnone attempt, PhaseOutcome.bailouts]
  · simp [hmode, PhaseOutcome.isCompleted]
  · rw [if_pos hmode]
    exact ⟨hcompiles, hwarm⟩
  · intro hcompleted
    cases hcompleted

/-- **The trace of every phase accounts for its outcome**: the bailouts that were counted are the
attempts with a true answer, and the phase has completed if the last attempt was none of them. -/
theorem accounts_of_run (hshares : ∀ share ∈ shares, share.1.pos ≤ share.1.stop)
    (h : (start shares).run kernel host op mode = .ok (outcome, final)) :
    final.trace.Accounts mode (PhaseTrace.Starts kernel host op mode shares) outcome := by
  by_cases hmode : mode = .compile
  · exact accounts_of_compile hmode h
  have hcourse := course_of_run hmode h
  obtain ⟨count, htries, hcount⟩ := hcourse.tries
  rw [Nat.zero_add] at hcount
  have hcompiles : final.trace.compiles = count := by
    show final.compiles = count
    rw [htries.compiles_eq, start, Nat.zero_add]
  have hbounds := hcourse.bailouts_bounds
  have hbailed : ∀ attempt, attempt ∈ final.trace.bailedAttempts ↔ attempt < outcome.bailouts := by
    intro attempt
    rw [PhaseTrace.mem_bailedAttempts_trace]
    apply hcourse.bailedIn_iff (inBounds_start hshares)
    intro attempt
    simp [not_bailedIn_start shares attempt]
  refine ⟨PhaseTrace.length_bailedAttempts hbailed, ?_, ⟨_, _, h, rfl, ?_⟩,
    fun hcompile => absurd hcompile hmode, ?_, ?_⟩
  · rw [PhaseTrace.not_bailedLast_iff (by rw [hcompiles, hcount]) hbailed, and_iff_right hmode]
    -- A phase that falls back has used up all of its attempts.
    intro hfallback
    rw [hfallback, if_neg Bool.false_ne_true] at hbounds
    rw [hbounds]
    decide
  · rw [if_neg hmode, hcompiles]
    exact htries
  · split at hbounds <;> omega
  · intro hcompleted
    rw [if_pos hcompleted, Nat.zero_add] at hbounds
    exact hbounds

end Phase

end ForkJoin
