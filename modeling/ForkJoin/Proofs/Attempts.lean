import ForkJoin.Proofs.Resumption
import Mathlib.Data.List.Nodup

/-!
# Attempts

What the workers of a phase ask of the host, attempt by attempt. A dispatched worker asks about
the units behind its warmup, one after another, and a true answer is the last it gets. The warmup
of the next attempt processes the unit it stopped at without asking, so over all attempts no unit
is asked about twice.

## Main definitions
- `Worker.Passes`, `Worker.Dispatched`: one pass, and one that asks.
- `Phase.Attempted`: one attempt of all workers.
- `Phase.Course`: the attempts of a phase, one after another.
- `PhaseTrace.Orderly`: how a phase asks its host.

## Main statements
- `Worker.dispatched_of_proceed`: what a dispatched worker asks.
- `Worker.AsksOnce.attempted`: over all attempts a worker asks about ascending units.
- `Phase.course_of_run`: a phase is a course of attempts.
- `Phase.orderly_of_run`: every phase asks its host in order.
-/

namespace ForkJoin

variable {γ σ : Type} {kernel : Kernel γ σ}

/-! ## §1 One pass -/

namespace Worker

variable {before after : Worker γ σ} {fuel : Nat}

/-- A pass processes the units from where the worker stands up to where it stops, each of them
once and in order, and asks some questions. -/
structure Passes (kernel : Kernel γ σ) (before after : Worker γ σ)
    (questions : List Consultation) : Prop where
  slice_eq : after.slice = { before.slice with pos := after.slice.pos }
  pos_le : before.slice.pos ≤ after.slice.pos
  work : kernel.workAll (List.range' before.slice.pos (after.slice.pos - before.slice.pos))
    before.state before.calls = .ok (after.state, after.calls)
  asked_eq : after.asked.toList = before.asked.toList ++ questions

theorem Passes.stop_eq {questions : List Consultation} (h : before.Passes kernel after questions) :
    after.slice.stop = before.slice.stop := by
  rw [h.slice_eq]

/-- A pass may end where it begins, with or without a question. -/
theorem passes_asked (worker : Worker γ σ) {asked : Array Consultation}
    {questions : List Consultation} (hasked : asked.toList = worker.asked.toList ++ questions) :
    worker.Passes kernel { worker with asked } questions where
  slice_eq := rfl
  pos_le := Nat.le_refl _
  work := by
    simp only [Nat.sub_self, List.range'_zero]
    rfl
  asked_eq := hasked

/-- One unit in front of a pass. -/
theorem Passes.advance {state : σ} {calls : Array γ} {asked : Array Consultation}
    {first rest : List Consultation}
    (hwork : kernel.work before.slice.pos before.state before.calls = .ok (state, calls))
    (hasked : asked.toList = before.asked.toList ++ first)
    (h : Passes kernel ⟨before.slice.advance, state, calls, asked⟩ after rest) :
    before.Passes kernel after (first ++ rest) where
  slice_eq := by
    rw [h.slice_eq]
    rfl
  pos_le := by
    have hle := h.pos_le
    simp only [Slice.advance] at hle
    omega
  work := by
    have hle := h.pos_le
    have hrest := h.work
    simp only [Slice.advance] at hle hrest
    -- The first unit is taken off the range of units that are worked through.
    rw [show after.slice.pos - before.slice.pos = after.slice.pos - (before.slice.pos + 1) + 1 by
      omega, List.range'_succ, Kernel.workAll_cons]
    change (kernel.work before.slice.pos before.state before.calls).bind _ = _
    rw [hwork]
    exact hrest
  asked_eq := by rw [h.asked_eq, hasked, List.append_assoc]

/-- A pass with units left either stops at the next one, because the host says so, or goes on
behind it. -/
theorem proceed_succ_eq_ok {consult : Option (Nat → Consultation)}
    (h : before.proceed kernel consult (fuel + 1) = .ok after) :
    (∃ ask, consult = some ask ∧ (ask before.slice.pos).bail = true ∧
      after = { before with asked := before.asked.push (ask before.slice.pos) }) ∨
    (∃ state calls, (∀ ask, consult = some ask → (ask before.slice.pos).bail = false) ∧
      kernel.work before.slice.pos before.state before.calls = .ok (state, calls) ∧
      proceed kernel consult fuel ⟨before.slice.advance, state, calls,
        (consult.map (· before.slice.pos)).elim before.asked before.asked.push⟩ = .ok after) := by
  rw [proceed] at h
  by_cases hbail : (consult.map (· before.slice.pos)).any (·.bail) = true
  · -- Only a host can say so.
    cases consult with
    | none => cases hbail
    | some ask =>
      simp only [hbail, if_true] at h
      exact .inl ⟨ask, rfl, hbail, (Except.ok.inj h).symm⟩
  · simp only [hbail] at h
    cases hwork : kernel.work before.slice.pos before.state before.calls with
    | error fault => simp [hwork] at h
    | ok done =>
      simp only [hwork] at h
      refine .inr ⟨done.1, done.2, ?_, rfl, h⟩
      rintro ask rfl
      simpa using hbail

/-- A pass that does not ask processes all units it may. -/
theorem passes_of_proceed_none (h : before.proceed kernel none fuel = .ok after) :
    before.Passes kernel after [] ∧ after.slice.pos = before.slice.pos + fuel := by
  induction fuel generalizing before with
  | zero =>
    cases h
    exact ⟨passes_asked _ (List.append_nil _).symm, rfl⟩
  | succ fuel ih =>
    obtain ⟨_, hnone, -⟩ | ⟨state, calls, -, hwork, hrest⟩ := proceed_succ_eq_ok h
    · cases hnone
    · obtain ⟨hpasses, hpos⟩ := ih hrest
      refine ⟨hpasses.advance hwork (List.append_nil _).symm, ?_⟩
      simp only [Slice.advance] at hpos
      omega

/-- A pass over at most `units` units that asks before every one. The questions are about
consecutive units from where the worker stands, and a true answer is the last one: the worker then
stops in front of the unit. -/
structure Dispatched (kernel : Kernel γ σ) (host : Host) (op : Operation)
    (attempt index units : Nat) (before after : Worker γ σ) (questions : List Consultation) :
    Prop extends before.Passes kernel after questions where
  consecutive : questions = (List.range' before.slice.pos questions.length).map fun unit =>
    host.consult ⟨op, attempt, index, unit⟩
  inside : questions.length ≤ units
  /-- A unit with a false answer is processed. -/
  goes_on : ∀ question ∈ questions, question.bail = false →
    question.checkpoint.unit < after.slice.pos
  /-- A unit with a true answer is not, and nothing is asked after it. -/
  bails : ∀ question ∈ questions, question.bail = true →
    questions.getLast? = some question ∧ question.checkpoint.unit = after.slice.pos
  /-- Without a true answer all units are processed. -/
  reaches_end : (∀ question ∈ questions, question.bail = false) →
    after.slice.pos = before.slice.pos + units

variable {host : Host} {op : Operation} {attempt index : Nat}

/-- One unit with a false answer in front of such a pass. -/
theorem Dispatched.advance {state : σ} {calls : Array γ} {questions : List Consultation}
    (hgo : (host.consult ⟨op, attempt, index, before.slice.pos⟩).bail = false)
    (hwork : kernel.work before.slice.pos before.state before.calls = .ok (state, calls))
    (h : Dispatched kernel host op attempt index fuel ⟨before.slice.advance, state, calls,
      before.asked.push (host.consult ⟨op, attempt, index, before.slice.pos⟩)⟩ after questions) :
    before.Dispatched kernel host op attempt index (fuel + 1) after
      (host.consult ⟨op, attempt, index, before.slice.pos⟩ :: questions) where
  toPasses := h.toPasses.advance hwork (Array.toList_push ..)
  consecutive := by
    have hrest := h.consecutive
    simp only [Slice.advance] at hrest
    rw [List.length_cons, List.range'_succ, List.map_cons, ← hrest]
  inside := Nat.succ_le_succ h.inside
  goes_on := by
    intro question hmem hfalse
    rcases List.mem_cons.mp hmem with rfl | hmem
    · exact h.pos_le
    · exact h.goes_on question hmem hfalse
  bails := by
    intro question hmem htrue
    rcases List.mem_cons.mp hmem with rfl | hmem
    · rw [hgo] at htrue
      cases htrue
    · obtain ⟨hlast, hunit⟩ := h.bails question hmem htrue
      exact ⟨by rw [List.getLast?_cons, hlast]; rfl, hunit⟩
  reaches_end := by
    intro hfalse
    have hend := h.reaches_end fun question hmem => hfalse question (List.mem_cons_of_mem _ hmem)
    simp only [Slice.advance] at hend
    omega

/-- The loop of a dispatched pass. -/
theorem dispatched_of_proceed
    (h : before.proceed kernel (some fun unit => host.consult ⟨op, attempt, index, unit⟩) fuel =
      .ok after) :
    ∃ questions, before.Dispatched kernel host op attempt index fuel after questions := by
  -- By induction on the units that may be processed; a true answer ends the pass early.
  induction fuel generalizing before with
  | zero =>
    cases h
    exact ⟨[], passes_asked _ (List.append_nil _).symm, rfl, Nat.le_refl _, by simp, by simp,
      fun _ => rfl⟩
  | succ fuel ih =>
    obtain ⟨_, ⟨⟩, hbail, rfl⟩ | ⟨state, calls, hgo, hwork, hrest⟩ := proceed_succ_eq_ok h
    · -- The first question is the last one.
      refine ⟨[host.consult ⟨op, attempt, index, before.slice.pos⟩],
        passes_asked _ (Array.toList_push ..), rfl, by simp, ?_, ?_, ?_⟩
      · intro question hmem hfalse
        rw [List.mem_singleton.mp hmem, hbail] at hfalse
        cases hfalse
      · intro question hmem _
        rw [List.mem_singleton.mp hmem]
        exact ⟨rfl, rfl⟩
      · intro hfalse
        rw [hfalse _ (List.mem_singleton_self _)] at hbail
        cases hbail
    · -- The first unit is processed, and the other questions are those of the rest.
      obtain ⟨questions, hnext⟩ := ih hrest
      exact ⟨_, hnext.advance (hgo _ rfl) hwork⟩

/-- The units of the questions are consecutive. -/
theorem Dispatched.units_eq {units : Nat} {questions : List Consultation}
    (h : before.Dispatched kernel host op attempt index units after questions) :
    questions.map (·.checkpoint.unit) = List.range' before.slice.pos questions.length := by
  have hunits := congrArg (List.map (·.checkpoint.unit)) h.consecutive
  rwa [List.map_map, show ((·.checkpoint.unit) ∘ fun unit =>
    host.consult ⟨op, attempt, index, unit⟩) = id from rfl, List.map_id] at hunits

/-- Every question is about a unit of the pass. -/
theorem Dispatched.bounds {units : Nat} {questions : List Consultation}
    (h : before.Dispatched kernel host op attempt index units after questions) :
    ∀ question ∈ questions, question.checkpoint.slice = index ∧
      before.slice.pos ≤ question.checkpoint.unit ∧
      question.checkpoint.unit < before.slice.pos + units := by
  intro question hmem
  have hinside := h.inside
  rw [h.consecutive] at hmem
  obtain ⟨unit, hunit, rfl⟩ := List.mem_map.mp hmem
  have hbounds := List.mem_range'_1.mp hunit
  exact ⟨rfl, hbounds.1, show unit < before.slice.pos + units by omega⟩

/-! ## §2 One attempt of a worker -/

/-- One attempt: a warmup, in which nothing is asked, and a dispatch from where it ended. -/
structure Attempted (kernel : Kernel γ σ) (host : Host) (op : Operation) (attempt index : Nat)
    (before warm after : Worker γ σ) (questions : List Consultation) : Prop where
  warmup : before.Passes kernel warm []
  warmup_pos : warm.slice.pos =
    before.slice.pos + (before.slice.passEnd true kernel.warmup - before.slice.pos)
  dispatch : warm.Dispatched kernel host op attempt index (warm.slice.stop - warm.slice.pos) after
    questions

/-- Both passes of an attempt, one after the other. -/
theorem attempted_of_passes {warm : Worker γ σ} (hwarm : before.warmUp kernel = .ok warm)
    (hdispatch : warm.dispatch kernel host op attempt index = .ok after) :
    ∃ questions, Attempted kernel host op attempt index before warm after questions := by
  obtain ⟨hpasses, hpos⟩ := passes_of_proceed_none hwarm
  obtain ⟨questions, hdispatched⟩ := dispatched_of_proceed hdispatch
  exact ⟨questions, hpasses, hpos, hdispatched⟩

/-- Up to now the worker has asked about units of its slice, each of them once and in order, and
about none behind the one where it stands. -/
structure AsksOnce (index : Nat) (worker : Worker γ σ) : Prop where
  slice_eq : ∀ question ∈ worker.asked.toList, question.checkpoint.slice = index
  inside : ∀ question ∈ worker.asked.toList, question.checkpoint.unit < worker.slice.stop
  behind : ∀ question ∈ worker.asked.toList, question.checkpoint.unit ≤ worker.slice.pos
  ascending : (worker.asked.toList.map (·.checkpoint.unit)).Pairwise (· < ·)

section

variable {warm : Worker γ σ} {questions : List Consultation}

theorem Attempted.asked_eq
    (h : Attempted kernel host op attempt index before warm after questions) :
    after.asked.toList = before.asked.toList ++ questions := by
  rw [h.dispatch.asked_eq, h.warmup.asked_eq, List.append_nil]

theorem Attempted.stop_eq
    (h : Attempted kernel host op attempt index before warm after questions) :
    after.slice.stop = before.slice.stop := by
  rw [h.dispatch.stop_eq, h.warmup.stop_eq]

/-- A warmup that goes on at all passes the unit at which the worker may have bailed out, and so
all units that it has asked about. -/
theorem AsksOnce.lt_warm (hwarmup : 0 < kernel.warmup) (h : before.AsksOnce index)
    (hattempt : Attempted kernel host op attempt index before warm after questions) :
    ∀ question ∈ before.asked.toList, question.checkpoint.unit < warm.slice.pos := by
  intro question hmem
  have hinside := h.inside question hmem
  have hbehind := h.behind question hmem
  have hpos := hattempt.warmup_pos
  simp only [Slice.passEnd, if_true] at hpos
  omega

/-- So an attempt asks about none of these units again. -/
theorem AsksOnce.attempted (hwarmup : 0 < kernel.warmup) (h : before.AsksOnce index)
    (hattempt : Attempted kernel host op attempt index before warm after questions) :
    after.AsksOnce index := by
  have hearlier := h.lt_warm hwarmup hattempt
  have hbounds := hattempt.dispatch.bounds
  have hstop := hattempt.warmup.stop_eq
  -- Every question was asked before the attempt or in its dispatch.
  constructor
  all_goals rw [hattempt.asked_eq]
  · intro question hmem
    rcases List.mem_append.mp hmem with hmem | hmem
    · exact h.slice_eq question hmem
    · exact (hbounds question hmem).1
  · intro question hmem
    rw [hattempt.stop_eq]
    rcases List.mem_append.mp hmem with hmem | hmem
    · exact h.inside question hmem
    · have hunit := (hbounds question hmem).2
      omega
  · intro question hmem
    rcases List.mem_append.mp hmem with hmem | hmem
    · exact Nat.le_trans (Nat.le_of_lt (hearlier question hmem)) hattempt.dispatch.pos_le
    · cases hbail : question.bail with
      | false => exact Nat.le_of_lt (hattempt.dispatch.goes_on question hmem hbail)
      | true => exact Nat.le_of_eq (hattempt.dispatch.bails question hmem hbail).2
  · rw [List.map_append, List.pairwise_append]
    refine ⟨h.ascending, ?_, ?_⟩
    · rw [hattempt.dispatch.units_eq]
      exact List.pairwise_lt_range'
    · -- The warmup has passed the units of earlier questions, and the dispatch begins behind it.
      intro unit hunit later hlater
      obtain ⟨question, hmem, rfl⟩ := List.mem_map.mp hunit
      obtain ⟨other, hother, rfl⟩ := List.mem_map.mp hlater
      exact Nat.lt_of_lt_of_le (hearlier question hmem) (hbounds other hother).2.1

end

end Worker

/-! ## §3 One attempt of a phase -/

/-- Steps that none of the elements of a list fails at are made one by one. -/
theorem forall₂_of_mapM_eq_ok {τ υ : Type} {g : τ → Except Fault υ} {xs : List τ} {ys : List υ}
    (h : xs.mapM g = .ok ys) : List.Forall₂ (fun x y => g x = .ok y) xs ys := by
  induction xs generalizing ys with
  | nil =>
    cases h
    exact .nil
  | cons x xs ih =>
    rw [List.mapM_cons] at h
    obtain ⟨y, hy, h⟩ := Fault.bind_eq_ok.mp h
    obtain ⟨rest, hrest, h⟩ := Fault.bind_eq_ok.mp h
    cases h
    exact .cons hy (ih hrest)

/-- What they leave at an index comes from the step at that index. -/
theorem getElem?_of_mapM_eq_ok {τ υ : Type} {g : τ → Except Fault υ} {xs : List τ} {ys : List υ}
    (h : xs.mapM g = .ok ys) (i : Nat) {y : υ} (hy : ys[i]? = some y) :
    ∃ x, xs[i]? = some x ∧ g x = .ok y := by
  have hall := forall₂_of_mapM_eq_ok h
  obtain ⟨hi, rfl⟩ := List.getElem?_eq_some_iff.mp hy
  have hi' : i < xs.length := by rwa [hall.length_eq]
  exact ⟨xs[i], List.getElem?_eq_getElem hi', hall.get hi' hi⟩

/-- What no step changes is as it was before. -/
theorem map_of_mapM_eq_ok {τ υ ι : Type} {g : τ → Except Fault υ} {old : τ → ι} {new : υ → ι}
    (hg : ∀ x y, g x = .ok y → new y = old x) {xs : List τ} {ys : List υ}
    (h : xs.mapM g = .ok ys) : ys.map new = xs.map old := by
  have hall := forall₂_of_mapM_eq_ok h
  clear h
  induction hall with
  | nil => rfl
  | cons hstep _ ih => rw [List.map_cons, List.map_cons, hg _ _ hstep, ih]

namespace Phase

variable {before after : Phase γ σ} {host : Host} {op : Operation} {number : Nat}

/-- A warmup of a phase makes a compile request, and warms up every worker. -/
theorem warmUp_eq_ok (h : before.warmUp kernel = .ok after) :
    after.compiles = before.compiles + 1 ∧
      before.workers.mapM (·.warmUp kernel) = .ok after.workers := by
  obtain ⟨workers, hworkers, hafter⟩ := Fault.bind_eq_ok.mp h
  cases hafter
  exact ⟨rfl, hworkers⟩

/-- A dispatch of a phase dispatches every worker under the number of its slice. -/
theorem dispatch_eq_ok (h : before.dispatch kernel host op number = .ok after) :
    after.compiles = before.compiles ∧
      before.workers.zipIdx.mapM (fun numbered =>
        numbered.1.dispatch kernel host op number numbered.2) = .ok after.workers := by
  obtain ⟨workers, hworkers, hafter⟩ := Fault.bind_eq_ok.mp h
  cases hafter
  exact ⟨rfl, hworkers⟩

/-- The sequential pass makes no compile request. -/
theorem finishAlone_eq_ok (h : before.finishAlone kernel = .ok after) :
    after.compiles = before.compiles ∧
      before.workers.mapM (·.finishAlone kernel) = .ok after.workers := by
  obtain ⟨workers, hworkers, hafter⟩ := Fault.bind_eq_ok.mp h
  cases hafter
  exact ⟨rfl, hworkers⟩

/-- One attempt of a phase is one of each of its workers. -/
structure Attempted (kernel : Kernel γ σ) (host : Host) (op : Operation) (number : Nat)
    (before after : Phase γ σ) : Prop where
  attempt_eq : before.attempt kernel host op number = .ok after
  workers : ∀ (index : Nat) last, after.workers[index]? = some last →
    ∃ first warm questions, before.workers[index]? = some first ∧
      Worker.Attempted kernel host op number index first warm last questions

/-- In an attempt every worker makes both of its passes, the second one under the number of its
slice. -/
theorem passes_of_attempt (h : before.attempt kernel host op number = .ok after) {index : Nat}
    {last : Worker γ σ} (hlast : after.workers[index]? = some last) :
    ∃ first warm, before.workers[index]? = some first ∧ first.warmUp kernel = .ok warm ∧
      warm.dispatch kernel host op number index = .ok last := by
  obtain ⟨middle, hwarmUp, hdispatch⟩ := Fault.bind_eq_ok.mp h
  obtain ⟨-, hwarmed⟩ := warmUp_eq_ok hwarmUp
  obtain ⟨-, hdispatched⟩ := dispatch_eq_ok hdispatch
  -- The worker at an index was dispatched under the number of its slice, after its warmup.
  obtain ⟨⟨warm, slice⟩, hnumbered, hlast⟩ := getElem?_of_mapM_eq_ok hdispatched index hlast
  rw [List.getElem?_zipIdx, Option.map_eq_some_iff] at hnumbered
  obtain ⟨_, hwarm, hslice⟩ := hnumbered
  obtain ⟨rfl, rfl⟩ := Prod.mk.inj hslice
  obtain ⟨first, hfirst, hwarm⟩ := getElem?_of_mapM_eq_ok hwarmed index hwarm
  rw [Nat.zero_add] at hlast
  exact ⟨first, _, hfirst, hwarm, hlast⟩

theorem attempted_of_attempt (h : before.attempt kernel host op number = .ok after) :
    before.Attempted kernel host op number after := by
  refine ⟨h, ?_⟩
  intro index last hlast
  obtain ⟨first, warm, hfirst, hwarm, hdispatch⟩ := passes_of_attempt h hlast
  obtain ⟨questions, hattempted⟩ := Worker.attempted_of_passes hwarm hdispatch
  exact ⟨first, warm, questions, hfirst, hattempted⟩

/-- Up to now every worker has asked about units of its slice, each of them once. -/
def AsksOnce (phase : Phase γ σ) : Prop :=
  ∀ (index : Nat) worker, phase.workers[index]? = some worker → worker.AsksOnce index

/-- A phase that has not begun has asked nothing. -/
theorem asksOnce_start (shares : List (Slice × σ)) :
    (start shares : Phase γ σ).AsksOnce := by
  intro index worker hworker
  rw [start, List.getElem?_map, Option.map_eq_some_iff] at hworker
  obtain ⟨share, -, rfl⟩ := hworker
  constructor <;> simp

/-- Every attempt keeps that. -/
theorem AsksOnce.attempted (hwarmup : 0 < kernel.warmup) (h : before.AsksOnce)
    (hattempt : before.Attempted kernel host op number after) : after.AsksOnce := by
  intro index last hlast
  obtain ⟨first, warm, questions, hfirst, hworker⟩ := hattempt.workers index last hlast
  exact (h index first hfirst).attempted hwarmup hworker

/-! ## §4 All attempts of a phase -/

/-- The attempts of a phase, of which at most `left` are made; `bailouts` is the number of those
that were made before. -/
inductive Course (kernel : Kernel γ σ) (host : Host) (op : Operation) :
    (left bailouts : Nat) → Phase γ σ → PhaseOutcome → Phase γ σ → Prop where
  | fallback (bailouts : Nat) (phase : Phase γ σ) :
      Course kernel host op 0 bailouts phase (.fallback bailouts) phase
  | completed {left bailouts : Nat} {phase tried : Phase γ σ}
      (hattempt : phase.Attempted kernel host op bailouts tried)
      (hfinished : tried.isFinished = true) :
      Course kernel host op (left + 1) bailouts phase (.completed bailouts) tried
  | retry {left bailouts : Nat} {phase tried final : Phase γ σ} {outcome : PhaseOutcome}
      (hattempt : phase.Attempted kernel host op bailouts tried)
      (hunfinished : tried.isFinished = false)
      (hrest : Course kernel host op left (bailouts + 1) tried outcome final) :
      Course kernel host op (left + 1) bailouts phase outcome final

theorem course_of_attempts {left bailouts : Nat} {phase final : Phase γ σ} {outcome : PhaseOutcome}
    (h : phase.attempts kernel host op left bailouts = .ok (outcome, final)) :
    Course kernel host op left bailouts phase outcome final := by
  -- By induction on the attempts that are left.
  induction left generalizing phase bailouts with
  | zero =>
    cases h
    exact .fallback bailouts _
  | succ left ih =>
    obtain ⟨tried, htried, hrest⟩ := Fault.bind_eq_ok.mp h
    have hattempt := attempted_of_attempt htried
    cases hfinished : tried.isFinished with
    | true =>
      simp only [hfinished, if_true] at hrest
      cases hrest
      exact .completed hattempt hfinished
    | false =>
      simp only [hfinished, Bool.false_eq_true, if_false] at hrest
      exact .retry hattempt hfinished (ih hrest)

/-- A phase that runs is a course of attempts, unless there is only a warmup. -/
theorem course_of_run {mode : Mode} {phase final : Phase γ σ} {outcome : PhaseOutcome}
    (hmode : mode ≠ .compile) (h : phase.run kernel host op mode = .ok (outcome, final)) :
    Course kernel host op maxBailouts 0 phase outcome final := by
  rw [run, if_neg hmode] at h
  exact course_of_attempts h

theorem warmUp_of_run {mode : Mode} {phase final : Phase γ σ} {outcome : PhaseOutcome}
    (hmode : mode = .compile) (h : phase.run kernel host op mode = .ok (outcome, final)) :
    outcome = .fallback 0 ∧ phase.warmUp kernel = .ok final := by
  rw [run, if_pos hmode] at h
  obtain ⟨warm, hwarm, hdone⟩ := Fault.bind_eq_ok.mp h
  cases hdone
  exact ⟨rfl, hwarm⟩

/-- Over all attempts every worker asks about units of its slice, each of them once. -/
theorem Course.asksOnce (hwarmup : 0 < kernel.warmup) {left bailouts : Nat}
    {phase final : Phase γ σ} {outcome : PhaseOutcome}
    (h : Course kernel host op left bailouts phase outcome final) (hphase : phase.AsksOnce) :
    final.AsksOnce := by
  induction h with
  | fallback bailouts phase => exact hphase
  | completed hattempt hfinished => exact hphase.attempted hwarmup hattempt
  | retry hattempt hunfinished hrest ih => exact ih (hphase.attempted hwarmup hattempt)

end Phase

/-! ## §5 What is asked in a whole phase -/

namespace PhaseTrace

/-- The slices and units that were asked about, in slice order. -/
def units (trace : PhaseTrace) : List (Nat × Nat) :=
  (trace.asked.flatMap (·.toList)).map fun question =>
    (question.checkpoint.slice, question.checkpoint.unit)

/-- How a phase asks its host. The phase is one that runs a kernel on some shares. -/
structure Orderly (kernel : Kernel γ σ) (host : Host) (op : Operation) (mode : Mode)
    (shares : List (Slice × σ)) (trace : PhaseTrace) : Prop where
  /-- The phase is a course of attempts, unless there is only a warmup. -/
  course : ∃ outcome final,
    (Phase.start shares).run kernel host op mode = .ok (outcome, final) ∧ final.trace = trace ∧
      (mode ≠ .compile →
        Phase.Course kernel host op maxBailouts 0 (Phase.start shares) outcome final)
  /-- No unit of a slice is asked about twice. -/
  once : trace.units.Nodup
  /-- A warmup alone asks nothing. -/
  compile : mode = .compile → ∀ asked ∈ trace.asked, asked = #[]

end PhaseTrace

namespace Phase

variable {host : Host} {op : Operation} {mode : Mode} {phase next : Phase γ σ}

/-- Passes that do not ask leave the questions as they are. -/
theorem asked_of_mapM_eq_ok {units : Worker γ σ → Nat} {workers : List (Worker γ σ)}
    (h : phase.workers.mapM (fun worker => worker.proceed kernel none (units worker)) =
      .ok workers) :
    workers.map (·.asked) = phase.workers.map (·.asked) := by
  refine map_of_mapM_eq_ok ?_ h
  intro before after hproceed
  have hasked := (Worker.passes_of_proceed_none hproceed).1.asked_eq
  rw [List.append_nil] at hasked
  exact Array.ext' hasked

/-- The sequential pass asks nothing. -/
theorem trace_of_finishAlone (h : phase.finishAlone kernel = .ok next) :
    next.trace = phase.trace := by
  obtain ⟨hcompiles, hworkers⟩ := finishAlone_eq_ok h
  rw [trace, trace, hcompiles, asked_of_mapM_eq_ok hworkers]

/-- Nor does a warmup. -/
theorem asked_of_warmUp (h : phase.warmUp kernel = .ok next) :
    next.trace.asked = phase.trace.asked :=
  asked_of_mapM_eq_ok (warmUp_eq_ok h).2

/-- If every worker asks about units of its own slice, each of them once, then no unit of a slice
is asked about twice. -/
theorem AsksOnce.nodup_units (h : phase.AsksOnce) : phase.trace.units.Nodup := by
  rw [PhaseTrace.units, trace, List.flatMap_map, List.map_flatMap, List.nodup_flatMap]
  constructor
  · -- One worker: its units are ascending.
    intro worker hmem
    obtain ⟨index, hindex⟩ := List.mem_iff_getElem?.mp hmem
    apply List.Nodup.of_map Prod.snd
    rw [List.map_map]
    exact (h index worker hindex).ascending.imp Nat.ne_of_lt
  · -- Two workers: their slices are different ones.
    rw [List.pairwise_iff_getElem]
    intro i j hi hj hlt pair hpair hpair'
    obtain ⟨question, hquestion, rfl⟩ := List.mem_map.mp hpair
    obtain ⟨other, hother, heq⟩ := List.mem_map.mp hpair'
    have hslice := (h i _ (List.getElem?_eq_getElem hi)).slice_eq question hquestion
    have hslice' := (h j _ (List.getElem?_eq_getElem hj)).slice_eq other hother
    have hsame := congrArg Prod.fst heq
    simp only [hslice, hslice'] at hsame
    omega

/-- Every phase that runs is orderly, if its warmups go on at all. -/
theorem orderly_of_run {shares : List (Slice × σ)} {outcome : PhaseOutcome}
    (hwarmup : 0 < kernel.warmup)
    (h : (start shares).run kernel host op mode = .ok (outcome, phase)) :
    phase.trace.Orderly kernel host op mode shares := by
  have hstart := asksOnce_start (γ := γ) shares
  by_cases hmode : mode = .compile
  · -- A phase that only compiles warms up, and a warmup asks nothing.
    obtain ⟨-, hwarm⟩ := warmUp_of_run hmode h
    have hasked : ∀ asked ∈ phase.trace.asked, asked = #[] := by
      rw [asked_of_warmUp hwarm]
      intro asked hmem
      obtain ⟨worker, hworker, rfl⟩ := List.mem_map.mp hmem
      obtain ⟨share, -, rfl⟩ := List.mem_map.mp hworker
      rfl
    have hunits : phase.trace.units = [] := by
      rw [PhaseTrace.units, List.map_eq_nil_iff, List.flatMap_eq_nil_iff]
      intro asked hmem
      rw [hasked asked hmem]
    refine ⟨⟨_, _, h, rfl, fun hne => absurd hmode hne⟩, ?_, fun _ => hasked⟩
    rw [hunits]
    exact List.nodup_nil
  · -- All other phases are a course of attempts.
    have hcourse := course_of_run hmode h
    exact ⟨⟨outcome, phase, h, rfl, fun _ => hcourse⟩,
      (hcourse.asksOnce hwarmup hstart).nodup_units, fun hcompile => absurd hcompile hmode⟩

end Phase

end ForkJoin
