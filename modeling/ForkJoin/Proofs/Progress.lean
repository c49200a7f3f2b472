import ForkJoin.Proofs.Stages

/-!
# Progress

However a host answers, every attempt warms up before it asks. So after a number of attempts every
worker has got at least that many warmups further than the start of its slice, or has finished it,
and a phase can only fall back if some slice is longer than the warmups of all attempts. A bailout
takes a true answer, so a host that stops giving any lets the phase complete.

## Main definitions
- `Phase.Each`: how the slices of the workers relate to those that the phase was started on.
- `Slice.Reached`: a slice that has got some units further than its start, or is finished.
- `Phase.Advances`: how a phase advances, attempt by attempt.

## Main statements
- `Phase.Each.tries`: what every attempt of a worker keeps holds after all attempts.
- `Phase.Course.tried`: which attempts leave a phase unfinished.
- `Phase.Course.exists_bail`: every bailout was asked for.
- `Phase.advances_of_run`: every phase advances.
- `Setting.every_retry_advances`: every phase of every operation does.
-/

namespace ForkJoin

variable {γ σ : Type} {kernel : Kernel γ σ} {host : Host} {op : Operation}

namespace Phase

/-! ## §1 Workers and their slices -/

/-- How the slice of each worker relates to the one that the worker was started on. -/
structure Each (slices : List Slice) (R : (index : Nat) → (first now : Slice) → Prop)
    (phase : Phase γ σ) : Prop where
  length_eq : phase.workers.length = slices.length
  each : ∀ (index : Nat) (slice : Slice) (worker : Worker γ σ), slices[index]? = some slice →
    phase.workers[index]? = some worker → R index slice worker.slice

variable {phase before after final : Phase γ σ} {slices : List Slice}

/-- A phase that has not begun stands on the slices that it is started on. -/
theorem each_start (shares : List (Slice × σ)) :
    (start shares : Phase γ σ).Each (shares.map (·.1)) fun _ slice now => now = slice where
  length_eq := by rw [start, List.length_map, List.length_map]
  each := by
    intro index slice worker hslice hworker
    rw [List.getElem?_map, Option.map_eq_some_iff] at hslice
    obtain ⟨share, hshare, rfl⟩ := hslice
    rw [start, List.getElem?_map, hshare] at hworker
    cases hworker
    rfl

theorem Each.exists_slice {R : Nat → Slice → Slice → Prop} (h : phase.Each slices R) {index : Nat}
    {worker : Worker γ σ} (hworker : phase.workers[index]? = some worker) :
    ∃ slice, slices[index]? = some slice :=
  ⟨_, List.getElem?_eq_getElem (h.length_eq ▸ (List.getElem?_eq_some_iff.mp hworker).1)⟩

theorem Each.exists_worker {R : Nat → Slice → Slice → Prop} (h : phase.Each slices R) {index : Nat}
    {slice : Slice} (hslice : slices[index]? = some slice) :
    ∃ worker, phase.workers[index]? = some worker :=
  ⟨_, List.getElem?_eq_getElem (h.length_eq ▸ (List.getElem?_eq_some_iff.mp hslice).1)⟩

theorem Each.imp {R S : Nat → Slice → Slice → Prop} (h : phase.Each slices R)
    (himp : ∀ index slice now, slices[index]? = some slice → R index slice now →
      S index slice now) : phase.Each slices S where
  length_eq := h.length_eq
  each index slice worker hslice hworker :=
    himp index slice worker.slice hslice (h.each index slice worker hslice hworker)

/-- What one attempt does to every worker. -/
theorem Each.attempt {R S : Nat → Slice → Slice → Prop} {number : Nat} (h : before.Each slices R)
    (hattempt : before.attempt kernel host op number = .ok after)
    (hstep : ∀ {index : Nat} {slice : Slice} {first warm last : Worker γ σ},
      R index slice first.slice → first.warmUp kernel = .ok warm →
      warm.dispatch kernel host op number index = .ok last → S index slice last.slice) :
    after.Each slices S where
  length_eq := (compiles_of_attempt hattempt).2.trans h.length_eq
  each := by
    intro index slice last hslice hlast
    obtain ⟨first, warm, hfirst, hwarm, hdispatch⟩ := passes_of_attempt hattempt hlast
    exact hstep (h.each index slice first hslice hfirst) hwarm hdispatch

/-- What every attempt does to every worker, counted from the first one on. -/
theorem Each.tries {R : (count : Nat) → Nat → Slice → Slice → Prop} {number count : Nat}
    (h : phase.Each slices (R number)) (htries : Tries kernel host op number count phase final)
    (hstep : ∀ {number index : Nat} {slice : Slice} {first warm last : Worker γ σ},
      R number index slice first.slice → first.warmUp kernel = .ok warm →
      warm.dispatch kernel host op number index = .ok last →
        R (number + 1) index slice last.slice) :
    final.Each slices (R (number + count)) := by
  -- By induction on the attempts; the number counts up with them.
  induction htries with
  | none number phase => exact h
  | @next number count phase tried final hattempt hrest ih =>
    rw [Nat.add_comm count 1, ← Nat.add_assoc]
    exact ih (h.attempt hattempt hstep)

/-- The slices of which a phase is left unfinished. -/
theorem Each.isFinished_eq_false_iff {g : Nat → Slice → Slice}
    (h : phase.Each slices fun index slice now => now = g index slice) :
    phase.isFinished = false ↔
      ∃ index slice, slices[index]? = some slice ∧ (g index slice).isFinished = false := by
  rw [Phase.isFinished_eq_false_iff]
  -- Slices and workers are there for the same indices.
  constructor
  · rintro ⟨index, worker, hworker, hunfinished⟩
    obtain ⟨slice, hslice⟩ := h.exists_slice hworker
    rw [h.each index slice worker hslice hworker] at hunfinished
    exact ⟨index, slice, hslice, hunfinished⟩
  · rintro ⟨index, slice, hslice, hunfinished⟩
    obtain ⟨worker, hworker⟩ := h.exists_worker hslice
    rw [← h.each index slice worker hslice hworker] at hunfinished
    exact ⟨index, worker, hworker, hunfinished⟩

/-! ## §2 Attempts of a course -/

variable {left bailouts : Nat} {outcome : PhaseOutcome}

/-- The attempts that were made before count as well. -/
theorem Course.le_bailouts (h : Course kernel host op left bailouts phase outcome final) :
    bailouts ≤ outcome.bailouts := by
  induction h with
  | fallback bailouts phase => exact Nat.le_refl _
  | completed hattempt hfinished => exact Nat.le_refl _
  | retry hattempt hunfinished hrest ih => exact Nat.le_of_succ_le ih

/-- A course goes through all attempts of its outcome, and those that count as bailouts are the ones
that leave it unfinished. -/
theorem Course.tried (h : Course kernel host op left bailouts phase outcome final) :
    ∀ a, bailouts ≤ a → a < outcome.attempts → ∃ tried,
      Tries kernel host op bailouts (a + 1 - bailouts) phase tried ∧
      Tries kernel host op (a + 1) (outcome.attempts - (a + 1)) tried final ∧
      (tried.isFinished = false ↔ a < outcome.bailouts) := by
  -- By induction on the course; the attempt asked for is the first one or one of the rest.
  induction h with
  | fallback bailouts phase =>
    intro a hle hlt
    simp only [PhaseOutcome.attempts] at hlt
    omega
  | @completed left bailouts phase tried hattempt hfinished =>
    intro a hle hlt
    simp only [PhaseOutcome.attempts] at hlt
    obtain rfl : a = bailouts := by omega
    refine ⟨tried, ?_, ?_, ?_⟩
    · rw [Nat.add_sub_cancel_left]
      exact .next hattempt.attempt_eq (.none _ tried)
    · rw [PhaseOutcome.attempts, Nat.sub_self]
      exact .none _ tried
    · simp [hfinished, PhaseOutcome.bailouts]
  | @retry left bailouts phase tried final outcome hattempt hunfinished hrest ih =>
    intro a hle hlt
    rcases Nat.lt_or_eq_of_le hle with hlt' | rfl
    · -- A later attempt is one of the rest.
      obtain ⟨later, htries, hafter, hiff⟩ := ih a hlt' hlt
      refine ⟨later, ?_, hafter, hiff⟩
      rw [show a + 1 - bailouts = a + 1 - (bailouts + 1) + 1 by omega]
      exact .next hattempt.attempt_eq htries
    · -- The first attempt is followed by others, and counts as a bailout.
      obtain ⟨count, htries, hcount⟩ := hrest.tries
      have hbailout := hrest.le_bailouts
      refine ⟨tried, ?_, ?_, iff_of_true hunfinished hbailout⟩
      · rw [Nat.add_sub_cancel_left]
        exact .next hattempt.attempt_eq (.none _ tried)
      · rw [← hcount, Nat.add_sub_cancel_left]
        exact htries

/-- Every bailout was asked for: in an attempt that counts as one the host has given a true
answer. -/
theorem Course.exists_bail (h : Course kernel host op left bailouts phase outcome final)
    (hin : phase.InBounds) :
    ∀ a, bailouts ≤ a → a < outcome.bailouts → ∃ index unit, host ⟨op, a, index, unit⟩ = true := by
  induction h with
  | fallback bailouts phase =>
    intro a hle hlt
    exact absurd hlt (Nat.not_lt_of_le hle)
  | completed hattempt hfinished =>
    intro a hle hlt
    exact absurd hlt (Nat.not_lt_of_le hle)
  | @retry left bailouts phase tried final outcome hattempt hunfinished hrest ih =>
    intro a hle hlt
    rcases Nat.lt_or_eq_of_le hle with hlt' | rfl
    · exact ih (hattempt.inBounds hin) a hlt' hlt
    · -- The worker that is left unfinished was told to bail out.
      obtain ⟨index, last, hlast, hopen⟩ := (Phase.isFinished_eq_false_iff tried).mp hunfinished
      obtain ⟨first, warm, questions, hfirst, hattempted⟩ := hattempt.workers index last hlast
      obtain ⟨question, hmem, htrue⟩ :=
        (hattempted.isFinished_eq_false_iff (hin index first hfirst)).mp hopen
      rw [hattempted.dispatch.consecutive] at hmem
      obtain ⟨unit, -, rfl⟩ := List.mem_map.mp hmem
      exact ⟨index, unit, htrue⟩

/-- A phase that falls back has used up its attempts. -/
theorem Course.bailouts_eq (h : Course kernel host op maxBailouts 0 phase outcome final) :
    if outcome.isCompleted then
      outcome.bailouts < maxBailouts ∧ outcome.attempts = outcome.bailouts + 1
    else outcome.bailouts = maxBailouts ∧ outcome.attempts = maxBailouts := by
  have hbounds := h.bailouts_bounds
  rw [Nat.zero_add] at hbounds
  cases outcome with
  | completed n => exact ⟨hbounds, rfl⟩
  | fallback n => exact ⟨hbounds, hbounds⟩

end Phase

/-! ## §3 How far a worker has got -/

/-- A slice that has got `units` units further than its start, or is finished. -/
structure Slice.Reached (first now : Slice) (units : Nat) : Prop where
  span_eq : now.toSpan = first.toSpan
  resumes : first.pos ≤ now.pos
  start_le : now.start ≤ now.pos
  pos_le : now.pos ≤ now.stop
  reached : min now.stop (now.start + units) ≤ now.pos

theorem Slice.Begins.reached {slice : Slice} (h : slice.Begins) : slice.Reached slice 0 where
  span_eq := rfl
  resumes := Nat.le_refl _
  start_le := h.start_le_pos
  pos_le := h.pos_le
  reached := Nat.le_trans (Nat.min_le_right ..) h.start_le_pos

/-- The warmup of an attempt takes a worker further, and the dispatch never takes it back. -/
theorem Worker.Attempted.reached {first warm last : Worker γ σ} {number index units : Nat}
    {questions : List Consultation} {slice : Slice}
    (h : Attempted kernel host op number index first warm last questions)
    (hfirst : slice.Reached first.slice units) :
    slice.Reached last.slice (units + kernel.warmup) := by
  have hspan : last.slice.toSpan = first.slice.toSpan := by
    rw [h.dispatch.slice_eq, h.warmup.slice_eq]
  have hstart : last.slice.start = first.slice.start := congrArg Span.start hspan
  have hstop : last.slice.stop = first.slice.stop := congrArg Span.stop hspan
  have hwarm := h.warmup_pos
  have hdispatch := h.dispatch.pos_le
  have hle := h.pos_le_stop hfirst.pos_le
  obtain ⟨hsame, hresumes, hbegin, hend, hreached⟩ := hfirst
  simp only [Slice.passEnd, if_true] at hwarm
  refine ⟨hspan.trans hsame, ?_, ?_, hle, ?_⟩ <;> omega

/-- A slice that is still unfinished was so from the start, and is longer than what it has got
further. -/
theorem Slice.Reached.lt_length {first now : Slice} {units : Nat} (h : first.Reached now units)
    (hunfinished : now.isFinished = false) : first.isFinished = false ∧ units < first.length := by
  have hstart : now.start = first.start := congrArg Span.start h.span_eq
  have hstop : now.stop = first.stop := congrArg Span.stop h.span_eq
  obtain ⟨-, hresumes, hbegin, hend, hreached⟩ := h
  rw [isFinished, beq_eq_false_iff_ne] at hunfinished ⊢
  rw [Span.length]
  constructor <;> omega

/-! ## §4 One phase -/

/-- How a phase advances. After each of its attempts every worker has got one warmup further, or has
finished its slice. So if the phase falls back, then some slice was longer than the warmups of all
attempts; and it does not if the host gives no true answer any more from some attempt on. -/
structure Phase.Advances (kernel : Kernel γ σ) (host : Host) (op : Operation)
    (shares : List (Slice × σ)) (outcome : PhaseOutcome) (final : Phase γ σ) : Prop where
  attempts : ∀ a < outcome.attempts, ∃ tried,
    Phase.Tries kernel host op 0 (a + 1) (.start shares) tried ∧
    Phase.Tries kernel host op (a + 1) (outcome.attempts - (a + 1)) tried final ∧
    tried.Each (shares.map (·.1)) fun _ first now => first.Reached now ((a + 1) * kernel.warmup)
  fallback : outcome.isCompleted = false →
    ∃ share ∈ shares, share.1.isFinished = false ∧ maxBailouts * kernel.warmup < share.1.length
  completes : ∀ j < maxBailouts,
    (∀ a index unit, j ≤ a → host ⟨op, a, index, unit⟩ = false) →
      outcome.isCompleted = true ∧ outcome.bailouts ≤ j

namespace Phase

variable {phase final : Phase γ σ} {shares : List (Slice × σ)} {outcome : PhaseOutcome}

theorem Tries.reached {count : Nat} (hshares : ∀ share ∈ shares, share.1.Begins)
    (h : Tries kernel host op 0 count (start shares) final) :
    final.Each (shares.map (·.1)) fun _ first now => first.Reached now (count * kernel.warmup) := by
  -- Before the first attempt nothing has to be reached.
  have hstart : (start shares : Phase γ σ).Each (shares.map (·.1)) fun _ first now =>
      first.Reached now (0 * kernel.warmup) := by
    refine (each_start shares).imp ?_
    rintro index slice _ hslice rfl
    obtain ⟨share, hshare, rfl⟩ := List.mem_map.mp (List.mem_of_getElem? hslice)
    rw [Nat.zero_mul]
    exact (hshares share hshare).reached
  have htries :=
    hstart.tries (R := fun count _ first now => first.Reached now (count * kernel.warmup)) h ?_
  · rwa [Nat.zero_add] at htries
  · -- One more attempt is one more warmup.
    intro number index slice first warm last hreached hwarm hdispatch
    obtain ⟨questions, hattempted⟩ := Worker.attempted_of_passes hwarm hdispatch
    rw [Nat.succ_mul]
    exact hattempted.reached hreached

/-- Every phase advances. -/
theorem advances_of_run {mode : Mode} (hmode : mode ≠ .compile)
    (hshares : ∀ share ∈ shares, share.1.Begins)
    (h : (start shares).run kernel host op mode = .ok (outcome, final)) :
    Advances kernel host op shares outcome final := by
  have hcourse := course_of_run hmode h
  have hoff := hcourse.bailouts_eq
  refine ⟨?attempts, ?fallback, ?completes⟩
  case attempts =>
    intro a hlt
    obtain ⟨tried, htries, hafter, -⟩ := hcourse.tried a (Nat.zero_le a) hlt
    exact ⟨tried, htries, hafter, htries.reached hshares⟩
  case fallback =>
    -- The last attempt leaves some worker unfinished.
    intro hfallback
    rw [hfallback, if_neg Bool.false_ne_true] at hoff
    obtain ⟨tried, htries, -, hiff⟩ :=
      hcourse.tried 2 (Nat.zero_le 2) (by rw [hoff.2]; decide)
    obtain ⟨index, worker, hworker, hopen⟩ :=
      (Phase.isFinished_eq_false_iff tried).mp (hiff.mpr (by rw [hoff.1]; decide))
    have hreached := htries.reached hshares
    obtain ⟨slice, hslice⟩ := hreached.exists_slice hworker
    obtain ⟨share, hshare, rfl⟩ := List.mem_map.mp (List.mem_of_getElem? hslice)
    exact ⟨share, hshare, (hreached.each index share.1 worker hslice hworker).lt_length hopen⟩
  case completes =>
    intro j hj hsilent
    have hle : outcome.bailouts ≤ j := by
      by_contra hlt
      obtain ⟨index, unit, htrue⟩ := hcourse.exists_bail
        (inBounds_start fun share hmem => (hshares share hmem).pos_le) j (Nat.zero_le j)
        (Nat.lt_of_not_le hlt)
      rw [hsilent j index unit (Nat.le_refl j)] at htrue
      cases htrue
    refine ⟨?_, hle⟩
    by_contra hfallback
    rw [if_neg hfallback] at hoff
    omega

end Phase

/-! ## §5 All operations -/

/-- What `Phase.Advances` says of the phases that run in a setting. -/
def Setting.advances (setting : Setting) : PhaseLaw := fun _ _ op kernel shares outcome final =>
  Phase.Advances kernel setting.host op shares outcome final

/-- **Every retry advances**, in every phase and so in every stage of every operation, whatever the
host answers. -/
theorem Setting.every_retry_advances (setting : Setting) (hmode : setting.config.mode ≠ .compile) :
    setting.Lawful setting.advances ∧ setting.Obeys setting.advances := by
  have hlawful : setting.Lawful setting.advances := fun hshares hrun =>
    Phase.advances_of_run hmode hshares hrun
  exact ⟨hlawful, hlawful.obeys⟩

/-- Mapping four chunks by one worker that bails out of every attempt: three attempts are too few
for them. -/
theorem Setting.every_retry_advances_map :
    ∃ run, (View.ofArray 0 (Array.range 100)).map
        { host := BailSchedule.always.host, config := Config.withWorkers {} 1 } (·.index) =
          .ok run ∧
      run.EndsIn (Config.withWorkers {} 1) ⟨.map, .sequential, 3, .eligible⟩ ∧
      (Plan.make .map 100 (Config.withWorkers {} 1) 1).RunsInTurn
        [Setting.stage { host := BailSchedule.always.host, config := Config.withWorkers {} 1 }
          (Setting.advances
            { host := BailSchedule.always.host, config := Config.withWorkers {} 1 })
          .map (mapKernel (View.ofArray 0 (Array.range 100)) (·.index)) 1 [⟨⟨0, 4⟩, 0⟩]]
        ⟨.map, .sequential, 3, .eligible⟩ run.phases := by
  have hvalid : (View.ofArray 0 (Array.range 100)).Valid := ⟨rfl, by decide⟩
  obtain ⟨run, out, hrun, hresult⟩ := Run.exists_result (x := (View.ofArray 0
    (Array.range 100)).map
      { host := BailSchedule.always.host, config := Config.withWorkers {} 1 } (·.index))
    ⟨.map, .sequential, 3, .eligible⟩ (by decide +kernel)
  obtain ⟨-, hobeys⟩ := Setting.every_retry_advances
    { host := BailSchedule.always.host, config := Config.withWorkers {} 1 } (by decide)
  obtain ⟨run', report, hrun', hends, hphases⟩ :=
    hobeys.map (View.ofArray 0 (Array.range 100)) (·.index) hvalid
  -- Both are the same run of the same operation.
  obtain rfl : run = run' := Except.ok.inj (hrun.symm.trans hrun')
  obtain rfl := hends.report_eq hresult
  exact ⟨run, hrun, hends, hphases⟩

end ForkJoin
