import ForkJoin.Proofs.Progress

/-!
# Bail schedules

A bail schedule makes its slices stop at a unit in the first few attempts. A slice that stands in
front of the unit is taken up to it, and from there on, or from the end of the first warmup if that
is further, it gets no further in an attempt than a warmup takes it. So where a slice stands after
any number of attempts can be computed from the schedule alone, and with it the number of bailouts.

## Main definitions
- `BailSchedule.position`: where a slice stands after some attempts.
- `BailSchedule.stops`: whether an attempt leaves some slice unfinished.
- `BailSchedule.Decides`: how a schedule decides a phase.

## Main statements
- `Worker.proceed_asking`: where a pass that asks comes to a stop.
- `BailSchedule.pos_of_dispatch`, `BailSchedule.position_succ`: one attempt.
- `Phase.Tries.position`: all attempts.
- `BailSchedule.decides_of_run`: every phase is decided by its schedule.
- `BailSchedule.decides_every_phase`: every phase of every operation is.
-/

namespace ForkJoin

variable {γ σ : Type} {kernel : Kernel γ σ} {op : Operation}

/-! ## §1 Where a pass stops -/

/-- A pass that asks goes on as long as the answers are false, and stops in front of the first unit
about which the answer is true. -/
theorem Worker.proceed_asking {host : Host} {attempt index fuel : Nat} {before after : Worker γ σ}
    (h : before.proceed kernel (some fun unit => host.consult ⟨op, attempt, index, unit⟩) fuel =
      .ok after) :
    after.slice.pos ≤ before.slice.pos + fuel ∧
    (∀ unit, before.slice.pos ≤ unit → unit < after.slice.pos →
      host ⟨op, attempt, index, unit⟩ = false) ∧
    (after.slice.pos < before.slice.pos + fuel →
      host ⟨op, attempt, index, after.slice.pos⟩ = true) := by
  induction fuel generalizing before with
  | zero =>
    cases h
    refine ⟨Nat.le_refl _, ?_, fun hlt => absurd hlt (Nat.lt_irrefl _)⟩
    intro unit hle hlt
    exact absurd hlt (Nat.not_lt_of_le hle)
  | succ fuel ih =>
    obtain ⟨_, ⟨⟩, hbail, rfl⟩ | ⟨state, calls, hgo, -, hrest⟩ := proceed_succ_eq_ok h
    · -- The first answer is true.
      refine ⟨Nat.le_add_right _ _, ?_, fun _ => hbail⟩
      intro unit hle hlt
      exact absurd hlt (Nat.not_lt_of_le hle)
    · -- The first answer is false, and the others are those of the rest.
      obtain ⟨hle, hfalse, htrue⟩ := ih hrest
      simp only [Slice.advance] at hle hfalse htrue
      refine ⟨by omega, ?_, fun hlt => htrue (by omega)⟩
      intro unit hunit hlt
      rcases Nat.lt_or_eq_of_le hunit with hlater | rfl
      · exact hfalse unit hlater hlt
      · exact hgo _ rfl

/-! ## §2 The schedule of one slice -/

namespace BailSchedule

variable {schedule : BailSchedule}

/-- Whether the schedule concerns an operation. -/
def admits (schedule : BailSchedule) (op : Operation) : Bool :=
  schedule.op.all (· == op)

/-- Whether it concerns a slice. -/
def selects (schedule : BailSchedule) (index : Nat) : Bool :=
  schedule.slice.all (· == index)

/-- Where a slice stands after `count` attempts with a warmup of `warmup` units. -/
def position (schedule : BailSchedule) (warmup index : Nat) (slice : Slice) : (count : Nat) → Nat
  | 0 => slice.pos
  | number + 1 =>
    if number < schedule.failingAttempts ∧ schedule.selects index then
      min slice.stop (max (slice.pos + warmup) schedule.unit + number * warmup)
    else slice.stop

theorem host_eq (hadmits : schedule.admits op = true) (attempt index unit : Nat) :
    schedule.host ⟨op, attempt, index, unit⟩ = true ↔
      (attempt < schedule.failingAttempts ∧ schedule.selects index) ∧ schedule.unit ≤ unit := by
  rw [admits] at hadmits
  simp [host, selects, hadmits]

theorem position_le {warmup index : Nat} {slice : Slice} (hle : slice.pos ≤ slice.stop)
    (count : Nat) : schedule.position warmup index slice count ≤ slice.stop := by
  cases count with
  | zero => exact hle
  | succ number =>
    rw [position]
    split
    · exact Nat.min_le_left ..
    · exact Nat.le_refl _

/-- A dispatched pass stops at the unit of the schedule, or where it stands if it is behind that. -/
theorem pos_of_dispatch {attempt index : Nat} {before after : Worker γ σ}
    (hadmits : schedule.admits op = true) (hle : before.slice.pos ≤ before.slice.stop)
    (h : before.dispatch kernel schedule.host op attempt index = .ok after) :
    after.slice.pos =
      if attempt < schedule.failingAttempts ∧ schedule.selects index then
        min before.slice.stop (max before.slice.pos schedule.unit)
      else before.slice.stop := by
  obtain ⟨questions, hdispatched⟩ := Worker.dispatched_of_proceed h
  have hpos := hdispatched.pos_le
  obtain ⟨hlast, hfalse, htrue⟩ := Worker.proceed_asking h
  simp only [Slice.passEnd, Bool.false_eq_true, if_false, Nat.add_sub_cancel' hle] at hlast htrue
  split
  · rename_i hactive
    have hstop : after.slice.pos < before.slice.stop → schedule.unit ≤ after.slice.pos :=
      fun hlt => ((host_eq hadmits ..).mp (htrue hlt)).2
    have hfirst : before.slice.pos < after.slice.pos → after.slice.pos ≤ schedule.unit := by
      intro hlt
      by_contra hunit
      -- The unit in front of the one where the pass stops was processed.
      have hprevious := hfalse (after.slice.pos - 1) (by omega) (by omega)
      rw [(host_eq hadmits ..).mpr ⟨hactive, by omega⟩] at hprevious
      cases hprevious
    omega
  · rename_i hidle
    refine Nat.le_antisymm hlast ?_
    by_contra hlt
    exact hidle ((host_eq hadmits ..).mp (htrue (Nat.lt_of_not_le hlt))).1

/-- One more attempt takes a slice from its position to the next one. -/
theorem position_succ {number index : Nat} {slice : Slice} {first warm last : Worker γ σ}
    (hadmits : schedule.admits op = true) (hle : slice.pos ≤ slice.stop)
    (hfirst : first.slice =
      { slice with pos := schedule.position kernel.warmup index slice number })
    (hwarm : first.warmUp kernel = .ok warm)
    (hdispatch : warm.dispatch kernel schedule.host op number index = .ok last) :
    last.slice =
      { slice with pos := schedule.position kernel.warmup index slice (number + 1) } := by
  have hposition : schedule.position kernel.warmup index slice number ≤ slice.stop :=
    position_le hle number
  obtain ⟨questions, hattempted⟩ := Worker.attempted_of_passes hwarm hdispatch
  have hwarmPos := hattempted.warmup_pos
  have hwarmStop := hattempted.warmup.stop_eq
  simp only [Slice.passEnd, if_true, hfirst] at hwarmPos hwarmStop
  have hlast := pos_of_dispatch hadmits (by omega) hdispatch
  rw [hattempted.dispatch.slice_eq, hattempted.warmup.slice_eq, hfirst]
  refine congrArg (Slice.mk slice.toSpan) ?_
  rw [hlast, hwarmStop, position]
  by_cases hactive : number < schedule.failingAttempts ∧ schedule.selects index = true
  · rw [if_pos hactive, if_pos hactive]
    cases number with
    | zero =>
      rw [position] at hwarmPos hposition
      omega
    | succ number =>
      -- The attempt before was one of the failing attempts as well.
      have hbefore : number < schedule.failingAttempts ∧ schedule.selects index = true :=
        ⟨Nat.lt_of_succ_lt hactive.1, hactive.2⟩
      rw [position, if_pos hbefore] at hwarmPos hposition
      rw [Nat.succ_mul]
      omega
  · rw [if_neg hactive, if_neg hactive]

/-! ## §3 The schedule of all slices -/

/-- Whether an attempt leaves some slice unfinished, if it is one of the failing attempts: a slice
that was selected, and that is longer than what it is taken to. -/
def stops (schedule : BailSchedule) (warmup : Nat) (slices : List Slice) (attempt : Nat) : Bool :=
  slices.zipIdx.any fun numbered =>
    schedule.selects numbered.2 && !numbered.1.isFinished &&
      decide (max (numbered.1.start + warmup) schedule.unit + attempt * warmup < numbered.1.stop)

theorem stops_iff {warmup attempt : Nat} {slices : List Slice} :
    schedule.stops warmup slices attempt = true ↔ ∃ index slice, slices[index]? = some slice ∧
      schedule.selects index = true ∧ slice.isFinished = false ∧
      max (slice.start + warmup) schedule.unit + attempt * warmup < slice.stop := by
  simp only [stops, List.any_eq_true, Bool.and_eq_true, Bool.not_eq_true', decide_eq_true_eq,
    and_assoc]
  constructor
  · rintro ⟨⟨slice, index⟩, hmem, hstops⟩
    exact ⟨index, slice, List.mem_zipIdx_iff_getElem?.mp hmem, hstops⟩
  · rintro ⟨index, slice, hslice, hstops⟩
    exact ⟨(slice, index), List.mem_zipIdx_iff_getElem?.mpr hslice, hstops⟩

/-- A later attempt leaves no slice unfinished that an earlier one does not. -/
theorem stops_antitone {warmup first second : Nat} {slices : List Slice} (hle : first ≤ second)
    (h : schedule.stops warmup slices second = true) :
    schedule.stops warmup slices first = true := by
  obtain ⟨index, slice, hslice, hselects, hunfinished, hlt⟩ := stops_iff.mp h
  have hmul := Nat.mul_le_mul_right warmup hle
  exact stops_iff.mpr ⟨index, slice, hslice, hselects, hunfinished, by omega⟩

/-- A slice is left unfinished if the attempt is one of the failing ones and the slice is longer
than what it is taken to. -/
theorem position_ne_stop_iff {warmup index attempt : Nat} {slice : Slice} (hbegins : slice.Begins) :
    schedule.position warmup index slice (attempt + 1) ≠ slice.stop ↔
      attempt < schedule.failingAttempts ∧ schedule.selects index = true ∧
        slice.isFinished = false ∧
        max (slice.start + warmup) schedule.unit + attempt * warmup < slice.stop := by
  have hpos := hbegins.pos_eq
  rw [position, Slice.isFinished, beq_eq_false_iff_ne]
  -- A schedule that does not apply to the attempt or the slice lets the slice finish.
  by_cases hactive : attempt < schedule.failingAttempts ∧ schedule.selects index = true
  · rw [if_pos hactive, and_iff_right hactive.1, and_iff_right hactive.2]
    omega
  · rw [if_neg hactive, ← and_assoc]
    exact iff_of_false (fun hne => hne rfl) fun hstops => hactive hstops.1

end BailSchedule

/-- After any number of attempts every slice stands at its position. -/
theorem Phase.Tries.position {schedule : BailSchedule} {shares : List (Slice × σ)}
    {final : Phase γ σ} {count : Nat} (hadmits : schedule.admits op = true)
    (hshares : ∀ share ∈ shares, share.1.Begins)
    (h : Tries kernel schedule.host op 0 count (start shares) final) :
    final.Each (shares.map (·.1)) fun index first now =>
      now = { first with pos := schedule.position kernel.warmup index first count } := by
  -- Before the first attempt the worker stands where its slice begins.
  have hstart : (start shares : Phase γ σ).Each (shares.map (·.1)) fun index first now =>
      first.pos ≤ first.stop ∧
        now = { first with pos := schedule.position kernel.warmup index first 0 } := by
    refine (each_start shares).imp ?_
    rintro index slice _ hslice rfl
    obtain ⟨share, hshare, rfl⟩ := List.mem_map.mp (List.mem_of_getElem? hslice)
    exact ⟨(hshares share hshare).pos_le, rfl⟩
  have htries := hstart.tries (R := fun count index first now => first.pos ≤ first.stop ∧
    now = { first with pos := schedule.position kernel.warmup index first count }) h ?_
  · rw [Nat.zero_add] at htries
    exact htries.imp fun index first now _ hnow => hnow.2
  · rintro number index slice first warm last ⟨hle, hfirst⟩ hwarm hdispatch
    exact ⟨hle, BailSchedule.position_succ hadmits hle hfirst hwarm hdispatch⟩

/-- So an attempt leaves a phase unfinished as its schedule says. -/
theorem Phase.Tries.isFinished_eq_false_iff {schedule : BailSchedule} {shares : List (Slice × σ)}
    {tried : Phase γ σ} {attempt : Nat} (hadmits : schedule.admits op = true)
    (hshares : ∀ share ∈ shares, share.1.Begins)
    (h : Tries kernel schedule.host op 0 (attempt + 1) (start shares) tried) :
    tried.isFinished = false ↔ attempt < schedule.failingAttempts ∧
      schedule.stops kernel.warmup (shares.map (·.1)) attempt = true := by
  rw [(h.position hadmits hshares).isFinished_eq_false_iff, BailSchedule.stops_iff]
  have hbegins : ∀ {index : Nat} {slice : Slice}, (shares.map (·.1))[index]? = some slice →
      slice.Begins := by
    intro index slice hslice
    obtain ⟨share, hshare, rfl⟩ := List.mem_map.mp (List.mem_of_getElem? hslice)
    exact hshares share hshare
  -- A slice is unfinished exactly if the schedule has stopped its worker in front of the end.
  constructor
  · rintro ⟨index, slice, hslice, hopen⟩
    obtain ⟨hattempt, hstops⟩ := (BailSchedule.position_ne_stop_iff (hbegins hslice)).mp
      (beq_eq_false_iff_ne.mp hopen)
    exact ⟨hattempt, index, slice, hslice, hstops⟩
  · rintro ⟨hattempt, index, slice, hslice, hstops⟩
    exact ⟨index, slice, hslice, beq_eq_false_iff_ne.mpr
      ((BailSchedule.position_ne_stop_iff (hbegins hslice)).mpr ⟨hattempt, hstops⟩)⟩

/-! ## §4 One phase -/

namespace BailSchedule

/-- How a schedule decides a phase on some slices. The attempts that bail out are the failing ones
that leave a slice unfinished, as far as there are attempts at all, and the phase falls back if that
is every one of them. -/
structure Decides (schedule : BailSchedule) (warmup : Nat) (slices : List Slice)
    (outcome : PhaseOutcome) (trace : PhaseTrace) : Prop where
  attempts : ∀ a, a ∈ trace.bailedAttempts ↔
    a < min schedule.failingAttempts maxBailouts ∧ schedule.stops warmup slices a = true
  bailouts_eq : outcome.bailouts = (List.range (min schedule.failingAttempts maxBailouts)).countP
    (schedule.stops warmup slices)
  fallback_iff : outcome.isCompleted = false ↔ outcome.bailouts = maxBailouts

variable {schedule : BailSchedule} {mode : Mode} {shares : List (Slice × σ)}
  {outcome : PhaseOutcome} {final : Phase γ σ}

/-- Every phase that the schedule concerns is decided by it. -/
theorem decides_of_run (hadmits : schedule.admits op = true) (hmode : mode ≠ .compile)
    (hshares : ∀ share ∈ shares, share.1.Begins)
    (h : (Phase.start shares).run kernel schedule.host op mode = .ok (outcome, final)) :
    schedule.Decides kernel.warmup (shares.map (·.1)) outcome final.trace := by
  have hcourse := Phase.course_of_run hmode h
  have hoff := hcourse.bailouts_eq
  have htried : ∀ a < outcome.attempts, a < outcome.bailouts ↔
      a < schedule.failingAttempts ∧
        schedule.stops kernel.warmup (shares.map (·.1)) a = true := by
    intro a hlt
    obtain ⟨tried, htries, -, hiff⟩ := hcourse.tried a (Nat.zero_le a) hlt
    exact hiff.symm.trans (htries.isFinished_eq_false_iff hadmits hshares)
  -- An attempt that was not made comes after one that has left nothing unfinished.
  have hbailed : ∀ a, a < outcome.bailouts ↔ a < min schedule.failingAttempts maxBailouts ∧
      schedule.stops kernel.warmup (shares.map (·.1)) a = true := by
    intro a
    rw [Nat.lt_min]
    constructor
    · intro hlt
      obtain ⟨hattempt, hstops⟩ := (htried a (by split at hoff <;> omega)).mp hlt
      exact ⟨⟨hattempt, by split at hoff <;> omega⟩, hstops⟩
    · rintro ⟨⟨hattempt, hlimit⟩, hstops⟩
      by_contra hle
      have hle := Nat.le_of_not_lt hle
      have hlast : outcome.bailouts < outcome.attempts := by split at hoff <;> omega
      exact Nat.lt_irrefl _ ((htried outcome.bailouts hlast).mpr
        ⟨Nat.lt_of_le_of_lt hle hattempt, stops_antitone hle hstops⟩)
  refine ⟨?attempts, ?bailouts_eq, ?fallback_iff⟩
  case attempts =>
    intro a
    rw [← hbailed, PhaseTrace.mem_bailedAttempts_trace]
    apply hcourse.bailedIn_iff
      (Phase.inBounds_start fun share hmem => (hshares share hmem).pos_le)
    intro attempt
    simp [Phase.not_bailedIn_start shares attempt]
  case bailouts_eq =>
    rw [List.countP_eq_length_filter]
    refine (length_eq_of_mem_iff_lt (List.nodup_range.filter _) ?_).symm
    intro a
    rw [List.mem_filter, List.mem_range, hbailed]
  case fallback_iff =>
    cases hcompleted : outcome.isCompleted with
    | false =>
      rw [hcompleted, if_neg Bool.false_ne_true] at hoff
      exact iff_of_true rfl hoff.1
    | true =>
      rw [hcompleted, if_pos rfl] at hoff
      exact iff_of_false (fun hfalse => by cases hfalse) (Nat.ne_of_lt hoff.1)

end BailSchedule

/-! ## §5 All operations -/

namespace BailSchedule

/-- What a schedule decides of the phases that it concerns. -/
def decides (schedule : BailSchedule) : PhaseLaw := fun _ _ op kernel shares outcome final =>
  schedule.admits op = true →
    schedule.Decides kernel.warmup (shares.map (·.1)) outcome final.trace

/-- If every slice is to bail out of every attempt, then an attempt leaves a slice unfinished that
has more units than the warmups take it to. -/
theorem stops_always_iff {warmup attempt : Nat} {slices : List Slice}
    (hslices : ∀ slice ∈ slices, slice.Begins) :
    always.stops warmup slices attempt = true ↔
      ∃ slice ∈ slices, (attempt + 1) * warmup < slice.remaining.length := by
  rw [stops_iff]
  -- Without a first unit the schedule stops right behind each warmup.
  constructor
  · rintro ⟨index, slice, hslice, -, hunfinished, hlt⟩
    have hmem := List.mem_of_getElem? hslice
    have hpos := (hslices slice hmem).pos_eq
    refine ⟨slice, hmem, ?_⟩
    rw [Slice.isFinished, beq_eq_false_iff_ne] at hunfinished
    rw [Slice.remaining, List.length_range', Nat.succ_mul]
    omega
  · rintro ⟨slice, hmem, hlt⟩
    obtain ⟨index, hslice⟩ := List.mem_iff_getElem?.mp hmem
    have hpos := (hslices slice hmem).pos_eq
    rw [Slice.remaining, List.length_range', Nat.succ_mul] at hlt
    refine ⟨index, slice, hslice, rfl, ?_, ?_⟩
    · rw [Slice.isFinished, beq_eq_false_iff_ne]
      omega
    · show max (slice.start + warmup) 0 + attempt * warmup < slice.stop
      omega

/-- **A schedule decides every phase that it concerns**, and so every stage of every operation. If
every slice is to bail out of every attempt, then an attempt bails out exactly if some slice has
more units than the warmups take it to. -/
theorem decides_every_phase (schedule : BailSchedule) (setting : Setting)
    (hhost : setting.host = schedule.host) (hmode : setting.config.mode ≠ .compile) :
    setting.Lawful schedule.decides ∧ setting.Obeys schedule.decides ∧
      (schedule = .always → setting.Lawful fun _ _ _ kernel shares _ final =>
        ∀ a, a ∈ final.trace.bailedAttempts ↔ a < maxBailouts ∧
          ∃ share ∈ shares, (a + 1) * kernel.warmup < share.1.remaining.length) := by
  -- The law is proved for single phases; every stage of every operation then obeys it.
  have hlawful : setting.Lawful schedule.decides := by
    intro γ σ op kernel shares outcome final hshares hrun hadmits
    rw [hhost] at hrun
    exact decides_of_run hadmits hmode hshares hrun
  refine ⟨hlawful, hlawful.obeys, ?_⟩
  rintro rfl γ σ op kernel shares outcome final hshares hrun a
  have hslices : ∀ slice ∈ shares.map (·.1), slice.Begins := by
    intro slice hmem
    obtain ⟨share, hshare, rfl⟩ := List.mem_map.mp hmem
    exact hshares share hshare
  have hlimit : min always.failingAttempts maxBailouts = maxBailouts := rfl
  rw [(hlawful hshares hrun rfl).attempts a, stops_always_iff hslices, hlimit]
  simp only [List.mem_map, exists_exists_and_eq_and]

/-- Scanning five chunks by two workers that bail out of every attempt. The first attempt leaves the
last chunk, and in the second phase two attempts leave elements of the second slice. -/
theorem decides_every_phase_scan :
    ∃ run, (View.ofArray 0 (Array.range 129)).scan
        { host := BailSchedule.always.host, config := Config.withWorkers {} 2 } (· + ·) =
          .ok run ∧
      run.EndsIn (Config.withWorkers {} 2) ⟨.scan, .parallel, 3, .eligible⟩ ∧
      (Plan.make .scan 129 (Config.withWorkers {} 2) 2).RunsInTurn
        (Setting.scanStages
          { host := BailSchedule.always.host, config := Config.withWorkers {} 2 } always.decides
          (.make .scan 129 (Config.withWorkers {} 2) 2) (fun a b : Nat => a + b))
        ⟨.scan, .parallel, 3, .eligible⟩ run.phases ∧
      (List.range 3).countP (always.stops 2 [⟨⟨0, 2⟩, 0⟩, ⟨⟨2, 5⟩, 2⟩]) = 1 ∧
      (List.range 3).countP (always.stops 32 [⟨⟨0, 64⟩, 64⟩, ⟨⟨64, 129⟩, 64⟩]) = 2 := by
  have hvalid : (View.ofArray 0 (Array.range 129)).Valid := by
    constructor <;> simp only [View.ofArray, Shape.vector, Array.size_range]
    · rfl
    · decide
  -- The first phase gets along with one bailout, and the second one with two more.
  obtain ⟨run, out, hrun, hresult⟩ := Run.exists_result (x := (View.ofArray 0
    (Array.range 129)).scan
      { host := BailSchedule.always.host, config := Config.withWorkers {} 2 } (· + ·))
    ⟨.scan, .parallel, 3, .eligible⟩ (by decide +kernel)
  obtain ⟨-, hobeys, -⟩ := decides_every_phase .always
    { host := BailSchedule.always.host, config := Config.withWorkers {} 2 } rfl (by decide)
  obtain ⟨run', report, hrun', hends, hphases⟩ :=
    hobeys.scan (View.ofArray 0 (Array.range 129)) (· + ·) hvalid rfl (by decide +kernel)
  obtain rfl : run = run' := Except.ok.inj (hrun.symm.trans hrun')
  obtain rfl := hends.report_eq hresult
  exact ⟨run, hrun, hends, hphases, by decide, by decide⟩

end BailSchedule

end ForkJoin
