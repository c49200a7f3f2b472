import ForkJoin.Proofs.Rejections

/-!
# Results and paths

A result depends on the path that has led to it: on the sequential path it is that of the source
alone, and on the parallel path that of the windows which the workers own. How often the workers
were interrupted, and where, leaves nothing behind, even if the function is not associative and
the two paths lead to different results. On either path a scan ends in what a reduction comes to.

## Main definitions
- `View.foldOn`, `View.scanOn`: what a path leads to.
- `Setting.SamePath`: two reports of one path, with as many workers if it is parallel.
- `Agree`: two operations whose results are related wherever both have one.

## Main statements
- `View.reduce_on_path`, `View.scan_on_path`: every result is that of its path.
- `getLast?_scanOn`: the last value of a scan is the fold, whatever the function.
- `View.bailouts_leave_results`: two runs that differ in their bailouts.
- `View.reduce_agrees_with_scan`: a reduction and a scan of one sequence.
-/

namespace ForkJoin

variable {α β γ γ' ρ ρ' : Type}

/-! ## §1 Two runs -/

/-- Two operations run, under any hosts, and if both end in a result and their reports are
related, then so are their results. -/
def Agree (first : Except Fault (Run γ ρ)) (second : Except Fault (Run γ' ρ'))
    (reports : Report → Report → Prop) (results : ρ → ρ' → Prop) : Prop :=
  ∃ run twin, first = .ok run ∧ second = .ok twin ∧
    ∀ out report other reported, run.result = .ok (out, report) →
      twin.result = .ok (other, reported) → reports report reported → results out other

/-- The runs are those that the operations are known to have. -/
theorem Agree.results {first : Except Fault (Run γ ρ)} {second : Except Fault (Run γ' ρ')}
    {reports : Report → Report → Prop} {results : ρ → ρ' → Prop} {run : Run γ ρ} {twin : Run γ' ρ'}
    {out : ρ} {other : ρ'} {report reported : Report} (h : Agree first second reports results)
    (hrun : first = .ok run) (htwin : second = .ok twin) (hout : run.result = .ok (out, report))
    (hother : twin.result = .ok (other, reported)) (hreports : reports report reported) :
    results out other := by
  obtain ⟨run', twin', hrun', htwin', hagree⟩ := h
  obtain rfl : run = run' := Except.ok.inj (hrun.symm.trans hrun')
  obtain rfl : twin = twin' := Except.ok.inj (htwin.symm.trans htwin')
  exact hagree out report other reported hout hother hreports

/-- Two runs took the same path, and if it was the parallel one they had as many workers. -/
def Setting.SamePath (first second : Setting) (report reported : Report) : Prop :=
  report.path = reported.path ∧
    (report.path = .sequential ∨ first.workerCount = second.workerCount)

/-- The same array, in whichever buffer. -/
def View.SameArray (out other : View α) : Prop :=
  out.shape = other.shape ∧ out.toArray = other.toArray

/-- What depends on the number of workers on the parallel path only is the same for both runs. -/
theorem Setting.SamePath.congr {first second : Setting} {report reported : Report}
    (h : first.SamePath second report reported) (value : Nat → Action → β)
    (hvalue : ∀ n m, value n .sequential = value m .sequential) :
    value first.workerCount report.path = value second.workerCount reported.path := by
  obtain ⟨hpath, hsequential | hcount⟩ := h
  · rw [← hpath, hsequential]
    exact hvalue _ _
  · rw [hpath, hcount]

/-! ## §2 What a path leads to -/

section

variable (f : α → α → α) {source : View α}

/-- The fold of a sequence, taken on a path by some workers. -/
def View.foldOn (source : View α) (f : α → α → α) (count : Nat) : Action → Option α
  | .sequential => foldFrom f none source.toArray.toList
  | .parallel => foldFrom f none (sliceFolds f (sliceWindows source.toArray count))

/-- The running folds of a sequence, taken on a path by some workers. -/
def View.scanOn (source : View α) (f : α → α → α) (count : Nat) : Action → List α
  | .sequential => scanFrom f none source.toArray.toList
  | .parallel => scanSlices f (sliceWindows source.toArray count)

/-- Every result of a reduction is the fold on its path. -/
theorem View.reduce_on_path (hvalid : source.Valid) (hrank : source.rank = 1) (setting : Setting) :
    ∃ run, source.reduce setting f = .ok run ∧ ∀ value report, run.result = .ok (value, report) →
      source.foldOn f setting.workerCount report.path = some value := by
  cases hempty : source.isEmpty with
  | true =>
    -- An empty sequence is rejected, and has no result.
    refine ⟨_, View.reduce_of_isEmpty hvalid hrank hempty f setting, ?_⟩
    intro value report hresult
    cases hresult
  | false =>
    obtain ⟨run, report, value, hrun, hresult, hsequential, hparallel⟩ :=
      View.reduce_eq f setting hvalid hrank hempty
    refine ⟨run, hrun, ?_⟩
    intro other reported hother
    obtain ⟨rfl, rfl⟩ := Run.eq_of_check hresult hother
    cases hpath : reported.path with
    | sequential => exact hsequential hpath
    | parallel => exact hparallel hpath

/-- Every result of a scan that may run sequentially are the running folds on its path. -/
theorem View.scan_on_path (hvalid : source.Valid) (hrank : source.rank = 1) (setting : Setting)
    (hpermitted : setting.config.sequential = true) :
    ∃ run, source.scan setting f = .ok run ∧ ∀ out report, run.result = .ok (out, report) →
      out.shape = .vector out.toArray.size ∧
      out.toArray.toList = source.scanOn f setting.workerCount report.path := by
  cases hempty : source.isEmpty with
  | true =>
    -- An empty source is rejected, so there is no report.
    refine ⟨_, View.scan_of_isEmpty hrank hempty f setting, ?_⟩
    intro out report hresult
    cases hresult
  | false =>
    obtain ⟨run, report, cells, hrun, hresult, hsequential, hparallel⟩ :=
      View.scan_eq f setting hvalid hrank hempty hpermitted
    refine ⟨run, hrun, ?_⟩
    intro out reported hout
    obtain ⟨rfl, rfl⟩ := Run.eq_of_check hresult hout
    rw [View.toArray_ofArray]
    refine ⟨rfl, ?_⟩
    -- The path that is reported decides which of the two results it is.
    cases hpath : reported.path with
    | sequential => exact hsequential hpath
    | parallel => exact hparallel hpath

end

/-! ## §3 Folds and running folds -/

section

variable (f : α → α → α)

/-- On either path a scan ends in the fold. -/
theorem getLast?_scanOn (source : View α) (count : Nat) (path : Action) :
    (source.scanOn f count path).getLast? = source.foldOn f count path := by
  cases path with
  | sequential =>
    have hfold := foldFrom_eq_getLast? f none source.toArray.toList
    rw [Option.or_none] at hfold
    exact hfold.symm
  | parallel => exact getLast?_scanSlices f (sliceWindows source.toArray count)

end

/-! ## §4 Bailouts -/

/-- **Bailouts have no influence on a result**, whatever the function. Two reductions of a sequence
that took the same path end in the same value, and two scans in the same array, if there are as
many workers or the path is sequential. Two scatters of an input with one strategy and as many
workers end in the same array even if one of them completed in parallel and the other did not. -/
theorem View.bailouts_leave_results (first second : Setting) :
    (∀ {α : Type} (source : View α) (f : α → α → α), source.Valid → source.rank = 1 →
      Agree (source.reduce first f) (source.reduce second f) (first.SamePath second) Eq) ∧
    (∀ {α : Type} (source : View α) (f : α → α → α), source.Valid → source.rank = 1 →
      first.config.sequential = true → second.config.sequential = true →
      Agree (source.scan first f) (source.scan second f) (first.SamePath second)
        View.SameArray) ∧
    (∀ {α : Type} (source : View α) (targets : Array Target) (default : α) (length : Nat)
      (conflict : Option (α → α → α)) (positions : List Nat), source.Valid → source.rank = 1 →
      Accepts targets source.length length conflict positions →
      first.config.sequential = true → second.config.sequential = true →
      let job := source.scatterJob positions length conflict
      job.strategy first.config = job.strategy second.config →
      first.workerCount = second.workerCount →
      (first.plan .scatter job.targets.size).isParallel = true →
      (second.plan .scatter job.targets.size).isParallel = true →
      Agree (source.scatter first targets default length conflict)
        (source.scatter second targets default length conflict) (fun _ _ => True)
        View.SameArray) := by
  refine ⟨?reduce, ?scan, ?scatter⟩
  case reduce =>
    intro α source f hvalid hrank
    obtain ⟨run, hrun, honPath⟩ := View.reduce_on_path f hvalid hrank first
    obtain ⟨twin, htwin, htwinOnPath⟩ := View.reduce_on_path f hvalid hrank second
    refine ⟨run, twin, hrun, htwin, ?_⟩
    intro value report other reported hvalue hother hsame
    have hpath := hsame.congr (source.foldOn f) fun _ _ => rfl
    rw [honPath value report hvalue, htwinOnPath other reported hother] at hpath
    exact Option.some.inj hpath
  case scan =>
    intro α source f hvalid hrank hfirst hsecond
    obtain ⟨run, hrun, honPath⟩ := View.scan_on_path f hvalid hrank first hfirst
    obtain ⟨twin, htwin, htwinOnPath⟩ := View.scan_on_path f hvalid hrank second hsecond
    refine ⟨run, twin, hrun, htwin, ?_⟩
    intro out report other reported hout hother hsame
    obtain ⟨hshape, hcells⟩ := honPath out report hout
    obtain ⟨hotherShape, hotherCells⟩ := htwinOnPath other reported hother
    have hpath := hsame.congr (source.scanOn f) fun _ _ => rfl
    have harray : out.toArray = other.toArray := by
      apply Array.ext'
      rw [hcells, hotherCells, hpath]
    exact ⟨by rw [hshape, hotherShape, harray], harray⟩
  case scatter =>
    intro α source targets default length conflict positions hvalid hrank haccepts hfirst hsecond
      job hstrategy hcount hparallel hotherParallel
    have hready := View.scatterJob_ready hvalid hrank haccepts
    obtain ⟨run, report, hrun, hresult⟩ := hready.run_eq first default hfirst
    obtain ⟨twin, reported, htwin, htwinResult⟩ := hready.run_eq second default hsecond
    rw [← View.scatter_eq _ default hvalid hrank haccepts] at hrun htwin
    refine ⟨run, twin, hrun, htwin, ?_⟩
    intro out _ other _ hout hother _
    obtain ⟨rfl, -⟩ := Run.eq_of_check hresult hout
    obtain ⟨rfl, -⟩ := Run.eq_of_check htwinResult hother
    -- Under a parallel plan the result is that of the strategy, and of nothing else.
    have hresultOf : job.resultOf default first = job.resultOf default second := by
      rw [ScatterJob.resultOf, ScatterJob.resultOf, if_pos hparallel, if_pos hotherParallel,
        hstrategy, hcount]
    constructor
    · exact congrArg (fun cells => Shape.vector cells.size) hresultOf
    · rw [View.toArray_ofArray, View.toArray_ofArray]
      exact hresultOf

/-- Subtracting sixty-five numbers by a worker that is stopped in front of the last chunk comes to
what it does without a stop. Scattering with a difference comes to the same array in compile mode
as in parallel. -/
theorem View.bailouts_leave_results_sub :
    (∃ run twin value, (View.ofArray 0 (Array.range 65)).reduce
        { config := Config.withWorkers {} 1 } (· - ·) = .ok run ∧
      (View.ofArray 0 (Array.range 65)).reduce
        { host := (BailSchedule.once 0 2).host, config := Config.withWorkers {} 1 } (· - ·) =
          .ok twin ∧
      run.result = .ok (value, ⟨.reduce, .parallel, 0, .eligible⟩) ∧
      twin.result = .ok (value, ⟨.reduce, .parallel, 1, .eligible⟩)) ∧
    Agree
      ((View.ofArray 0 #[(5 : Int), 7, 9]).scatter
        { config := Config.withStrategy {} .divideScatterVector }
        #[.unsigned 1, .unsigned 3, .signed 1] 0 4 (some (· - ·)))
      ((View.ofArray 0 #[(5 : Int), 7, 9]).scatter
        { config := (Config.ofMode .compile).withStrategy .divideScatterVector }
        #[.unsigned 1, .unsigned 3, .signed 1] 0 4 (some (· - ·)))
      (fun _ _ => True) View.SameArray := by
  constructor
  · have hvalid : (View.ofArray 0 (Array.range 65)).Valid := ⟨rfl, by decide⟩
    obtain ⟨run, value, hrun, hvalue⟩ := Run.exists_result (x := (View.ofArray 0
      (Array.range 65)).reduce { config := Config.withWorkers {} 1 } (· - ·))
      ⟨.reduce, .parallel, 0, .eligible⟩ (by decide +kernel)
    obtain ⟨twin, other, htwin, hother⟩ := Run.exists_result (x := (View.ofArray 0
      (Array.range 65)).reduce
        { host := (BailSchedule.once 0 2).host, config := Config.withWorkers {} 1 } (· - ·))
      ⟨.reduce, .parallel, 1, .eligible⟩ (by decide +kernel)
    -- Subtraction is not associative: the path and the slices decide the result, the bailout does not.
    have hagree := (View.bailouts_leave_results
      { config := Config.withWorkers {} 1 }
      { host := (BailSchedule.once 0 2).host, config := Config.withWorkers {} 1 }).1
        (View.ofArray 0 (Array.range 65)) (· - ·) hvalid rfl
    obtain rfl : value = other := hagree.results hrun htwin hvalue hother ⟨rfl, .inr rfl⟩
    exact ⟨run, twin, value, hrun, htwin, hvalue, hother⟩
  · have hvalid : (View.ofArray 0 #[(5 : Int), 7, 9]).Valid := ⟨rfl, by decide⟩
    have haccepts : Accepts #[.unsigned 1, .unsigned 3, .signed 1] 3 4
        (some fun new existing : Int => new - existing) [1, 3, 1] := ⟨rfl, fun h => by cases h⟩
    exact (View.bailouts_leave_results
      { config := Config.withStrategy {} .divideScatterVector }
      { config := (Config.ofMode .compile).withStrategy .divideScatterVector }).2.2
        (View.ofArray 0 #[(5 : Int), 7, 9]) _ 0 4 _ [1, 3, 1] hvalid rfl haccepts rfl rfl rfl rfl
        rfl rfl

/-! ## §5 A reduction and a scan -/

/-- **A reduction is the last value of a scan**, whatever the function: if both took the same path,
and if it was the parallel one with as many workers, then the value of the reduction is the last
one of the scan, however often either was interrupted. -/
theorem View.reduce_agrees_with_scan {source : View α} (f : α → α → α) (hvalid : source.Valid)
    (hrank : source.rank = 1) (first second : Setting)
    (hpermitted : second.config.sequential = true) :
    Agree (source.reduce first f) (source.scan second f) (first.SamePath second)
      fun value out => out.toArray.back? = some value := by
  obtain ⟨run, hrun, honPath⟩ := View.reduce_on_path f hvalid hrank first
  obtain ⟨twin, htwin, htwinOnPath⟩ := View.scan_on_path f hvalid hrank second hpermitted
  refine ⟨run, twin, hrun, htwin, ?_⟩
  intro value report out reported hvalue hout hsame
  have hpath := hsame.congr (source.foldOn f) fun _ _ => rfl
  -- The last value of a scan on a path is the fold on the same path.
  calc out.toArray.back? = out.toArray.toList.getLast? := by rw [Array.getLast?_toList]
    _ = (source.scanOn f second.workerCount reported.path).getLast? := by
      rw [(htwinOnPath out reported hout).2]
    _ = source.foldOn f second.workerCount reported.path := getLast?_scanOn ..
    _ = source.foldOn f first.workerCount report.path := hpath.symm
    _ = some value := honPath value report hvalue

/-- A worker that is stopped subtracts sixty-five numbers, and one that is not scans them. -/
theorem View.reduce_agrees_with_scan_sub :
    ∃ run twin value out, (View.ofArray 0 (Array.range 65)).reduce
        { host := (BailSchedule.once 0 2).host, config := Config.withWorkers {} 1 } (· - ·) =
          .ok run ∧
      (View.ofArray 0 (Array.range 65)).scan { config := Config.withWorkers {} 1 } (· - ·) =
        .ok twin ∧
      run.result = .ok (value, ⟨.reduce, .parallel, 1, .eligible⟩) ∧
      twin.result = .ok (out, ⟨.scan, .parallel, 0, .eligible⟩) ∧
      out.toArray.back? = some value := by
  have hvalid : (View.ofArray 0 (Array.range 65)).Valid := ⟨rfl, by decide⟩
  obtain ⟨run, value, hrun, hvalue⟩ := Run.exists_result (x := (View.ofArray 0
    (Array.range 65)).reduce
      { host := (BailSchedule.once 0 2).host, config := Config.withWorkers {} 1 } (· - ·))
    ⟨.reduce, .parallel, 1, .eligible⟩ (by decide +kernel)
  obtain ⟨twin, out, htwin, hout⟩ := Run.exists_result (x := (View.ofArray 0
    (Array.range 65)).scan { config := Config.withWorkers {} 1 } (· - ·))
    ⟨.scan, .parallel, 0, .eligible⟩ (by decide +kernel)
  have hagree := View.reduce_agrees_with_scan (· - ·) hvalid rfl
    { host := (BailSchedule.once 0 2).host, config := Config.withWorkers {} 1 }
    { config := Config.withWorkers {} 1 } rfl
  exact ⟨run, twin, value, out, hrun, htwin, hvalue, hout,
    hagree.results hrun htwin hvalue hout ⟨rfl, .inr rfl⟩⟩

end ForkJoin
