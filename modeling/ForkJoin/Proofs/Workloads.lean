import ForkJoin.Proofs.Coverage
import ForkJoin.Proofs.Reduce
import ForkJoin.Proofs.Stages

/-!
# Workloads

A parallel attempt that is not forced is only made if there is work for every worker: where slices
depend on each other each of them has a chunk, and those of a filter have two. A reduction and a
scan rely on it. No worker of a reduction comes to nothing, and in a scan the first slice is the only
one without a carry.

In addresses the last slice of a domain is empty nevertheless if the domain ends less than a chunk
before the limit.

## Main definitions
- `Plan.Employs`: every worker has at least so many chunks.

## Main statements
- `Plan.eligible_iff`: when an attempt is made for the work that there is.
- `Plan.employs_of_eligible`: the work of each worker.
- `scanPhase_carries`, `reducePhase_accumulators`: what scans and reductions make of it.
- `Plan.every_worker_has_work`: all of it together.
-/

namespace ForkJoin

variable {α : Type} {length count least : Nat}

/-! ## §1 The work of a slice -/

/-- If there are so many units for each worker, each gets as many. -/
theorem le_length_of_mem_evenSpans {items : Nat} (hcount : 1 ≤ count)
    (hle : count * least ≤ items) {span : Span} (hmem : span ∈ evenSpans items count) :
    least ≤ span.length := by
  rw [evenSpans, Nat.max_eq_left hcount] at hmem
  obtain ⟨index, hindex, rfl⟩ := List.mem_map.mp hmem
  have hlt := List.mem_range.mp hindex
  have hwidth : least ≤ items / count := by
    rw [Nat.le_div_iff_mul_le hcount, Nat.mul_comm]
    exact hle
  rw [length_evenSpan hlt]
  split
  · -- The last worker has what the others leave, and that is a share as well.
    rename_i hlast
    have hall : items / count * (index + 1) ≤ items := by
      rw [hlast]
      exact Nat.div_mul_le_self ..
    rw [Nat.mul_succ] at hall
    omega
  · exact hwidth

/-- Chunks of a domain have elements. -/
theorem Span.start_lt_stop_ofChunks {chunks : Span} (hlt : chunks.start < chunks.stop)
    (hstop : chunks.stop ≤ chunkCount length) :
    (Span.ofChunks chunks length).start < (Span.ofChunks chunks length).stop := by
  simp only [Span.ofChunks, chunkCount, chunkSize] at *
  omega

/-! ## §2 Plans -/

/-- Every worker of a plan has at least so many chunks. Every worker has addresses exactly if the
domain ends at least a chunk before the limit of addresses. -/
structure Plan.Employs (plan : Plan) (least : Nat) : Prop where
  workers : plan.chunkSlices.length = plan.slices
  chunks : ∀ slice ∈ plan.chunkSlices, least ≤ slice.length
  addresses : plan.length < addressLimit →
    ((∀ slice ∈ plan.chunkSlices,
      (slice.addresses plan.length).start < (slice.addresses plan.length).stop) ↔
        plan.length + chunkSize ≤ addressLimit)

/-- An attempt is made for the work that there is if the mode permits it, the caller does not insist
on it anyway, and there are elements and enough chunks. -/
theorem Plan.eligible_iff {op : Operation} {config : Config} {workers : Nat} :
    (Plan.make op length config workers).action = .parallel ∧
        (Plan.make op length config workers).reason = .eligible ↔
      config.mode.allowsParallel = true ∧ length ≠ 0 ∧
        ¬ (op = .scatter ∧ config.strategy.isSome = true) ∧
        op.minChunks workers ≤ chunkCount length := by
  rw [Plan.make, Plan.choose]
  -- The cases follow the order in which the reasons are tried.
  cases config.mode.allowsParallel with
  | false => simp
  | true =>
    by_cases hempty : length = 0
    · simp [hempty]
    · by_cases hforced : op = .scatter ∧ config.strategy.isSome = true
      · simp [hempty, hforced]
      · by_cases hfew : chunkCount length < op.minChunks workers
        · simp [hempty, hforced, hfew]
        · simp [hempty, hforced, hfew, Nat.le_of_not_lt hfew]

theorem Plan.employs_of_le {plan : Plan} (hleast : 1 ≤ least) (hslices : 1 ≤ plan.slices)
    (hchunks : plan.chunks = chunkCount plan.length) (hle : plan.slices * least ≤ plan.chunks) :
    plan.Employs least := by
  have hwork : ∀ slice ∈ plan.chunkSlices, least ≤ slice.length := by
    rw [plan.chunkSlices_eq]
    intro slice hmem
    obtain ⟨span, hspan, rfl⟩ := List.mem_map.mp hmem
    exact le_length_of_mem_evenSpans hslices hle hspan
  refine ⟨?_, hwork, fun hlength => ⟨?_, ?_⟩⟩
  · rw [plan.chunkSlices_eq, List.length_map, length_evenSpans _ hslices]
  · intro haddresses
    by_contra hlimit
    -- In a longer domain the last slice ends at the first address.
    obtain ⟨last, hlast, hstop⟩ :=
      exists_last_stop_eq_zero plan.slices hlength (Nat.lt_of_not_le hlimit)
    have hmem : Slice.ofSpan last ∈ plan.chunkSlices := by
      rw [plan.chunkSlices_eq, hchunks]
      exact List.mem_map_of_mem (List.mem_of_getLast? hlast)
    have hlt := haddresses _ hmem
    rw [Slice.addresses, Slice.ofSpan, hstop] at hlt
    exact Nat.not_lt_zero _ hlt
  · intro hlimit slice hmem
    have hpos : 1 ≤ slice.stop - slice.start := Nat.le_trans hleast (hwork slice hmem)
    rw [chunkSlices, hchunks] at hmem
    obtain ⟨hstart, hstop⟩ := lt_chunkLimit_of_mem_even hlimit hmem
    rw [Slice.addresses_eq _ hstart hstop]
    apply Span.start_lt_stop_ofChunks
    · show slice.start < slice.stop
      omega
    · exact (Partition.within_of_even hmem).stop_le

theorem Plan.employs_of_eligible {op : Operation} {config : Config} {workers : Nat}
    (hleast : 1 ≤ least) (hworkers : 1 ≤ workers) (hmin : op.minChunks workers = workers * least)
    (haction : (Plan.make op length config workers).action = .parallel)
    (hreason : (Plan.make op length config workers).reason = .eligible) :
    (Plan.make op length config workers).Employs least := by
  obtain ⟨-, -, -, henough⟩ := Plan.eligible_iff.mp ⟨haction, hreason⟩
  rw [hmin] at henough
  exact Plan.employs_of_le hleast hworkers rfl henough

/-! ## §3 Scans -/

/-- If every worker has a chunk, every window has a value. -/
theorem ne_nil_of_mem_sliceWindows {cells : Array α} (hcount : 1 ≤ count)
    (hle : count ≤ chunkCount cells.size) {window : List α}
    (hmem : window ∈ sliceWindows cells count) : window ≠ [] := by
  simp only [sliceWindows, List.map_map] at hmem
  obtain ⟨chunks, hchunks, rfl⟩ := List.mem_map.mp hmem
  -- Every worker has at least one chunk, and every chunk an element.
  have hpos : 1 ≤ chunks.stop - chunks.start :=
    le_length_of_mem_evenSpans hcount (by rwa [Nat.mul_one]) hchunks
  have hbounds := (tiling_evenSpans (chunkCount cells.size) count).bounds hchunks
  have hlt := Span.start_lt_stop_ofChunks (show chunks.start < chunks.stop by omega) hbounds.2.2
  have hstop : (Span.ofChunks chunks cells.size).stop ≤ cells.size := Nat.min_le_right ..
  apply List.ne_nil_of_length_pos
  rw [Function.comp_apply, Array.length_toList, Array.size_extract]
  omega

theorem length_sliceWindows (cells : Array α) (hcount : 1 ≤ count) :
    (sliceWindows cells count).length = count := by
  rw [sliceWindows, List.length_map, List.length_map, length_evenSpans _ hcount]

variable (f : α → α → α)

theorem length_carriesFrom (running : Option α) (windows : List (List α)) :
    (carriesFrom f running windows).length = windows.length := by
  induction windows generalizing running with
  | nil => rfl
  | cons window rest ih => rw [carriesFrom, List.length_cons, List.length_cons, ih]

/-- Once there is a carry, every later window has one. -/
theorem isSome_of_mem_carriesFrom {acc : α} {windows : List (List α)} {carry : Option α}
    (hmem : carry ∈ carriesFrom f (some acc) windows) : carry.isSome = true := by
  induction windows generalizing acc with
  | nil => cases hmem
  | cons window rest ih =>
    rw [carriesFrom, foldFrom_some] at hmem
    rcases List.mem_cons.mp hmem with rfl | hmem
    · rfl
    · exact ih hmem

/-- The first window has no carry, and leaves one for those behind it. -/
theorem carriesFrom_eq_cons {windows : List (List α)} (hpos : 1 ≤ windows.length)
    (hne : ∀ window ∈ windows, window ≠ []) :
    ∃ rest, carriesFrom f none windows = none :: rest ∧ rest.length + 1 = windows.length ∧
      ∀ carry ∈ rest, carry.isSome = true := by
  cases windows with
  | nil => cases hpos
  | cons window windows =>
    -- What the carries start from is the last value of the first window.
    have hlast := mt List.getLast?_eq_none_iff.mp (hne window (List.mem_cons_self ..))
    obtain ⟨last, hlast⟩ := Option.ne_none_iff_exists'.mp hlast
    refine ⟨carriesFrom f (some last) windows, ?_, ?_, ?_⟩
    · rw [carriesFrom, hlast]
      rfl
    · rw [length_carriesFrom, List.length_cons]
    · exact fun carry hmem => isSome_of_mem_carriesFrom f hmem

/-- What the workers leave after the first phase has completed are their windows, each scanned on its
own. -/
theorem scanTasks_final (cells : Array α) (count : Nat) :
    (((((evenSpans (chunkCount cells.size) count).map (scanTask f cells)).map (·.final)).map
      (·.cells)).map (·.toList)) = (sliceWindows cells count).map (scanFrom f none) := by
  rw [scanTasks_windows, map_toList_scannedWindow]
  rfl

/-- The first phase of a scan runs on the windows of its slices. If it completes, the first slice has
no carry, and every other slice has one. -/
def Setting.CarriesBehindFirst (setting : Setting) (plan : Plan) (cells : Array α)
    (f : α → α → α) : Prop :=
  ∃ windows first scanned,
    splitWindows cells (plan.elementSlices.map (·.toSpan)) = .ok windows ∧
    (Phase.start ((plan.chunkSlices.zip windows).map fun owned =>
        (owned.1, ScanWindow.mk (Span.ofChunks owned.1.toSpan cells.size).start owned.2))).run
      (scanKernel cells.size f) setting.host .scan setting.config.mode = .ok (first, scanned) ∧
    (first.isCompleted = true → ∃ rest calls,
      carries f none (scanned.states.map (·.cells)) scanned.calls = .ok (none :: rest, calls) ∧
      rest.length + 1 = plan.slices ∧ ∀ carry ∈ rest, carry.isSome = true)

theorem scanPhase_carries (setting : Setting) {plan : Plan} {cells : Array α}
    (hslices : 1 ≤ plan.slices) (hle : plan.slices ≤ plan.chunks)
    (hchunks : plan.chunks = chunkCount cells.size) (hlength : plan.length = cells.size) :
    setting.CarriesBehindFirst plan cells f := by
  have helements := tiling_ofChunks cells.size plan.slices
  have htiling := tiling_evenSpans plan.chunks plan.slices
  obtain ⟨first, scanned, hfirst, -, hdone⟩ := Phase.run_tasks
    (htiling.forall_map fun _ hspan _ => scanTask_sound f cells hspan) setting.host .scan
    setting.config.mode
  rw [Setting.CarriesBehindFirst, plan.elementSlices_eq, plan.chunkSlices_eq, map_toSpan_ofSpan,
    hlength]
  rw [hchunks] at hfirst hdone ⊢
  refine ⟨_, first, scanned, splitWindows_eq helements, ?_, ?_⟩
  · rw [scanTasks_shares f, hfirst]
  · intro hcompleted
    -- The carries are those of the scanned windows, none of which is empty.
    have hreturns := carries_returns f none (scanned.states.map (·.cells)) scanned.calls
    rw [(hdone hcompleted).states_eq, scanTasks_final] at hreturns
    have hne : ∀ window ∈ (sliceWindows cells plan.slices).map (scanFrom f none),
        window ≠ [] := by
      intro window hmem
      obtain ⟨values, hvalues, rfl⟩ := List.mem_map.mp hmem
      have hvalue := ne_nil_of_mem_sliceWindows hslices (hchunks ▸ hle) hvalues
      rwa [← List.length_pos_iff, length_scanFrom, List.length_pos_iff]
    have hlength : ((sliceWindows cells plan.slices).map (scanFrom f none)).length =
        plan.slices := by
      rw [List.length_map, length_sliceWindows cells hslices]
    obtain ⟨rest, hcarries, hrest, hsome⟩ :=
      carriesFrom_eq_cons f (by rwa [hlength]) hne
    rw [hcarries] at hreturns
    rw [(hdone hcompleted).states_eq]
    exact ⟨rest, _, hreturns, hrest.trans hlength, hsome⟩

/-! ## §4 Reductions -/

/-- The phase of a reduction runs on its slices. If it completes, every slice has an accumulator. -/
def Setting.AccumulatesEverywhere (setting : Setting) (plan : Plan) (cells : Array α)
    (f : α → α → α) : Prop :=
  ∃ outcome phase,
    (Phase.start (plan.chunkSlices.map fun slice => (slice, none))).run (reduceKernel cells f)
      setting.host .reduce setting.config.mode = .ok (outcome, phase) ∧
    (outcome.isCompleted = true →
      phase.states.length = plan.slices ∧ ∀ acc ∈ phase.states, acc.isSome = true)

theorem reducePhase_accumulators (setting : Setting) {plan : Plan} {cells : Array α}
    (hslices : 1 ≤ plan.slices) (hle : plan.slices ≤ plan.chunks)
    (hchunks : plan.chunks = chunkCount cells.size) :
    setting.AccumulatesEverywhere plan cells f := by
  have htiling := tiling_evenSpans (chunkCount cells.size) plan.slices
  obtain ⟨outcome, phase, hrun, -, hdone⟩ := Phase.run_tasks
    (htiling.forall_map fun _ hspan hstop => reduceTask_sound f hspan hstop) setting.host .reduce
    setting.config.mode
  rw [Setting.AccumulatesEverywhere, plan.chunkSlices_eq, hchunks, reduceTasks_shares f cells, hrun]
  refine ⟨outcome, phase, rfl, ?_⟩
  intro hcompleted
  -- Each worker has folded its window, and that is not empty.
  have hstates : phase.states = (sliceWindows cells plan.slices).map (foldFrom f none) := by
    rw [(hdone hcompleted).states_eq]
    simp [sliceWindows, reduceTask]
  rw [hstates, List.length_map, length_sliceWindows cells hslices]
  refine ⟨rfl, ?_⟩
  intro acc hmem
  obtain ⟨window, hwindow, rfl⟩ := List.mem_map.mp hmem
  exact (isSome_foldFrom_none f window).mpr
    (ne_nil_of_mem_sliceWindows hslices (hchunks ▸ hle) hwindow)

/-! ## §5 All operations -/

/-- **Every worker has work.** A plan that makes a parallel attempt for the work that there is leaves
every worker of a reduction, a scan or a scatter a chunk, and every worker of a filter two. So the
first phase of a scan, if it completes, leaves a carry for every slice but the first, and that of a
reduction leaves an accumulator for every slice. -/
theorem Plan.every_worker_has_work (op : Operation) (length : Nat) (config : Config)
    {workers : Nat} (hworkers : 1 ≤ workers) (setting : Setting) {source : View α}
    (hvalid : source.Valid) (hrank : source.rank = 1) :
    let plan := Plan.make op length config workers
    let scan := setting.plan .scan source.length
    let reduction := setting.plan .reduce source.length
    (plan.action = .parallel → plan.reason = .eligible →
      (op = .reduce ∨ op = .scan ∨ op = .scatter → plan.Employs 1) ∧
      (op = .filter → plan.Employs 2)) ∧
    (scan.isParallel = true → setting.CarriesBehindFirst scan source.toArray f) ∧
    (reduction.isParallel = true →
      setting.AccumulatesEverywhere reduction source.toArray f) := by
  intro plan scan reduction
  have hsize := View.size_toArray_eq_length hvalid hrank
  have hcount : 1 ≤ setting.workerCount := Nat.le_max_right ..
  refine ⟨?_, ?_, ?_⟩
  · intro haction hreason
    refine ⟨?_, ?_⟩
    · intro hop
      -- These operations need a chunk for each worker.
      have hmin : op.minChunks workers = workers * 1 := by
        rcases hop with rfl | rfl | rfl <;> exact (Nat.mul_one workers).symm
      exact Plan.employs_of_eligible (Nat.le_refl 1) hworkers hmin haction hreason
    · rintro rfl
      exact Plan.employs_of_eligible (Nat.le_succ 1) hworkers rfl haction hreason
  · intro hparallel
    have hle := Plan.minChunks_le_of_isParallel Operation.noConfusion hparallel
    exact scanPhase_carries f setting hcount hle (by rw [hsize]; rfl) hsize.symm
  · intro hparallel
    have hle := Plan.minChunks_le_of_isParallel Operation.noConfusion hparallel
    exact reducePhase_accumulators f setting hcount hle (by rw [hsize]; rfl)

/-- A hundred lists make four chunks, so two workers that bail out of every attempt have two each. -/
theorem Plan.every_worker_has_work_hundred :
    let source := View.ofArray 0 (Array.replicate 100 [1, 2])
    let setting : Setting :=
      { host := BailSchedule.always.host, config := Config.withWorkers {} 2 }
    (Plan.make .filter 100 {} 2).Employs 2 ∧
      setting.CarriesBehindFirst (setting.plan .scan source.length) source.toArray (· ++ ·) ∧
      setting.AccumulatesEverywhere (setting.plan .reduce source.length) source.toArray
        (· ++ ·) := by
  intro source setting
  have hvalid : source.Valid := ⟨rfl, by decide⟩
  obtain ⟨hwork, hscan, hreduce⟩ :=
    Plan.every_worker_has_work (· ++ ·) .filter 100 {} (show 1 ≤ 2 by decide) setting hvalid rfl
  exact ⟨(hwork (by decide) (by decide)).2 rfl, hscan (by decide), hreduce (by decide)⟩

/-- Two workers of a scan of the longest domain have chunks enough, but the second one ends at the
first address. -/
theorem Plan.last_worker_without_addresses :
    let plan := Plan.make .scan (addressLimit - 1) {} 2
    plan.action = .parallel ∧ plan.reason = .eligible ∧
      plan.chunkSlices.map (·.addresses plan.length) =
        [⟨0, addressLimit / 2⟩, ⟨addressLimit / 2, 0⟩] := by
  decide

end ForkJoin
