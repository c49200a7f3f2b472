import ForkJoin.Proofs.Bailouts
import ForkJoin.Proofs.Reachability
import ForkJoin.Proofs.Withholding

/-!
# Absence of faults

A computation breaks off where it is handed a state that no valid input leads to. With a view that
can be made no operation gets there, whatever the input, the host and the configuration: it is
rejected, or it runs to its end. What is relied on without being asked is there as well. The slices
of all workers lie within their domain, and the workers stand within them at all times; the elements
that are handed to callbacks and the views that are returned lie inside their buffers.

## Main definitions
- `Phase.Within`: all workers stand within their slices, and these within the domain.
- `Safe`: an operation that runs to its end in every setting, and returns valid views.
- `CallsWithin`: an operation that calls its callback on arguments of a kind only.

## Main statements
- `Phase.Attempted.within`, `Phase.within_of_run`: one attempt and all attempts.
- `View.build_safe`, `View.map_safe`, `Records.map_safe`, `View.filter_safe`, `View.reduce_runs`,
  `View.scan_safe`, `View.scatter_safe`: the operations one by one.
- `Fault.never_reached`: all operations together.
-/

namespace ForkJoin

variable {α β γ ρ σ : Type}

/-! ## §1 Workers and their slices -/

section

variable {kernel : Kernel γ σ} {host : Host} {op : Operation} {limit : Nat}

namespace Worker

variable {attempt index : Nat} {before warm after : Worker γ σ} {questions : List Consultation}

/-- A pass that does not overrun its slice keeps the worker within it. -/
theorem Passes.within (h : before.Passes kernel after questions)
    (hle : after.slice.pos ≤ after.slice.stop) (hin : before.slice.Within limit) :
    after.slice.Within limit := by
  have hstart : after.slice.start = before.slice.start := by rw [h.slice_eq]
  exact ⟨hstart ▸ Nat.le_trans hin.start_le h.pos_le, hle, h.stop_eq ▸ hin.stop_le⟩

/-- A pass that asks nothing goes no further than the end of the slice. -/
theorem within_of_proceed {units : Nat}
    (h : before.proceed kernel none (units - before.slice.pos) = .ok after)
    (hunits : units ≤ before.slice.stop) (hin : before.slice.Within limit) :
    after.slice.Within limit := by
  obtain ⟨hpasses, hpos⟩ := passes_of_proceed_none h
  refine hpasses.within ?_ hin
  have hle := hin.pos_le
  rw [hpos, hpasses.stop_eq]
  omega

theorem within_of_warmUp (h : before.warmUp kernel = .ok after) (hin : before.slice.Within limit) :
    after.slice.Within limit :=
  within_of_proceed h (Nat.min_le_left ..) hin

theorem within_of_finishAlone (h : before.finishAlone kernel = .ok after)
    (hin : before.slice.Within limit) : after.slice.Within limit :=
  within_of_proceed h (Nat.le_refl _) hin

theorem Attempted.within
    (h : Attempted kernel host op attempt index before warm after questions)
    (hin : before.slice.Within limit) : after.slice.Within limit := by
  have hstop := h.pos_le_stop hin.pos_le
  -- The dispatch goes on from where the warmup ended, so the warmup was in front of the end as well.
  have hwarm : warm.slice.pos ≤ warm.slice.stop :=
    Nat.le_trans h.dispatch.pos_le (h.dispatch.stop_eq ▸ hstop)
  exact h.dispatch.toPasses.within hstop (h.warmup.within hwarm hin)

end Worker

namespace Phase

variable {number : Nat} {before after : Phase γ σ}

/-- All workers stand within their slices, and these lie within the domain. -/
def Within (phase : Phase γ σ) (limit : Nat) : Prop :=
  ∀ worker ∈ phase.workers, worker.slice.Within limit

theorem within_start {shares : List (Slice × σ)} (h : ∀ share ∈ shares, share.1.Within limit) :
    (start shares : Phase γ σ).Within limit := by
  intro worker hworker
  obtain ⟨share, hshare, rfl⟩ := List.mem_map.mp hworker
  exact h share hshare

/-- What every worker does on its own. -/
theorem within_of_mapM {g : Worker γ σ → Except Fault (Worker γ σ)} {workers : List (Worker γ σ)}
    (hg : ∀ before after, g before = .ok after → before.slice.Within limit →
      after.slice.Within limit)
    (h : before.workers.mapM g = .ok workers) (hin : before.Within limit) :
    ∀ worker ∈ workers, worker.slice.Within limit := by
  intro worker hworker
  obtain ⟨index, hindex⟩ := List.mem_iff_getElem?.mp hworker
  obtain ⟨first, hfirst, hstep⟩ := getElem?_of_mapM_eq_ok h index hindex
  exact hg _ _ hstep (hin first (List.mem_of_getElem? hfirst))

theorem within_of_warmUp (h : before.warmUp kernel = .ok after) (hin : before.Within limit) :
    after.Within limit :=
  within_of_mapM (fun _ _ => Worker.within_of_warmUp) (warmUp_eq_ok h).2 hin

theorem within_of_finishAlone (h : before.finishAlone kernel = .ok after)
    (hin : before.Within limit) : after.Within limit :=
  within_of_mapM (fun _ _ => Worker.within_of_finishAlone) (finishAlone_eq_ok h).2 hin

/-- One attempt keeps all workers within their slices. -/
theorem Attempted.within (h : before.Attempted kernel host op number after)
    (hin : before.Within limit) : after.Within limit := by
  intro last hlast
  obtain ⟨index, hindex⟩ := List.mem_iff_getElem?.mp hlast
  obtain ⟨first, warm, questions, hfirst, hattempted⟩ := h.workers index last hindex
  exact hattempted.within (hin first (List.mem_of_getElem? hfirst))

theorem Course.within {left bailouts : Nat} {phase final : Phase γ σ} {outcome : PhaseOutcome}
    (h : Course kernel host op left bailouts phase outcome final) (hin : phase.Within limit) :
    final.Within limit := by
  -- By induction on the attempts, the invariant being carried from each one to the next.
  induction h with
  | fallback bailouts phase => exact hin
  | completed hattempt _ => exact hattempt.within hin
  | retry hattempt _ _ ih => exact ih (hattempt.within hin)

/-- So do all attempts of a phase. -/
theorem within_of_run {mode : Mode} {phase final : Phase γ σ} {outcome : PhaseOutcome}
    (h : phase.run kernel host op mode = .ok (outcome, final)) (hin : phase.Within limit) :
    final.Within limit := by
  by_cases hmode : mode = .compile
  · -- In compile mode there is a warmup and nothing else.
    exact within_of_warmUp (warmUp_of_run hmode h).2 hin
  · exact (course_of_run hmode h).within hin

end Phase

end

/-! ## §2 What callbacks are called on -/

/-- In every setting the callback is called on arguments of a kind only. -/
def CallsWithin (operation : Setting → Except Fault (Run γ ρ)) (inside : γ → Prop) : Prop :=
  ∀ setting run, operation setting = .ok run → ∀ call ∈ run.calls, inside call

theorem CallsWithin.of_sublist {operation : Setting → Except Fault (Run γ ρ)} {inside : γ → Prop}
    {calls : List γ}
    (h : ∀ setting run, operation setting = .ok run → run.calls.toList.Sublist calls)
    (hinside : ∀ call ∈ calls, inside call) : CallsWithin operation inside := by
  intro setting run hrun call hcall
  exact hinside call ((h setting run hrun).subset (Array.mem_toList_iff.mpr hcall))

/-- A visit is at an index of the source, and a row that is visited lies inside the buffer of the
source. -/
structure Visit.Inside (source : View α) (visit : Visit α) : Prop where
  index_lt : visit.index < source.length
  row : ∀ sub, visit.element = .view sub → sub.Valid ∧ sub.buffer = source.buffer

theorem View.inside_of_mem_visits {source : View α} (hvalid : source.Valid) {visit : Visit α}
    (h : visit ∈ source.visits) : visit.Inside source := by
  obtain ⟨index, hindex, hvisit⟩ := List.mem_filterMap.mp h
  obtain ⟨element, helement, rfl⟩ := Option.map_eq_some_iff.mp hvisit
  refine ⟨List.mem_range.mp hindex, ?_⟩
  rintro sub rfl
  exact ⟨hvalid.get? helement, View.buffer_of_get? helement⟩

/-- A record that is visited lies inside the bytes. -/
def RecordVisit.Inside (records : Records) (visit : RecordVisit) : Prop :=
  visit.offset + records.layout.size ≤ visit.bytes.size

theorem Records.inside_of_mem_visits {bytes : Array UInt8} {layout : Layout} {records : Records}
    (hrecords : Records.ofBytes? bytes layout = .ok records) {visit : RecordVisit}
    (h : visit ∈ records.visits) : visit.Inside records := by
  obtain ⟨-, rfl, rfl, -⟩ := Records.ofBytes?_eq_ok hrecords
  obtain ⟨index, hindex, rfl⟩ := List.mem_map.mp h
  exact Records.record_inside hrecords (List.mem_range.mp hindex)

/-! ## §3 The operations one by one -/

/-- An operation runs to its end in every setting, and returns valid views only. -/
def Safe (operation : Setting → Except Fault (Run γ (View β))) : Prop :=
  ∀ setting, ∃ run, operation setting = .ok run ∧
    ∀ out report, run.result = .ok (out, report) → out.Valid

theorem Safe.of_runs {operation : Setting → Except Fault (Run γ (View β))}
    (hruns : ∀ setting, ∃ run, operation setting = .ok run)
    (hfresh : ∀ {setting : Setting} {run : Run γ (View β)} {out : View β} {report : Report},
      operation setting = .ok run → run.result = .ok (out, report) → out.Fresh) :
    Safe operation := by
  intro setting
  obtain ⟨run, hrun⟩ := hruns setting
  exact ⟨run, hrun, fun _ _ hresult => (hfresh hrun hresult).toValid⟩

theorem Safe.exists_run {operation : Setting → Except Fault (Run γ (View β))}
    (h : Safe operation) (setting : Setting) : ∃ run, operation setting = .ok run := by
  obtain ⟨run, hrun, -⟩ := h setting
  exact ⟨run, hrun⟩

theorem View.build_safe {shape : Shape} (hshape : Shape.ofDims? shape.dims = .ok shape)
    (f : Coords → β) : Safe (View.build · shape f) :=
  .of_runs (View.build_rejectsNothing shape f).exists_run (View.build_fresh hshape)

theorem Records.map_safe {bytes : Array UInt8} {layout : Layout} {records : Records}
    (hbytes : bytes.size < addressLimit) (hrecords : Records.ofBytes? bytes layout = .ok records)
    (f : RecordVisit → β) : Safe (records.map · f) :=
  .of_runs (Records.map_rejectsNothing records f).exists_run (Records.map_fresh hbytes hrecords)

section

variable {source : View α} (hvalid : source.Valid)

include hvalid

theorem View.map_safe (f : Visit α → β) : Safe (source.map · f) :=
  .of_runs (View.map_rejectsNothing hvalid f).exists_run (View.map_fresh hvalid)

theorem View.filter_safe (keep : Visit α → Bool) : Safe (source.filter · keep) :=
  .of_runs (View.filter_rejectsNothing hvalid keep).exists_run (View.filter_fresh hvalid)

/-- A reduction is rejected or runs to its end. Where there is an element there is a first one to
begin the fold with, and the reduction does not end without a value. -/
theorem View.reduce_runs (f : α → α → α) (setting : Setting) :
    ∃ run, source.reduce setting f = .ok run ∧
      (source.rank = 1 → source.isEmpty = false → run.Accepted) := by
  by_cases hrank : source.rank = 1
  · cases hempty : source.isEmpty with
    | true =>
      refine ⟨_, View.reduce_of_isEmpty hvalid hrank hempty f setting, fun _ hne => ?_⟩
      cases hne
    | false =>
      obtain ⟨run, hrun, haccepted⟩ := View.reduce_rejectsNothing hvalid hrank hempty f setting
      exact ⟨run, hrun, fun _ _ => haccepted⟩
  · -- Another rank is rejected before anything runs.
    exact ⟨_, if_pos hrank, fun hone => absurd hone hrank⟩

theorem View.scan_safe (f : α → α → α) : Safe (source.scan · f) :=
  .of_runs (View.scan_screens hvalid f).exists_run (View.scan_fresh hvalid)

theorem View.scatter_safe (targets : Array Target) (default : α) {length : Nat}
    (hlength : length < addressLimit) (conflict : Option (α → α → α)) :
    Safe (source.scatter · targets default length conflict) :=
  .of_runs (View.scatter_screens hvalid targets default length conflict).exists_run
    (View.scatter_fresh hvalid hlength)

end

/-! ## §4 All operations -/

/-- **No operation breaks off.** With views, shapes and records that can be made it runs to its end
in every setting, whatever its callback and its targets are: it never reads or writes out of range,
never takes a difference below zero, never divides by zero, and never cuts windows that do not follow
each other. The views that it returns lie inside their buffers, and so do the elements that it hands
to its callback. The slices that the work is divided into lie within their domain, and every worker
stands within its slice after every phase. -/
theorem Fault.never_reached :
    (∀ {β : Type} (shape : Shape) (f : Coords → β), shape.Reachable →
      Safe (View.build · shape f)) ∧
    (∀ {α β : Type} (source : View α) (f : Visit α → β), source.Reachable →
      Safe (source.map · f) ∧ CallsWithin (source.map · f) (Visit.Inside source)) ∧
    (∀ {β : Type} (bytes : Array UInt8) (layout : Layout) (records : Records)
      (f : RecordVisit → β), bytes.size < addressLimit →
      Records.ofBytes? bytes layout = .ok records →
      Safe (records.map · f) ∧ CallsWithin (records.map · f) (RecordVisit.Inside records)) ∧
    (∀ {α : Type} (source : View α) (keep : Visit α → Bool), source.Reachable →
      Safe (source.filter · keep) ∧ CallsWithin (source.filter · keep) (Visit.Inside source)) ∧
    (∀ {α : Type} (source : View α) (f : α → α → α), source.Reachable → ∀ setting,
      ∃ run, source.reduce setting f = .ok run ∧
        (source.rank = 1 → source.isEmpty = false → run.Accepted)) ∧
    (∀ {α : Type} (source : View α) (f : α → α → α), source.Reachable →
      Safe (source.scan · f)) ∧
    (∀ {α : Type} (source : View α) (targets : Array Target) (default : α) (length : Nat)
      (conflict : Option (α → α → α)), source.Reachable → length < addressLimit →
      Safe (source.scatter · targets default length conflict)) ∧
    (∀ items count,
      (∀ index, evenSpan? items index (max count 1) = .ok (evenSpan items index (max count 1))) ∧
      ∀ slice ∈ (Partition.even items count).slices, slice.Within items) ∧
    (∀ length count,
      ∀ slice ∈ ((Partition.even (chunkCount length) count).toElements length).slices,
        slice.Within length) ∧
    (∀ {γ σ : Type} (kernel : Kernel γ σ) (host : Host) (op : Operation) (mode : Mode)
      (shares : List (Slice × σ)) (limit : Nat), (∀ share ∈ shares, share.1.Within limit) →
      ∀ outcome final, (Phase.start shares).run kernel host op mode = .ok (outcome, final) →
        final.Within limit ∧
        ∀ done, final.finishAlone kernel = .ok done → done.Within limit) := by
  refine ⟨?build, ?map, ?records, ?filter, ?reduce, ?scan, ?scatter, ?chunks, ?elements, ?phases⟩
  case build =>
    intro β shape f hshape
    exact View.build_safe hshape.addressable f
  case map =>
    intro α β source f hsource
    exact ⟨View.map_safe hsource.valid f, .of_sublist (fun _ _ => View.map_calls hsource.valid)
      fun _ => View.inside_of_mem_visits hsource.valid⟩
  case records =>
    intro β bytes layout records f hbytes hrecords
    exact ⟨Records.map_safe hbytes hrecords f, .of_sublist (fun _ _ => Records.map_calls)
      fun _ => Records.inside_of_mem_visits hrecords⟩
  case filter =>
    intro α source keep hsource
    exact ⟨View.filter_safe hsource.valid keep,
      .of_sublist (fun _ _ => View.filter_calls hsource.valid)
        fun _ => View.inside_of_mem_visits hsource.valid⟩
  case reduce =>
    intro α source f hsource setting
    exact View.reduce_runs hsource.valid f setting
  case scan =>
    intro α source f hsource
    exact View.scan_safe hsource.valid f
  case scatter =>
    intro α source targets default length conflict hsource hlength
    exact View.scatter_safe hsource.valid targets default hlength conflict
  case chunks =>
    intro items count
    -- Where no worker is asked for there is one all the same.
    refine ⟨fun index => if_neg ?_, fun _ => Partition.within_of_even⟩
    omega
  case elements =>
    intro length count slice hslice
    exact Partition.within_of_toElements hslice
  case phases =>
    intro γ σ kernel host op mode shares limit hshares outcome final hrun
    have hfinal := Phase.within_of_run hrun (Phase.within_start hshares)
    exact ⟨hfinal, fun done hdone => Phase.within_of_finishAlone hdone hfinal⟩

/-- Two workers that bail out of every attempt build a matrix, filter its rows, scatter one of them
and map two records. The kernel that builds is started on two slices of one chunk each. -/
theorem Fault.never_reached_row :
    ∃ matrix row : View Nat, ∃ records : Records,
      View.ofShape? 0 ⟨3, [4]⟩ (Array.range 12) = .ok matrix ∧ matrix.row? 1 = some row ∧
      Records.ofBytes? #[7, 9] (.scalar .u8) = .ok records ∧
      (∃ run, View.build { host := BailSchedule.always.host, config := Config.withWorkers {} 2 }
        ⟨3, [4]⟩ List.length = .ok run) ∧
      (∃ run, matrix.filter { host := BailSchedule.always.host, config := Config.withWorkers {} 2 }
          (fun visit => visit.index % 2 == 0) = .ok run ∧
        ∀ visit ∈ run.calls, visit.Inside matrix) ∧
      (∃ run, row.scatter { host := BailSchedule.always.host, config := Config.withWorkers {} 2 }
        #[.unsigned 1, .signed (-4)] 0 3 none = .ok run) ∧
      (∃ run, records.map { host := BailSchedule.always.host, config := Config.withWorkers {} 2 }
        (·.offset) = .ok run) ∧
      ∀ outcome final,
        (Phase.start ((Partition.even 2 2).slices.map fun slice => (slice, #[]))).run
          (buildKernel ⟨3, [4]⟩ List.length) BailSchedule.always.host .build .par =
            .ok (outcome, final) → final.Within 2 := by
  have hshape : Shape.ofDims? [3, 4] = .ok ⟨3, [4]⟩ := rfl
  have hmatrix : View.ofShape? 0 ⟨3, [4]⟩ (Array.range 12) =
    .ok ⟨⟨3, [4]⟩, ⟨0, Array.range 12⟩, 0⟩ := rfl
  have hrow : (View.mk ⟨3, [4]⟩ ⟨0, Array.range 12⟩ 0).row? 1 =
    some ⟨⟨4, []⟩, ⟨0, Array.range 12⟩, 4⟩ := rfl
  have hrecords : Records.ofBytes? #[7, 9] (.scalar .u8) = .ok ⟨#[7, 9], .scalar .u8, 2⟩ := rfl
  have hreachable := View.Reachable.ofShape (.ofDims hshape) hmatrix
  -- From here on only the parts of the theorem are applied.
  obtain ⟨hbuild, -, hmap, hfilter, -, -, hscatter, hchunks, -, hphases⟩ := Fault.never_reached
  obtain ⟨built, hbuilt, -⟩ := hbuild ⟨3, [4]⟩ List.length (.ofDims hshape) _
  obtain ⟨hsafe, hcalls⟩ := hfilter _ (fun visit => visit.index % 2 == 0) hreachable
  obtain ⟨kept, hkept, -⟩ := hsafe _
  obtain ⟨scattered, hscattered, -⟩ := hscatter _ #[.unsigned 1, .signed (-4)] 0 3 none
    (hreachable.row hrow) (by decide) _
  obtain ⟨mapped, hmapped, -⟩ := (hmap _ _ _ (·.offset) (by decide) hrecords).1 _
  refine ⟨_, _, _, hmatrix, hrow, hrecords, ⟨built, hbuilt⟩, ⟨kept, hkept, hcalls _ _ hkept⟩,
    ⟨scattered, hscattered⟩, ⟨mapped, hmapped⟩, fun outcome final hrun => ?_⟩
  refine (hphases _ _ _ _ _ 2 (fun share hshare => ?_) outcome final hrun).1
  obtain ⟨slice, hslice, rfl⟩ := List.mem_map.mp hshare
  exact (hchunks 2 2).2 slice hslice

end ForkJoin
