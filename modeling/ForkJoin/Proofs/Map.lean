import ForkJoin.Proofs.Runs
import ForkJoin.Proofs.Sweeps
import ForkJoin.Proofs.Visits
import ForkJoin.Record.Records

/-!
# The map

A worker appends the values at the elements of its chunks. Whatever the host answers, the function
is therefore applied to every element once and in order, and the values of all workers, joined in
slice order, are those of the elements in order.

## Main definitions
- `IsMap`: the map of a view.

## Main statements
- `mapKernel_appends`, `Records.mapKernel_appends`: the values at the elements of one chunk.
- `View.map_eq`: what mapping a view leaves.
- `View.map_exact`: every element is mapped once, and to its place.
-/

namespace ForkJoin

variable {α β : Type} {source : View α}

/-- The map of a view: a sequence with a value for every element, at its index. -/
structure IsMap (source : View α) (f : Visit α → β) (out : View β) : Prop where
  shape_eq : out.shape = .vector source.length
  size_eq : out.toArray.size = source.length
  value_at : ∀ i < source.length, ∃ element, source.element? i = some element ∧
    out.toArray[i]? = some (f ⟨element, i, source⟩)

/-- The values at the elements of a chunk are appended, in order. -/
theorem mapKernel_appends (h : source.Valid) (f : Visit α → β) (count : Nat) :
    (mapKernel source f).Appends f
      (fun chunk => source.visitsAt (Span.ofChunk chunk source.length).positions) count := by
  intro chunk _ out
  have hin : ∀ i ∈ (Span.ofChunk chunk source.length).positions, i < source.length := by
    intro i hi
    have hstop := (Span.mem_positions.mp hi).2
    simp only [Span.ofChunk] at hstop
    omega
  -- One visit is one call and one value more.
  refine .foldlM_push ((View.forall₂_visitsAt h hin).imp ?_) out
  intro i visit hvisit out
  exact .silent_bind (.lift hvisit) (.bind_silent (.call f visit) (.pure _))

/-- So are the values at the records of a chunk, which are not decoded. -/
theorem Records.mapKernel_appends (records : Records) (f : RecordVisit → β) (count : Nat) :
    (records.mapKernel f).Appends f
      (fun chunk => (Span.ofChunk chunk records.length).positions.map fun i =>
        ⟨records.bytes, i * records.layout.size⟩) count := by
  intro chunk _ out
  refine .foldlM_push (List.forall₂_map_right_iff.mpr (List.forall₂_same.mpr ?_)) out
  exact fun i _ out => .map out.push (.call f _)

/-- The calls of all chunks are the visits of the view. -/
theorem View.visitsAt_chunks (source : View α) :
    ((List.range (chunkCount source.length)).flatMap fun chunk =>
      source.visitsAt (Span.ofChunk chunk source.length).positions) = source.visits := by
  rw [← View.visitsAt_flatMap, flatMap_positions_range_chunkCount, View.visits]

/-- The values of all visits are the map of the view. -/
theorem isMap_visits (h : source.Valid) (f : Visit α → β) (newBuffer : BufferId) :
    IsMap source f (View.ofArray newBuffer (source.visits.map f).toArray) := by
  have hlength := View.length_visits h
  refine ⟨by simp [View.ofArray, hlength], by simp [hlength], ?_⟩
  intro i hi
  obtain ⟨element, helement, hvisit⟩ := View.getElem?_visits h hi
  refine ⟨element, helement, ?_⟩
  rw [View.toArray_ofArray, List.getElem?_toArray, List.getElem?_map, hvisit]
  rfl

/-- Mapping a view applies the function to every visit once, and leaves the values if the
execution was as expected. -/
theorem View.map_eq (h : source.Valid) (f : Visit α → β) (setting : Setting)
    (hsequential : setting.config.sequential = true) :
    ∃ (run : Run (Visit α) (View β)) (report : Report), source.map setting f = .ok run ∧
      run.result = (report.check setting.config).map (fun report =>
        (View.ofArray setting.newBuffer (source.visits.map f).toArray, report)) ∧
      run.calls.toList = source.visits := by
  obtain ⟨run, report, parts, hrun, hresult, hcalls, hparts⟩ :=
    sweep_appends source.length (mapKernel_appends h f _) setting .map hsequential
  rw [View.visitsAt_chunks] at hcalls hparts
  obtain ⟨final, hfinal, hfinalResult, hfinalCalls⟩ :=
    Run.conclude_joinArrays setting.newBuffer hresult
  rw [hparts] at hfinalResult
  exact ⟨final, report, by rw [View.map, hrun]; exact hfinal, hfinalResult,
    by rw [hfinalCalls, hcalls]⟩

/-- **A map loses, repeats and reorders nothing.** It applies its function to every element once,
in the order of the indices, whichever way the run ends, and every result holds the value of each
element at the index of the element. -/
theorem View.map_exact (h : source.Valid) (f : Visit α → β) (setting : Setting)
    (hsequential : setting.config.sequential = true) :
    ∃ run, source.map setting f = .ok run ∧
      run.calls.toList = source.visits ∧ source.Covers source.visits ∧
      run.Ends setting.config (IsMap source f) := by
  obtain ⟨run, report, hrun, hresult, hcalls⟩ := View.map_eq h f setting hsequential
  exact ⟨run, hrun, hcalls, View.covers_visits h,
    .of_check hresult (isMap_visits h f setting.newBuffer)⟩

/-- The rows of a matrix with their indices, by three workers that bail out of every attempt. -/
theorem View.map_exact_rows :
    ∃ run, (View.mk ⟨50, [2]⟩ ⟨0, Array.range 100⟩ 0).map
        { host := BailSchedule.always.host, config := Config.withWorkers {} 3 }
        (fun visit => (visit.index, visit.element.cells)) = .ok run ∧
      run.calls.toList = (View.mk ⟨50, [2]⟩ ⟨0, Array.range 100⟩ 0).visits ∧
      (View.mk ⟨50, [2]⟩ ⟨0, Array.range 100⟩ 0).Covers
        (View.mk ⟨50, [2]⟩ ⟨0, Array.range 100⟩ 0).visits ∧
      run.Ends (Config.withWorkers {} 3) (IsMap (View.mk ⟨50, [2]⟩ ⟨0, Array.range 100⟩ 0)
        fun visit => (visit.index, visit.element.cells)) :=
  View.map_exact ⟨rfl, by decide⟩ _
    { host := BailSchedule.always.host, config := Config.withWorkers {} 3 } rfl

end ForkJoin
