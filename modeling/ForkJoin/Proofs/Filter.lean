import ForkJoin.Proofs.Runs
import ForkJoin.Proofs.Shapes
import ForkJoin.Proofs.Survivors
import ForkJoin.Proofs.Sweeps
import ForkJoin.Proofs.Visits

/-!
# The filter

A worker keeps the verdicts on its chunks as words and counts them. Reading the words back gives
the indices of the elements of its chunks that are kept; the slices follow each other over all
chunks, so together they name all elements that are kept, in order, and copying their rows gives
as many cells as the shape of the result has elements.

## Main definitions
- `View.keepsAt`, `View.keptIndices`: which elements are kept.
- `survivorsOf`: what a worker has found after some chunks.
- `View.kept`: what a filter leaves.

## Main statements
- `chunkVerdict_returns`, `filterKernel_workAll_returns`: the verdicts on chunks.
- `indices_survivorsOf`, `count_survivorsOf`: reading verdicts back.
- `gatherSurvivors_eq`: copying survivors.
- `View.filter_exact`: the filter of a view.
-/

namespace ForkJoin

variable {α : Type} {source : View α} (keep : Visit α → Bool)

/-! ## §1 Verdicts -/

/-- Whether the element at an index is kept. -/
def View.keepsAt (source : View α) (keep : Visit α → Bool) (index : Nat) : Bool :=
  (source.visit? index).any keep

def verdictOf (source : View α) (keep : Visit α → Bool) (chunk : Nat) : Word :=
  .ofVerdicts (fun bit => source.keepsAt keep (chunk * chunkSize + bit))
    (Span.ofChunk chunk source.length).length

theorem ofChunk_lt {chunk length k : Nat} (hk : k < (Span.ofChunk chunk length).length) :
    chunk * chunkSize + k < length := by
  simp only [Span.length, Span.ofChunk] at hk
  omega

/-- Evaluating the predicate on a chunk calls it once for every element. -/
theorem chunkVerdict_returns (h : source.Valid) (chunk : Nat) :
    (chunkVerdict source keep chunk).Returns (verdictOf source keep chunk)
      (source.visitsAt (Span.ofChunk chunk source.length).positions) := by
  have hlength := length_ofChunk_le chunk source.length
  rw [View.visitsAt, List.filterMap_eq_flatMap_toList]
  -- After `k` elements of the chunk the word holds the verdicts on them.
  refine .foldlM_range' (Word.ofVerdicts _) (fun i => (source.visit? i).toList)
    (chunk * chunkSize) _ ?_
  intro k hk
  obtain ⟨visit, hvisit, hselect, -⟩ := View.visitAt_eq h (ofChunk_lt hk)
  have hkeep : source.keepsAt keep (chunk * chunkSize + k) = keep visit := by
    rw [View.keepsAt, hselect]
    rfl
  have hbit : Fault.checkedSub (chunk * chunkSize + k) (chunk * chunkSize) = .ok k := by
    simp [Fault.checkedSub]
  have hrequire : Fault.require (decide (k < chunkSize)) = .ok () :=
    if_pos (decide_eq_true (by omega))
  rw [hselect, Option.toList_some, Word.ofVerdicts_succ, hkeep]
  refine .silent_bind (.lift hvisit) (.bind_silent (.call keep visit) ?_)
  cases keep visit with
  | true =>
    -- The bit lies inside the word, because the chunk has no more elements than a word has bits.
    exact .silent_bind (.lift hbit) (.silent_bind (.lift hrequire) (.pure _))
  | false => exact .pure _

/-- The verdicts on some chunks, one after another. -/
theorem filterKernel_workAll_returns (h : source.Valid) (chunks : List Nat)
    (survivors : Survivors) :
    ((filterKernel source keep).workAll chunks survivors).Returns
      { survivors with
        words := survivors.words ++ (chunks.map (verdictOf source keep)).toArray
        count := survivors.count + (chunks.map fun chunk =>
          (verdictOf source keep chunk).bitCount).sum }
      (source.visitsAt (chunks.flatMap fun chunk =>
        (Span.ofChunk chunk source.length).positions)) := by
  induction chunks generalizing survivors with
  | nil => simpa [Kernel.workAll, View.visitsAt] using Calling.Returns.pure survivors
  | cons chunk rest ih =>
    -- Words and count grow together, by the verdicts on one chunk.
    have hword := chunkVerdict_returns keep h chunk
    have hrest := ih { survivors with
      words := survivors.words.push (verdictOf source keep chunk)
      count := survivors.count + (verdictOf source keep chunk).bitCount }
    have hwords : survivors.words ++ ((chunk :: rest).map (verdictOf source keep)).toArray =
        survivors.words.push (verdictOf source keep chunk) ++
          (rest.map (verdictOf source keep)).toArray := by
      simp
    rw [Kernel.workAll_cons, List.flatMap_cons, View.visitsAt_append, hwords, List.map_cons,
      List.sum_cons, ← Nat.add_assoc]
    refine .bind ?_ hrest
    exact hword.map fun word : Word => { survivors with
      words := survivors.words.push word
      count := survivors.count + word.bitCount }

/-- What a worker has found after some chunks. -/
def survivorsOf (source : View α) (keep : Visit α → Bool) (chunks : Span) : Survivors where
  firstChunk := chunks.start
  words := (chunks.positions.map (verdictOf source keep)).toArray
  count := (chunks.positions.map fun chunk => (verdictOf source keep chunk).bitCount).sum

/-- A worker evaluates the predicate on its chunks. -/
def filterTask (source : View α) (keep : Visit α → Bool) (chunks : Span) :
    Task (Visit α) Survivors where
  slice := .ofSpan chunks
  state := { firstChunk := chunks.start }
  final := survivorsOf source keep chunks
  calls := source.visitsAt (Span.ofChunks chunks source.length).positions

theorem filterTask_sound (h : source.Valid) {chunks : Span} (hle : chunks.start ≤ chunks.stop) :
    (filterTask source keep chunks).Sound (filterKernel source keep) where
  pos_le := hle
  work := by
    have hwork := filterKernel_workAll_returns keep h chunks.positions
      { firstChunk := chunks.start }
    rw [flatMap_positions_ofChunk, Array.empty_append] at hwork
    simp only [Nat.zero_add] at hwork
    exact hwork

/-! ## §2 Reading verdicts back -/

/-- The words are read back chunk by chunk. -/
theorem indices_eq_flatMap {chunks : Span} (h : chunks.stop ≤ chunkLimit) :
    (survivorsOf source keep chunks).indices = chunks.positions.flatMap fun chunk =>
      (verdictOf source keep chunk).setBits.map (chunk * chunkSize + ·) := by
  -- Verdicts are numbered by their chunks.
  have hzip : ∀ first n, ((List.range' first n).map (verdictOf source keep)).zipIdx first =
      (List.range' first n).map fun chunk => (verdictOf source keep chunk, chunk) := by
    intro first n
    induction n generalizing first with
    | zero => rfl
    | succ n ih => rw [List.range'_succ, List.map_cons, List.zipIdx_cons, ih, List.map_cons]
  simp only [Survivors.indices, survivorIndices, survivorsOf, Span.positions]
  rw [hzip, List.flatMap_map]
  refine List.flatMap_congr fun chunk hmem => ?_
  rw [wrapChunk_of_lt (Nat.lt_of_lt_of_le (Span.mem_positions.mp hmem).2 h)]

/-- The indices of the survivors are those of the elements that are kept. -/
theorem indices_survivorsOf {chunks : Span} (h : chunks.stop ≤ chunkLimit) :
    (survivorsOf source keep chunks).indices =
      (Span.ofChunks chunks source.length).positions.filter (source.keepsAt keep) := by
  have hchunk : ∀ chunk, (verdictOf source keep chunk).setBits.map (chunk * chunkSize + ·) =
      (Span.ofChunk chunk source.length).positions.filter (source.keepsAt keep) := by
    intro chunk
    rw [verdictOf, Word.setBits_ofVerdicts _ (length_ofChunk_le ..), Span.positions,
      List.range'_eq_map_range, List.filter_map]
    rfl
  simp only [indices_eq_flatMap keep h, hchunk]
  rw [← flatMap_positions_ofChunk, List.filter_flatMap]

/-- The survivors are as many as were counted. -/
theorem count_survivorsOf (chunks : Span) :
    (survivorsOf source keep chunks).count = (survivorsOf source keep chunks).indices.length := by
  rw [Survivors.indices, length_survivorIndices]
  simp only [survivorsOf, List.map_map, Function.comp_def]

theorem total_count {parts : List Survivors}
    (hcount : ∀ part ∈ parts, part.count = part.indices.length) :
    parts.foldr (fun part total => part.count + total) 0 =
      (parts.flatMap (·.indices)).length := by
  induction parts with
  | nil => rfl
  | cons part rest ih =>
    rw [List.foldr_cons, List.flatMap_cons, List.length_append,
      hcount part (List.mem_cons_self ..),
      ih fun other hother => hcount other (List.mem_cons_of_mem _ hother)]

/-! ## §3 Copying survivors -/

/-- The cells of the elements at some indices. -/
def rowsAt (cells : Array α) (inner : Nat) (indices : List Nat) : List α :=
  indices.flatMap fun i => (cells.extract (i * inner) ((i + 1) * inner)).toList

theorem rowsAt_append (cells : Array α) (inner : Nat) (first second : List Nat) :
    rowsAt cells inner (first ++ second) = rowsAt cells inner first ++ rowsAt cells inner second :=
  List.flatMap_append

theorem length_rowsAt {cells : Array α} {inner : Nat} {indices : List Nat}
    (hin : ∀ i ∈ indices, (i + 1) * inner ≤ cells.size) :
    (rowsAt cells inner indices).length = indices.length * inner := by
  have hrow : ∀ i ∈ indices,
      (cells.extract (i * inner) ((i + 1) * inner)).toList.length = inner := by
    intro i hi
    have hle := hin i hi
    rw [Nat.succ_mul] at hle
    simp only [Array.length_toList, Array.size_extract, Nat.succ_mul]
    omega
  rw [rowsAt, List.length_flatMap, List.map_congr_left hrow]
  simp

theorem gatherRows_eq {cells : Array α} {inner : Nat} {indices : List Nat}
    (hin : ∀ i ∈ indices, (i + 1) * inner ≤ cells.size) :
    gatherRows cells inner indices = .ok (rowsAt cells inner indices).toArray := by
  -- From any output, to which the rows are appended.
  suffices h : ∀ out : Array α, indices.foldlM (fun out i => do
      return out ++ (← Fault.checkedExtract cells (i * inner) ((i + 1) * inner))) out =
        (.ok (out ++ (rowsAt cells inner indices).toArray) : Except Fault (Array α)) by
    rw [gatherRows, h, Array.empty_append]
  induction indices with
  | nil => intro out; simp [rowsAt]
  | cons i rest ih =>
    intro out
    have hrow : Fault.checkedExtract cells (i * inner) ((i + 1) * inner) =
        .ok (cells.extract (i * inner) ((i + 1) * inner)) :=
      if_pos ⟨Nat.mul_le_mul_right inner (Nat.le_succ i), hin i (List.mem_cons_self ..)⟩
    have hrest := ih (fun j hj => hin j (List.mem_cons_of_mem _ hj))
      (out ++ cells.extract (i * inner) ((i + 1) * inner))
    rw [List.foldlM_cons, hrow]
    refine hrest.trans (congrArg Except.ok ?_)
    apply Array.ext'
    simp [rowsAt]

/-- The survivors of all slices are appended to what is there, in slice order. -/
theorem gatherSurvivors_eq {cells : Array α} {inner : Nat} {parts : List Survivors}
    (hcount : ∀ part ∈ parts, part.count = part.indices.length)
    (hin : ∀ part ∈ parts, ∀ i ∈ part.indices, (i + 1) * inner ≤ cells.size)
    (before : Nat) (out : Array α) (hout : out.size = before * inner) :
    gatherSurvivors cells inner before out parts =
      .ok (out ++ (rowsAt cells inner (parts.flatMap (·.indices))).toArray) := by
  induction parts generalizing before out with
  | nil => simp [gatherSurvivors, rowsAt]
  | cons part rest ih =>
    have hpart := hin part (List.mem_cons_self ..)
    have hrows := gatherRows_eq hpart
    -- The rows that are there stay as many as the survivors counted so far.
    have hsize : (out ++ (rowsAt cells inner part.indices).toArray).size =
        (before + part.count) * inner := by
      have hlength := length_rowsAt hpart
      rw [← hcount part (List.mem_cons_self ..)] at hlength
      simp [hout, hlength, Nat.add_mul]
    have hrest := ih (fun other hother => hcount other (List.mem_cons_of_mem _ hother))
      (fun other hother => hin other (List.mem_cons_of_mem _ hother)) _ _ hsize
    rw [gatherSurvivors, Fault.require, if_pos (by simp [hout])]
    simp only [Fault.ok_bind, hrows, hrest]
    rw [List.flatMap_cons, rowsAt_append]
    apply congrArg Except.ok
    apply Array.ext'
    simp

/-! ## §4 Filtering a view -/

/-- The indices of the elements that are kept. -/
def View.keptIndices (source : View α) (keep : Visit α → Bool) : List Nat :=
  (List.range source.length).filter (source.keepsAt keep)

theorem lt_length_of_mem_keptIndices {i : Nat} (hi : i ∈ source.keptIndices keep) :
    i < source.length :=
  List.mem_range.mp (List.mem_filter.mp hi).1

/-- The visits that satisfy the predicate are those of the elements that are kept. -/
theorem View.filter_visits : source.visits.filter keep = source.visitsAt (source.keptIndices keep) :=
  View.filter_visitsAt source keep (List.range source.length)

section

variable {spans : List Span}

/-- Slices of all chunks name all elements that are kept. -/
theorem flatMap_indices_survivorsOf (h : source.Valid)
    (htiling : Tiling 0 (chunkCount source.length) spans) :
    (spans.map (survivorsOf source keep)).flatMap (·.indices) = source.keptIndices keep := by
  have hchunks : chunkCount source.length ≤ chunkLimit :=
    chunkCount_le_chunkLimit (Shape.outer_lt h.addressable)
  rw [View.keptIndices, ← htiling.flatMap_elements, List.filter_flatMap, List.flatMap_map]
  refine List.flatMap_congr fun span hmem => ?_
  exact indices_survivorsOf keep (Nat.le_trans (htiling.bounds hmem).2.2 hchunks)

theorem counts_survivorsOf (htiling : Tiling 0 (chunkCount source.length) spans) :
    ∀ part ∈ spans.map (survivorsOf source keep), part.count = part.indices.length :=
  htiling.forall_map fun span _ _ => count_survivorsOf keep span

theorem total_count_survivorsOf (h : source.Valid)
    (htiling : Tiling 0 (chunkCount source.length) spans) :
    (spans.map (survivorsOf source keep)).foldr (fun part total => part.count + total) 0 =
      (source.keptIndices keep).length := by
  rw [← flatMap_indices_survivorsOf keep h htiling]
  exact total_count (counts_survivorsOf keep htiling)

/-- Copying the survivors copies the rows of the elements that are kept. -/
theorem gatherSurvivors_survivorsOf (h : source.Valid)
    (htiling : Tiling 0 (chunkCount source.length) spans) :
    gatherSurvivors source.toArray source.innerSize 0 #[] (spans.map (survivorsOf source keep)) =
      .ok (rowsAt source.toArray source.innerSize (source.keptIndices keep)).toArray := by
  have hcount := counts_survivorsOf keep htiling
  -- Every survivor is an element of the source, so its row is inside the cells.
  have hin : ∀ part ∈ spans.map (survivorsOf source keep), ∀ i ∈ part.indices,
      (i + 1) * source.innerSize ≤ source.toArray.size := by
    intro part hpart i hi
    have hmem := List.mem_flatMap.mpr ⟨part, hpart, hi⟩
    rw [flatMap_indices_survivorsOf keep h htiling] at hmem
    rw [View.size_toArray h]
    exact View.row_le (lt_length_of_mem_keptIndices keep hmem)
  have hgather := gatherSurvivors_eq hcount hin 0 #[] (by simp)
  rwa [flatMap_indices_survivorsOf keep h htiling, Array.empty_append] at hgather

end

/-- What a filter leaves: the rows of the elements that are kept, in the shape of the source but
for their number. -/
def View.kept (source : View α) (keep : Visit α → Bool) (newBuffer : BufferId) : View α where
  shape := ⟨(source.keptIndices keep).length, source.shape.inner⟩
  buffer := ⟨newBuffer, (rowsAt source.toArray source.innerSize (source.keptIndices keep)).toArray⟩
  offset := 0

theorem View.size_rowsAt_keptIndices (h : source.Valid) :
    (rowsAt source.toArray source.innerSize (source.keptIndices keep)).length =
      (source.keptIndices keep).length * source.innerSize :=
  length_rowsAt fun i hi => by
    rw [View.size_toArray h]
    exact View.row_le (lt_length_of_mem_keptIndices keep hi)

/-- The shape of the result is valid, and has as many elements as there are cells. -/
theorem View.ofShape?_kept (h : source.Valid) (newBuffer : BufferId) :
    (do
      let shape ← Shape.ofDims? ((source.keptIndices keep).length :: source.shape.inner)
      View.ofShape? newBuffer shape
        (rowsAt source.toArray source.innerSize (source.keptIndices keep)).toArray) =
      .ok (source.kept keep newBuffer) := by
  -- No more elements are kept than there are, so the shape stays addressable.
  have hle : (source.keptIndices keep).length ≤ source.length := by
    have hfilter := List.length_filter_le (source.keepsAt keep) (List.range source.length)
    rwa [List.length_range] at hfilter
  have hsize : (rowsAt source.toArray source.innerSize (source.keptIndices keep)).toArray.size =
      (Shape.mk (source.keptIndices keep).length source.shape.inner).size := by
    rw [List.size_toArray, View.size_rowsAt_keptIndices keep h]
    rfl
  rw [Shape.ofDims?_of_le hle h.addressable]
  exact if_pos hsize

theorem View.collect_survivorsOf (h : source.Valid) {spans : List Span}
    (htiling : Tiling 0 (chunkCount source.length) spans) (newBuffer : BufferId) :
    source.collect newBuffer (some (spans.map (survivorsOf source keep))) =
      .ok (.ok (source.kept keep newBuffer)) := by
  rw [View.collect, View.window_eq h]
  simp only [Fault.ok_bind, gatherSurvivors_survivorsOf keep h htiling,
    total_count_survivorsOf keep h htiling]
  rw [View.ofShape?_kept keep h]
  rfl

/-- The result holds the cells of the visits that satisfy the predicate. -/
theorem View.toArray_kept (h : source.Valid) (newBuffer : BufferId) :
    (source.kept keep newBuffer).toArray.toList =
      (source.visits.filter keep).flatMap (·.element.cells) := by
  have hcells := View.flatMap_cells_visitsAt h
    fun i hi => lt_length_of_mem_keptIndices keep (i := i) hi
  have hsize := View.size_rowsAt_keptIndices keep h
  rw [View.filter_visits, hcells, View.kept, View.toArray_mk _ (by rw [List.size_toArray, hsize]; rfl)]
  rfl

theorem View.length_filter_visits (h : source.Valid) :
    (source.visits.filter keep).length = (source.keptIndices keep).length := by
  have hindices := View.map_index_visitsAt h
    fun i hi => lt_length_of_mem_keptIndices keep (i := i) hi
  rw [View.filter_visits, ← List.length_map (·.index), hindices]

/-- **A filter is exact.** It evaluates its predicate on every element once, whichever way the run
ends, and every result holds the elements that are kept, in their order. -/
theorem View.filter_exact (h : source.Valid) (setting : Setting)
    (hsequential : setting.config.sequential = true) :
    ∃ run, source.filter setting keep = .ok run ∧
      run.calls.toList = source.visits ∧ source.Covers source.visits ∧
      run.Ends setting.config fun out =>
        out.shape = ⟨(source.visits.filter keep).length, source.shape.inner⟩ ∧
        out.toArray.toList = (source.visits.filter keep).flatMap (·.element.cells) := by
  obtain ⟨run, report, states, spans, hrun, hresult, htiling, hdone⟩ := sweep_tasks
    (fun slice => { firstChunk := slice.start }) (filterTask source keep) source.length
    (fun _ => rfl) (fun _ hle _ => filterTask_sound keep h hle) setting .filter
  obtain ⟨rfl, hcalls⟩ | ⟨-, -, hforbidden⟩ := hdone
  swap
  · -- Only a sweep that may not finish sequentially leaves no verdicts.
    rw [hsequential] at hforbidden
    cases hforbidden
  -- The states at the end are the survivors of the spans.
  have hfinals : (spans.map (filterTask source keep)).map (·.final) =
      spans.map (survivorsOf source keep) := by
    rw [List.map_map]
    rfl
  rw [hfinals] at hresult
  obtain ⟨final, hfinal, hfinalResult, hfinalCalls, -⟩ :=
    Run.conclude_of_check hresult (View.collect_survivorsOf keep h htiling setting.newBuffer)
  refine ⟨final, by rw [View.filter, hrun]; exact hfinal, ?_, View.covers_visits h,
    .of_check hfinalResult ⟨?_, View.toArray_kept keep h setting.newBuffer⟩⟩
  · rw [hfinalCalls, hcalls, List.flatMap_map, View.visits, ← htiling.flatMap_elements,
      View.visitsAt_flatMap]
    rfl
  · rw [View.length_filter_visits keep h]
    rfl

/-- The even numbers below a hundred, by two workers that bail out of every attempt. -/
theorem View.filter_exact_even :
    ∃ run, (View.ofArray 0 (Array.range 100)).filter
        { host := BailSchedule.always.host, config := Config.withWorkers {} 2 }
        (fun visit => visit.index % 2 == 0) = .ok run ∧
      run.calls.toList = (View.ofArray 0 (Array.range 100)).visits ∧
      (View.ofArray 0 (Array.range 100)).Covers (View.ofArray 0 (Array.range 100)).visits ∧
      run.Ends (Config.withWorkers {} 2) fun out =>
        out.shape = ⟨((View.ofArray 0 (Array.range 100)).visits.filter
          fun visit => visit.index % 2 == 0).length, []⟩ ∧
        out.toArray.toList = ((View.ofArray 0 (Array.range 100)).visits.filter
          fun visit => visit.index % 2 == 0).flatMap (·.element.cells) :=
  View.filter_exact _ ⟨rfl, by decide⟩
    { host := BailSchedule.always.host, config := Config.withWorkers {} 2 } rfl

end ForkJoin
