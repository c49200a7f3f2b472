import ForkJoin.Partition.Even
import ForkJoin.Partition.Window
import ForkJoin.Proofs.Calling

/-!
# Tilings

The slices of all workers follow each other without a gap and without an overlap, whether they are
counted in chunks or in elements. Windows that are cut from a sequence along a tiling are there,
and joining them gives the sequence back.

## Main definitions
- `Tiling`: spans that follow each other.
- `evenSpans`: the shares of all workers.
- `Slice.Within`: slices within a domain.
- `sliceWindows`: the values in the windows of all workers.

## Main statements
- `tiling_evenSpans`, `Tiling.ofChunks`: the slices of chunks and of elements are tilings.
- `Tiling.flatMap_elements`: the slices of all chunks hold all elements, in order.
- `flatMap_positions_ofChunk`: the elements of a run of chunks are those of each chunk in turn.
- `splitWindows_eq`, `splitWindows_joinArrays`: cutting and joining.
-/

namespace ForkJoin

/-! ## §1 Spans that follow each other -/

/-- The spans follow each other from `start` to `stop`. -/
inductive Tiling : (start stop : Nat) → List Span → Prop where
  | nil (start : Nat) : Tiling start start []
  | cons {start middle stop : Nat} {rest : List Span} (hle : start ≤ middle)
      (hrest : Tiling middle stop rest) : Tiling start stop (⟨start, middle⟩ :: rest)

namespace Tiling

variable {start middle stop : Nat} {spans : List Span}

theorem le (h : Tiling start stop spans) : start ≤ stop := by
  induction h with
  | nil => exact Nat.le_refl _
  | cons hle _ ih => exact Nat.le_trans hle ih

/-- Every span of a tiling lies within it. -/
theorem bounds (h : Tiling start stop spans) {span : Span} (hmem : span ∈ spans) :
    start ≤ span.start ∧ span.start ≤ span.stop ∧ span.stop ≤ stop := by
  induction h with
  | nil => cases hmem
  | @cons start middle stop rest hle hrest ih =>
    have hmiddle := hrest.le
    rcases List.mem_cons.mp hmem with rfl | hmem
    · exact ⟨Nat.le_refl _, hle, hmiddle⟩
    · obtain ⟨h1, h2, h3⟩ := ih hmem
      exact ⟨Nat.le_trans hle h1, h2, h3⟩

/-- What holds for every span within the bounds holds for all spans of a tiling. -/
theorem forall_map {τ : Type} {P : τ → Prop} {g : Span → τ} (h : Tiling start stop spans)
    (hg : ∀ span : Span, span.start ≤ span.stop → span.stop ≤ stop → P (g span)) :
    ∀ x ∈ spans.map g, P x := by
  intro x hx
  obtain ⟨span, hmem, rfl⟩ := List.mem_map.mp hx
  obtain ⟨-, hle, hstop⟩ := h.bounds hmem
  exact hg span hle hstop

theorem append {more : List Span} (h : Tiling start middle spans) (hmore : Tiling middle stop more) :
    Tiling start stop (spans ++ more) := by
  induction h with
  | nil => exact hmore
  | cons hle _ ih => exact .cons hle (ih hmore)

/-- The positions of the spans, one span after another, are all positions in order. -/
theorem flatMap_positions (h : Tiling start stop spans) :
    spans.flatMap Span.positions = List.range' start (stop - start) := by
  induction h with
  | nil => simp
  | @cons start middle stop rest hle hrest ih =>
    have hmiddle := hrest.le
    rw [List.flatMap_cons, ih, Span.positions, Span.length]
    -- The positions of the first span are followed by those from its end on.
    change List.range' start (middle - start) ++ _ = _
    rw [show stop - start = (middle - start) + (stop - middle) by omega, ← List.range'_append_1,
      Nat.add_sub_cancel' hle]

/-- Cuts that do not decrease give a tiling. -/
theorem ofCuts {cut : Nat → Nat} (n : Nat) (h : ∀ i, i < n → cut i ≤ cut (i + 1)) :
    Tiling (cut 0) (cut n) ((List.range n).map fun i => ⟨cut i, cut (i + 1)⟩) := by
  induction n with
  | zero => exact .nil _
  | succ n ih =>
    -- The last span is split off, so that the cuts keep their numbers.
    rw [List.range_succ, List.map_append]
    exact (ih fun i hi => h i (by omega)).append (.cons (h n (by omega)) (.nil _))

end Tiling

/-! ## §2 Even partitions -/

/-- The shares of all workers, of whom there is at least one. -/
def evenSpans (items count : Nat) : List Span :=
  (List.range (max count 1)).map fun index => evenSpan items index (max count 1)

theorem Partition.slices_even (items count : Nat) :
    (Partition.even items count).slices = (evenSpans items count).map Slice.ofSpan := by
  simp [Partition.even, evenSpans]

theorem map_toSpan_ofSpan (spans : List Span) :
    (spans.map Slice.ofSpan).map (·.toSpan) = spans := by
  rw [List.map_map]
  exact List.map_id _

theorem Partition.toElements_slices {chunks : Partition} {spans : List Span} (length : Nat)
    (h : chunks.slices = spans.map Slice.ofSpan) :
    (chunks.toElements length).slices =
      (spans.map (Span.ofChunks · length)).map Slice.ofSpan := by
  simp [Partition.toElements, h, Slice.ofSpan]

theorem tiling_evenSpans (items count : Nat) : Tiling 0 items (evenSpans items count) := by
  have hpos : 0 < max count 1 := by omega
  rw [evenSpans]
  generalize max count 1 = workers at hpos ⊢
  -- The cut in front of each share; behind the last one it is the end of the domain.
  let cut (i : Nat) := if i = workers then items else items / workers * i
  have hspan : ∀ i, i < workers → evenSpan items i workers = ⟨cut i, cut (i + 1)⟩ := by
    intro i hi
    have hlast : (i = workers - 1) = (i + 1 = workers) := by
      apply propext
      omega
    simp only [evenSpan, cut, if_neg (Nat.ne_of_lt hi), hlast]
  have hcut : ∀ i, i < workers → cut i ≤ cut (i + 1) := by
    intro i hi
    simp only [cut, if_neg (Nat.ne_of_lt hi)]
    split
    · -- The last share also takes what the division leaves.
      calc items / workers * i ≤ items / workers * workers := Nat.mul_le_mul_left _ (Nat.le_of_lt hi)
        _ ≤ items := Nat.div_mul_le_self ..
    · exact Nat.mul_le_mul_left _ (Nat.le_succ i)
  have htiling := Tiling.ofCuts workers hcut
  have hfirst : cut 0 = 0 := by simp [cut, Nat.ne_of_lt hpos]
  have hlast : cut workers = items := if_pos rfl
  rw [hfirst, hlast] at htiling
  rwa [List.map_congr_left fun i hi => hspan i (List.mem_range.mp hi)]

/-- The share of the first worker begins the domain, and is not empty if every worker has a unit. -/
theorem evenSpans_eq_cons {items count : Nat} (hpos : 0 < count) (hle : count ≤ items) :
    ∃ stop rest, evenSpans items count = ⟨0, stop⟩ :: rest ∧ 0 < stop := by
  obtain ⟨n, rfl⟩ := Nat.exists_eq_succ_of_ne_zero (Nat.pos_iff_ne_zero.mp hpos)
  have hmax : max (n + 1) 1 = n + 1 := by omega
  have hwidth : 0 < items / (n + 1) := Nat.div_pos hle hpos
  have hspans : evenSpans items (n + 1) = evenSpan items 0 (n + 1) ::
      ((List.range n).map Nat.succ).map fun index => evenSpan items index (n + 1) := by
    rw [evenSpans, hmax, List.range_succ_eq_map, List.map_cons]
  refine ⟨_, _, hspans, ?_⟩
  split <;> omega

/-- A slice lies within a domain, and its worker stands within the slice. -/
structure Slice.Within (slice : Slice) (limit : Nat) : Prop where
  start_le : slice.start ≤ slice.pos
  pos_le : slice.pos ≤ slice.stop
  stop_le : slice.stop ≤ limit

theorem Tiling.within {start limit : Nat} {spans : List Span} (h : Tiling start limit spans) :
    ∀ slice ∈ spans.map Slice.ofSpan, slice.Within limit :=
  h.forall_map fun _ hle hstop => ⟨Nat.le_refl _, hle, hstop⟩

theorem Partition.within_of_even {items count : Nat} {slice : Slice}
    (h : slice ∈ (Partition.even items count).slices) : slice.Within items := by
  rw [Partition.slices_even] at h
  exact (tiling_evenSpans items count).within slice h

/-! ## §3 Chunks and elements -/

theorem chunkCount_mul_chunkSize_ge (length : Nat) : length ≤ chunkCount length * chunkSize := by
  simp only [chunkCount, chunkSize]
  omega

/-- Every chunk of a domain has a first element, and lies within the domain. -/
theorem ofChunk_bounds {chunk length : Nat} (h : chunk < chunkCount length) :
    (Span.ofChunk chunk length).start < length ∧
      (Span.ofChunk chunk length).start ≤ (Span.ofChunk chunk length).stop ∧
      (Span.ofChunk chunk length).stop ≤ length := by
  simp only [chunkCount, chunkSize, Span.ofChunk] at *
  omega

theorem length_ofChunk_le (chunk length : Nat) :
    (Span.ofChunk chunk length).length ≤ chunkSize := by
  simp only [Span.length, Span.ofChunk]
  omega

/-- The elements of slices of chunks that follow each other do so too. -/
theorem Tiling.ofChunks {start stop : Nat} {spans : List Span} (length : Nat)
    (h : Tiling start stop spans) :
    Tiling (min (start * chunkSize) length) (min (stop * chunkSize) length)
      (spans.map (Span.ofChunks · length)) := by
  induction h with
  | nil => exact .nil _
  | @cons start middle _ _ hle _ ih =>
    have hmul := Nat.mul_le_mul_right chunkSize hle
    exact .cons (show min (start * chunkSize) length ≤ min (middle * chunkSize) length by omega) ih

/-- The elements of slices of all chunks cover the domain. -/
theorem Tiling.ofAllChunks {length : Nat} {spans : List Span}
    (h : Tiling 0 (chunkCount length) spans) :
    Tiling 0 length (spans.map (Span.ofChunks · length)) := by
  have helements := h.ofChunks length
  rwa [Nat.zero_mul, Nat.zero_min,
    Nat.min_eq_right (chunkCount_mul_chunkSize_ge length)] at helements

/-- The elements of slices of all chunks, one slice after another, are all elements. -/
theorem Tiling.flatMap_elements {length : Nat} {spans : List Span}
    (h : Tiling 0 (chunkCount length) spans) :
    (spans.flatMap fun chunks => (Span.ofChunks chunks length).positions) = List.range length := by
  have hpositions := h.ofAllChunks.flatMap_positions
  rwa [List.flatMap_map, Nat.sub_zero, ← List.range_eq_range'] at hpositions

theorem tiling_ofChunks (length count : Nat) :
    Tiling 0 length ((evenSpans (chunkCount length) count).map (Span.ofChunks · length)) :=
  (tiling_evenSpans (chunkCount length) count).ofAllChunks

theorem Partition.within_of_toElements {length count : Nat} {slice : Slice}
    (h : slice ∈ ((Partition.even (chunkCount length) count).toElements length).slices) :
    slice.Within length := by
  rw [Partition.toElements_slices length (Partition.slices_even ..)] at h
  exact (tiling_ofChunks length count).within slice h

/-- The elements of a run of chunks are those of its chunks, one chunk after another. -/
theorem flatMap_positions_ofChunk (chunks : Span) (length : Nat) :
    (chunks.positions.flatMap fun chunk => (Span.ofChunk chunk length).positions) =
      (Span.ofChunks chunks length).positions := by
  obtain ⟨start, stop⟩ := chunks
  simp only [Span.positions, Span.length, Span.ofChunk, Span.ofChunks]
  -- By induction on the number of chunks, the first of which is split off.
  generalize hn : stop - start = n
  induction n generalizing start with
  | zero =>
    have hmul := Nat.mul_le_mul_right chunkSize (show stop ≤ start by omega)
    rw [show min (stop * chunkSize) length - min (start * chunkSize) length = 0 by omega]
    simp
  | succ n ih =>
    have hmul := Nat.mul_le_mul_right chunkSize (show start + 1 ≤ stop by omega)
    rw [Nat.add_mul, Nat.one_mul] at hmul
    rw [List.range'_succ, List.flatMap_cons, ih (start + 1) (by omega), Nat.add_mul, Nat.one_mul]
    by_cases hend : start * chunkSize + chunkSize ≤ length
    · -- A full chunk: the rest begins where it ends.
      rw [Nat.min_eq_left hend, Nat.min_eq_left (by omega : start * chunkSize ≤ length),
        Nat.add_sub_cancel_left,
        show min (stop * chunkSize) length - start * chunkSize =
          chunkSize + (min (stop * chunkSize) length - (start * chunkSize + chunkSize)) by omega,
        ← List.range'_append_1]
    · -- The domain ends inside this chunk or before it.
      have hstop : min (stop * chunkSize) length = length := by omega
      rw [hstop, Nat.min_eq_right (by omega : length ≤ start * chunkSize + chunkSize), Nat.sub_self]
      by_cases hstart : start * chunkSize ≤ length
      · rw [Nat.min_eq_left hstart]
        simp
      · rw [Nat.min_eq_right (by omega : length ≤ start * chunkSize),
          show length - start * chunkSize = 0 by omega]
        simp

/-- The elements of all chunks are all elements. -/
theorem flatMap_positions_range_chunkCount (length : Nat) :
    ((List.range (chunkCount length)).flatMap fun chunk =>
      (Span.ofChunk chunk length).positions) = List.range length := by
  have hwhole : Tiling 0 (chunkCount length) [⟨0, chunkCount length⟩] :=
    .cons (Nat.zero_le _) (.nil _)
  have helements := hwhole.flatMap_elements
  rw [List.flatMap_singleton, ← flatMap_positions_ofChunk] at helements
  rwa [List.range_eq_range']

/-! ## §4 Windows -/

section Windows

variable {β : Type} {start stop : Nat} {spans : List Span}

theorem joinArrays_cons (part : Array β) (rest : List (Array β)) :
    joinArrays (part :: rest) = part ++ joinArrays rest := by
  apply Array.ext'
  simp

/-- There is a window for every span. -/
theorem length_of_splitWindows {cells : Array β} {windows : List (Array β)}
    (h : splitWindows cells spans = .ok windows) : windows.length = spans.length := by
  rw [splitWindows] at h
  -- The windows may begin anywhere, for the induction.
  generalize 0 = next at h
  induction spans generalizing next windows with
  | nil =>
    cases h
    rfl
  | cons span rest ih =>
    obtain ⟨-, -, h⟩ := Fault.bind_eq_ok.mp h
    obtain ⟨width, -, h⟩ := Fault.bind_eq_ok.mp h
    obtain ⟨window, -, h⟩ := Fault.bind_eq_ok.mp h
    obtain ⟨others, hothers, h⟩ := Fault.bind_eq_ok.mp h
    cases h
    rw [List.length_cons, List.length_cons, ih _ hothers]

/-- Windows along a tiling join to what the tiling covers. -/
theorem joinArrays_extract (h : Tiling start stop spans) (cells : Array β) :
    joinArrays (spans.map fun span => cells.extract span.start span.stop) =
      cells.extract start stop := by
  induction h with
  | nil start => exact (Array.extract_empty_of_stop_le_start (Nat.le_refl start)).symm
  | @cons start middle stop rest hle hrest ih =>
    rw [List.map_cons, joinArrays_cons, ih, Array.extract_append_extract, Nat.min_eq_left hle,
      Nat.max_eq_right hrest.le]

theorem splitWindowsFrom_joinArrays {part : Span → Array β} (h : Tiling start stop spans)
    (hsize : ∀ span ∈ spans, (part span).size = span.length) (before : Array β)
    (hbefore : before.size = start) :
    splitWindowsFrom (before ++ joinArrays (spans.map part)) start spans =
      .ok (spans.map part) := by
  -- The walk over the windows moves on, so what lies before them grows by one part each time.
  induction h generalizing before with
  | nil => rfl
  | @cons start middle stop rest hle hrest ih =>
    have hpart := hsize _ (List.mem_cons_self ..)
    have hrestSize := fun span hmem => hsize span (List.mem_cons_of_mem _ hmem)
    simp only [Span.length] at hpart
    have hnext := ih hrestSize (before ++ part ⟨start, middle⟩) (by simp [hbefore, hpart]; omega)
    rw [Array.append_assoc] at hnext
    -- The first window is the part that follows what lies before it.
    have hwindow : Fault.checkedExtract
        (before ++ (part ⟨start, middle⟩ ++ joinArrays (rest.map part))) start middle =
          .ok (part ⟨start, middle⟩) := by
      generalize part ⟨start, middle⟩ = first at hpart
      obtain rfl : middle = before.size + first.size := by omega
      rw [Fault.checkedExtract, if_pos ⟨hle, by simp⟩, ← hbefore, Array.extract_append_right,
        Array.extract_append_left, Array.extract_size]
    rw [List.map_cons, joinArrays_cons, splitWindowsFrom]
    simp [Fault.require, Fault.checkedSub, hle, hwindow, hnext]

/-- Parts of the right sizes are the windows of what they join to. -/
theorem splitWindows_joinArrays {part : Span → Array β} (h : Tiling 0 stop spans)
    (hsize : ∀ span ∈ spans, (part span).size = span.length) :
    splitWindows (joinArrays (spans.map part)) spans = .ok (spans.map part) := by
  have hsplit := splitWindowsFrom_joinArrays h hsize #[] rfl
  rwa [Array.empty_append] at hsplit

/-- The windows of a sequence along a tiling of it. -/
theorem splitWindows_eq {cells : Array β} (h : Tiling 0 cells.size spans) :
    splitWindows cells spans =
      .ok (spans.map fun span => cells.extract span.start span.stop) := by
  have hsize : ∀ span ∈ spans, (cells.extract span.start span.stop).size = span.length := by
    intro span hmem
    have hbounds := h.bounds hmem
    simp [Span.length]
    omega
  -- The sequence is what its own windows join to.
  have hjoin := joinArrays_extract h cells
  rw [Array.extract_size] at hjoin
  have hsplit := splitWindows_joinArrays h hsize
  rwa [hjoin] at hsplit

/-- The values in the windows of all workers. -/
def sliceWindows (cells : Array β) (count : Nat) : List (List β) :=
  ((evenSpans (chunkCount cells.size) count).map (Span.ofChunks · cells.size)).map fun span =>
    (cells.extract span.start span.stop).toList

theorem flatten_sliceWindows (cells : Array β) (count : Nat) :
    (sliceWindows cells count).flatten = cells.toList := by
  have hjoin := congrArg Array.toList (joinArrays_extract (tiling_ofChunks cells.size count) cells)
  rw [toList_joinArrays, Array.extract_size, List.map_map] at hjoin
  exact hjoin

/-- If every worker has a chunk, the first window is not empty. It holds the elements of the first
slice. -/
theorem sliceWindows_eq_cons {cells : Array β} {count : Nat} (hpos : 0 < count)
    (hle : count ≤ chunkCount cells.size) :
    ∃ first rest slice, sliceWindows cells count = first :: rest ∧ first ≠ [] ∧
      ((Partition.even (chunkCount cells.size) count).toElements cells.size).slices.head? =
        some slice ∧ slice.length = first.length := by
  obtain ⟨stop, rest, hspans, hstop⟩ := evenSpans_eq_cons hpos hle
  have hslices := Partition.toElements_slices cells.size
    (Partition.slices_even (chunkCount cells.size) count)
  -- Both begin with the elements of the first chunks.
  have hwindow : (cells.extract (min (0 * chunkSize) cells.size)
      (min (stop * chunkSize) cells.size)).toList.length = min (stop * chunkSize) cells.size := by
    rw [Array.length_toList, Array.size_extract]
    omega
  refine ⟨_, _, _, by rw [sliceWindows, hspans, List.map_cons, List.map_cons], ?_,
    by rw [hslices, hspans, List.map_cons, List.map_cons, List.head?_cons], ?_⟩
  · refine List.ne_nil_of_length_pos ?_
    simp only [Span.ofChunks, hwindow]
    simp only [chunkCount, chunkSize] at hle ⊢
    omega
  · simp only [Span.ofChunks, hwindow]
    simp [Slice.ofSpan, Span.length]

end Windows

end ForkJoin
