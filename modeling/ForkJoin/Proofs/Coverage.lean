import ForkJoin.Partition.Address
import ForkJoin.Proofs.Tiling

/-!
# Coverage

Every unit of a domain belongs to one slice, and every element to one chunk. In addresses this holds
for all domains that end at least one chunk before the limit. The last chunk of a longer domain ends
behind the last address, where addresses begin again at zero: its slice is given an end in front of
its start, and the elements of that slice belong to nobody.

## Main statements
- `length_evenSpan`: the widths of the shares.
- `Partition.toAddresses_even`: in addresses nothing is lost below the limit.
- `Partition.tiling_toAddresses_iff`: which domains are covered in addresses.
- `Partition.slices_cover_domain`: slices and chunks cover a domain without a gap or an overlap.
-/

namespace ForkJoin

variable {length count : Nat}

/-! ## §1 Shares -/

/-- All shares have the same width but the last one, which takes the remainder as well. -/
theorem length_evenSpan {items index : Nat} (hindex : index < count) :
    (evenSpan items index count).length =
      if index + 1 = count then items - items / count * index else items / count := by
  have hlast : index = count - 1 ↔ index + 1 = count := by omega
  simp only [evenSpan, Span.length, hlast]
  split
  · rfl
  · rw [Nat.mul_succ, Nat.add_sub_cancel_left]

theorem length_evenSpans (items : Nat) (hcount : 1 ≤ count) :
    (evenSpans items count).length = count := by
  rw [evenSpans, List.length_map, List.length_range, Nat.max_eq_left hcount]

theorem getElem?_evenSpans (items : Nat) {index : Nat} (hindex : index < count) :
    (evenSpans items count)[index]? = some (evenSpan items index count) := by
  rw [evenSpans, Nat.max_eq_left (Nat.one_le_of_lt hindex), List.getElem?_map,
    List.getElem?_range hindex, Option.map_some]

theorem pos_of_mem_ofSpan {spans : List Span} {slice : Slice}
    (h : slice ∈ spans.map Slice.ofSpan) : slice.pos = slice.start := by
  obtain ⟨span, -, rfl⟩ := List.mem_map.mp h
  rfl

/-- The last span of a tiling ends where the tiling does. -/
theorem Tiling.stop_of_getLast? {start stop : Nat} {spans : List Span} {last : Span}
    (h : Tiling start stop spans) (hlast : spans.getLast? = some last) : last.stop = stop := by
  induction h with
  | nil => cases hlast
  | @cons start middle stop rest _ hrest ih =>
    rw [List.getLast?_cons] at hlast
    cases hrest' : rest.getLast? with
    | none =>
      -- The only span ends where the rest, which is nothing, begins and ends.
      rw [hrest', Option.getD_none, Option.some.injEq] at hlast
      obtain rfl := List.getLast?_eq_none_iff.mp hrest'
      cases hrest
      rw [← hlast]
    | some other =>
      rw [hrest', Option.getD_some] at hlast
      exact ih (hrest'.trans hlast)

/-! ## §2 Chunks -/

/-- All chunks of a domain have the same size but the last one, which may be short. -/
theorem length_ofChunk_of_lt {chunk : Nat} (h : chunk + 1 < chunkCount length) :
    (Span.ofChunk chunk length).length = chunkSize := by
  simp only [chunkCount, chunkSize, Span.ofChunk, Span.length] at *
  omega

/-! ## §3 Addresses -/

/-- Every chunk number of a domain that ends a chunk before the limit is below the limit. -/
theorem lt_chunkLimit_of_mem_even (h : length + chunkSize ≤ addressLimit) {slice : Slice}
    (hmem : slice ∈ (Partition.even (chunkCount length) count).slices) :
    slice.start < chunkLimit ∧ slice.stop < chunkLimit := by
  obtain ⟨hstart, hpos, hstop⟩ := Partition.within_of_even hmem
  have hlimit := chunkCount_lt_chunkLimit h
  omega

/-- The slices of such a domain lose nothing in addresses. -/
theorem Partition.toAddresses_even (h : length + chunkSize ≤ addressLimit) :
    (Partition.even (chunkCount length) count).toAddresses length =
      (Partition.even (chunkCount length) count).toElements length :=
  Partition.toAddresses_eq length fun _ hmem => lt_chunkLimit_of_mem_even h hmem

theorem Partition.toAddresses_slices {chunks : Partition} {spans : List Span} (length : Nat)
    (h : chunks.slices = spans.map Slice.ofSpan) :
    (chunks.toAddresses length).slices.map (·.toSpan) =
      spans.map (fun span => Span.ofChunks span.wrapChunks length) := by
  simp [Partition.toAddresses, h, Slice.ofSpan, Slice.addresses]

/-- The chunks of a longer domain use up the address space. The number behind the last one wraps to
zero, and so the last slice ends at the first address. -/
theorem exists_last_stop_eq_zero (count : Nat) (hlength : length < addressLimit)
    (hlimit : addressLimit < length + chunkSize) :
    ∃ last, (evenSpans (chunkCount length) count).getLast? = some last ∧
      (Span.ofChunks last.wrapChunks length).stop = 0 := by
  -- Such a domain needs every chunk of the address space, and the end of the last one is wrapped.
  have hchunks : chunkCount length = chunkLimit := by
    simp only [chunkCount, chunkLimit, addressLimit, chunkSize] at *
    omega
  have hne : evenSpans (chunkCount length) count ≠ [] := by simp [evenSpans]
  have hlast := List.getLast?_eq_some_getLast hne
  generalize (evenSpans (chunkCount length) count).getLast hne = last at hlast
  have hstop := (tiling_evenSpans (chunkCount length) count).stop_of_getLast? hlast
  refine ⟨last, hlast, ?_⟩
  simp [Span.ofChunks, Span.wrapChunks, wrapChunk, hstop, hchunks]

/-- The slices cover a domain in addresses exactly if it ends a chunk before the limit. -/
theorem Partition.tiling_toAddresses_iff (count : Nat) (hlength : length < addressLimit) :
    Tiling 0 length (((Partition.even (chunkCount length) count).toAddresses length).slices.map
      (·.toSpan)) ↔ length + chunkSize ≤ addressLimit := by
  constructor
  · intro htiling
    by_contra hlimit
    obtain ⟨last, hlast, hwrap⟩ :=
      exists_last_stop_eq_zero count hlength (Nat.lt_of_not_le hlimit)
    rw [Partition.toAddresses_slices length (Partition.slices_even ..)] at htiling
    have haddresses : ((evenSpans (chunkCount length) count).map
        fun span => Span.ofChunks span.wrapChunks length).getLast? =
          some (Span.ofChunks last.wrapChunks length) := by
      rw [List.getLast?_map, hlast, Option.map_some]
    -- The last slice ends at the first address and not at the end of the domain.
    have hend := htiling.stop_of_getLast? haddresses
    simp only [addressLimit, chunkSize] at hlimit
    omega
  · intro hlimit
    rw [Partition.toAddresses_even hlimit,
      Partition.toElements_slices length (Partition.slices_even ..), map_toSpan_ofSpan]
    exact tiling_ofChunks length count

/-! ## §4 Domains -/

/-- The chunks of a slice have the addresses of the slice, one chunk after another. -/
theorem flatMap_chunkAddresses (h : length + chunkSize ≤ addressLimit) {slice : Slice}
    (hmem : slice ∈ (Partition.even (chunkCount length) count).slices) :
    (slice.positions.flatMap fun chunk => (chunkAddresses chunk length).positions) =
      (slice.addresses length).positions := by
  obtain ⟨hstart, hstop⟩ := lt_chunkLimit_of_mem_even h hmem
  have hchunk : ∀ chunk ∈ slice.positions,
      (chunkAddresses chunk length).positions = (Span.ofChunk chunk length).positions := by
    intro chunk hchunk
    -- The chunk behind is below the limit as well, so the end of this one is kept.
    have hlt : chunk + 1 ≤ slice.stop := by
      simp only [Span.positions, Span.length, List.mem_range'_1] at hchunk
      omega
    rw [chunkAddresses_eq length (Nat.lt_of_le_of_lt hlt hstop)]
  rw [List.flatMap_congr hchunk, flatMap_positions_ofChunk, Slice.addresses_eq length hstart hstop]

/-- A chunk of a domain has an address and no more than fit into a chunk. -/
theorem length_chunkAddresses (h : length + chunkSize ≤ addressLimit) {chunk : Nat}
    (hchunk : chunk < chunkCount length) :
    0 < (chunkAddresses chunk length).length ∧
      (chunkAddresses chunk length).length ≤ chunkSize ∧
      (chunk + 1 < chunkCount length → (chunkAddresses chunk length).length = chunkSize) := by
  rw [chunkAddresses_eq length (Nat.lt_of_le_of_lt hchunk (chunkCount_lt_chunkLimit h))]
  refine ⟨?_, length_ofChunk_le chunk length, length_ofChunk_of_lt⟩
  obtain ⟨hstart, -, -⟩ := ofChunk_bounds hchunk
  simp only [Span.ofChunk, Span.length, chunkSize] at *
  omega

/-- **Slices and chunks cover a domain.** The shares of all workers follow each other through the
units, begin where nothing is processed, and are equally wide but for the last one. In addresses the
slices of chunks follow each other through the domain exactly if it ends at least a chunk before the
limit of addresses. The chunks of a slice then make up the slice, and all chunks are full but for the
last one, which is not empty. -/
theorem Partition.slices_cover_domain (items length : Nat) (hcount : 1 ≤ count) :
    let shares := (Partition.even items count).slices
    let chunks := Partition.even (chunkCount length) count
    let elements := chunks.toAddresses length
    (shares.length = count ∧ Tiling 0 items (shares.map (·.toSpan)) ∧
      (∀ slice ∈ shares, slice.pos = slice.start) ∧
      ∀ index, index + 1 < count →
        ∃ slice, shares[index]? = some slice ∧ slice.length = items / count) ∧
    (elements.items = length ∧ elements.slices.length = count ∧
      (∀ slice ∈ elements.slices, slice.pos = slice.start) ∧
      (length < addressLimit →
        (Tiling 0 length (elements.slices.map (·.toSpan)) ↔
          length + chunkSize ≤ addressLimit))) ∧
    (length + chunkSize ≤ addressLimit →
      (∀ slice ∈ chunks.slices,
        (slice.positions.flatMap fun chunk => (chunkAddresses chunk length).positions) =
          (slice.addresses length).positions) ∧
      ∀ chunk < chunkCount length,
        0 < (chunkAddresses chunk length).length ∧
        (chunkAddresses chunk length).length ≤ 32 ∧
        (chunk + 1 < chunkCount length → (chunkAddresses chunk length).length = 32)) := by
  intro shares chunks elements
  have hshares : shares = (evenSpans items count).map Slice.ofSpan := Partition.slices_even ..
  -- The shares of items, then the partition of addresses, then single chunks.
  refine ⟨⟨?_, ?_, ?_, ?_⟩, ⟨rfl, ?_, ?_, ?_⟩, fun hlimit => ⟨?_, ?_⟩⟩
  · rw [hshares, List.length_map, length_evenSpans items hcount]
  · rw [hshares, map_toSpan_ofSpan]
    exact tiling_evenSpans items count
  · rw [hshares]
    exact fun slice hmem => pos_of_mem_ofSpan hmem
  · intro index hindex
    have hlt : index < count := Nat.lt_of_succ_lt hindex
    refine ⟨.ofSpan (evenSpan items index count), ?_, ?_⟩
    · rw [hshares, List.getElem?_map, getElem?_evenSpans items hlt, Option.map_some]
    · exact (length_evenSpan hlt).trans (if_neg (Nat.ne_of_lt hindex))
  · have hlength : elements.slices.length = chunks.slices.length := List.length_map ..
    rw [hlength, Partition.slices_even, List.length_map, length_evenSpans _ hcount]
  · intro slice hmem
    obtain ⟨owned, -, rfl⟩ := List.mem_map.mp hmem
    rfl
  · exact fun hlength => Partition.tiling_toAddresses_iff count hlength
  · exact fun slice hmem => flatMap_chunkAddresses hlimit hmem
  · exact fun chunk hchunk => length_chunkAddresses hlimit hchunk

/-- A thousand elements are cut into 32 chunks, of which three workers take ten, ten and twelve. -/
theorem Partition.slices_cover_thousand :
    let elements := (Partition.even (chunkCount 1000) 3).toAddresses 1000
    Tiling 0 1000 (elements.slices.map (·.toSpan)) ∧
      elements.slices = [⟨⟨0, 320⟩, 0⟩, ⟨⟨320, 640⟩, 320⟩, ⟨⟨640, 1000⟩, 640⟩] := by
  obtain ⟨-, ⟨-, -, -, htiling⟩, -⟩ :=
    Partition.slices_cover_domain 32 1000 (show 1 ≤ 3 by decide)
  exact ⟨(htiling (by decide)).mpr (by decide), by decide⟩

/-- The longest domain ends in the last chunk of the address space. A single slice of all its chunks
ends where it starts, and covers nothing. -/
theorem Partition.longest_domain_uncovered :
    let longest := addressLimit - 1
    let elements := (Partition.even (chunkCount longest) 1).toAddresses longest
    elements.slices = [⟨⟨0, 0⟩, 0⟩] ∧ ¬ Tiling 0 longest (elements.slices.map (·.toSpan)) := by
  intro longest elements
  refine ⟨by decide, ?_⟩
  rw [Partition.tiling_toAddresses_iff 1 (show longest < addressLimit by decide)]
  decide

end ForkJoin
