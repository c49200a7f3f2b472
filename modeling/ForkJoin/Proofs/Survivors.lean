import ForkJoin.Operation.Filter
import ForkJoin.Proofs.Words
import Mathlib.Data.List.Basic

/-!
# Survivors of consecutive chunks

The words of consecutive chunks hold one bit for each of the positions from the first chunk on.
Reading the words back names the positions whose bit is set: what a word names lies in its own
chunk, so the order within the words and the order of the words make up one ascending list. The
list is as long as all words have bits set.

All of this needs chunks that can be addressed. Behind the last one the addresses begin again, and a
position is named that belongs to another chunk; only the length of the list stays the same.

## Main definitions
- `verdictAt`: the bit that stands for a position.

## Main statements
- `survivorIndices_eq_filter`: the words name the positions whose bit is set.
- `length_survivorIndices`: how many survivors there are.
- `Survivors.indices_name_set_bits`: all of it, for the verdicts of one worker.
-/

namespace ForkJoin

variable {firstChunk : Nat} {words : List Word}

/-! ## §1 Positions -/

/-- The bit that stands for a position in the words of the chunks from `firstChunk` on. -/
def verdictAt (firstChunk : Nat) (words : List Word) (position : Nat) : Bool :=
  words[position / chunkSize - firstChunk]?.any (·.getLsbD (position % chunkSize))

/-- The positions in the chunks from `firstChunk` on, one chunk for each word. -/
def wordPositions (firstChunk : Nat) (words : List Word) : List Nat :=
  List.range' (firstChunk * chunkSize) (words.length * chunkSize)

theorem survivorIndices_cons (firstChunk : Nat) (word : Word) (rest : List Word) :
    survivorIndices firstChunk (word :: rest) =
      word.setBits.map (wrapChunk firstChunk * chunkSize + ·) ++
        survivorIndices (firstChunk + 1) rest := by
  rw [survivorIndices, List.zipIdx_cons, List.flatMap_cons]
  rfl

/-- The positions in the first chunk come before those in the others. -/
theorem wordPositions_cons (firstChunk : Nat) (word : Word) (rest : List Word) :
    wordPositions firstChunk (word :: rest) =
      (List.range chunkSize).map (firstChunk * chunkSize + ·) ++
        wordPositions (firstChunk + 1) rest := by
  rw [wordPositions, wordPositions, List.length_cons, Nat.succ_mul, Nat.add_comm,
    ← List.range'_append_1, ← List.range'_eq_map_range, Nat.succ_mul]

theorem mem_wordPositions_iff {position : Nat} :
    position ∈ wordPositions firstChunk words ↔
      firstChunk ≤ position / chunkSize ∧ position / chunkSize - firstChunk < words.length := by
  rw [wordPositions, List.mem_range'_1]
  simp only [chunkSize]
  omega

/-- The words name the positions whose bit is set, in chunks that can be addressed. -/
theorem survivorIndices_eq_filter (h : firstChunk + words.length ≤ chunkLimit) :
    survivorIndices firstChunk words =
      (wordPositions firstChunk words).filter (verdictAt firstChunk words) := by
  induction words generalizing firstChunk with
  | nil => rfl
  | cons word rest ih =>
    rw [List.length_cons] at h
    have hchunk : wrapChunk firstChunk = firstChunk := wrapChunk_of_lt (by omega)
    -- In the first chunk the verdicts are the bits of the first word,
    have hfirst : (List.range chunkSize).filter
        (verdictAt firstChunk (word :: rest) ∘ (firstChunk * chunkSize + ·)) =
          (List.range chunkSize).filter word.getLsbD := by
      apply List.filter_congr
      intro bit hbit
      have hlt := List.mem_range.mp hbit
      have hposition : (firstChunk * chunkSize + bit) / chunkSize = firstChunk ∧
          (firstChunk * chunkSize + bit) % chunkSize = bit := by
        simp only [chunkSize] at *
        omega
      simp [verdictAt, hposition]
    -- and behind it they are those of the other words.
    have hbehind : (wordPositions (firstChunk + 1) rest).filter
        (verdictAt firstChunk (word :: rest)) =
          (wordPositions (firstChunk + 1) rest).filter (verdictAt (firstChunk + 1) rest) := by
      apply List.filter_congr
      intro position hposition
      obtain ⟨hle, -⟩ := mem_wordPositions_iff.mp hposition
      have hchunk : position / chunkSize - firstChunk =
          position / chunkSize - (firstChunk + 1) + 1 := by omega
      rw [verdictAt, verdictAt, hchunk, List.getElem?_cons_succ]
    rw [survivorIndices_cons, hchunk, wordPositions_cons, List.filter_append, List.filter_map,
      hfirst, hbehind, ih (by omega), Word.setBits_eq_filter]

theorem pairwise_survivorIndices (h : firstChunk + words.length ≤ chunkLimit) :
    (survivorIndices firstChunk words).Pairwise (· < ·) := by
  rw [survivorIndices_eq_filter h]
  exact List.Pairwise.filter _ (List.pairwise_lt_range' ..)

/-- A position survives if its chunk has a word in which its bit is set. -/
theorem mem_survivorIndices_iff (h : firstChunk + words.length ≤ chunkLimit) {position : Nat} :
    position ∈ survivorIndices firstChunk words ↔
      firstChunk ≤ position / chunkSize ∧
        ∃ word, words[position / chunkSize - firstChunk]? = some word ∧
          word.getLsbD (position % chunkSize) = true := by
  rw [survivorIndices_eq_filter h, List.mem_filter, mem_wordPositions_iff, verdictAt,
    Option.any_eq_true]
  constructor
  · rintro ⟨⟨hle, -⟩, hverdict⟩
    exact ⟨hle, hverdict⟩
  · rintro ⟨hle, word, hword, hbit⟩
    -- A chunk that has a word is one of those that the words belong to.
    obtain ⟨hlt, -⟩ := List.getElem?_eq_some_iff.mp hword
    exact ⟨⟨hle, hlt⟩, word, hword, hbit⟩

/-- There are as many survivors as the words have bits set, whatever chunks they are in. -/
theorem length_survivorIndices (firstChunk : Nat) (words : List Word) :
    (survivorIndices firstChunk words).length = (words.map Word.bitCount).sum := by
  induction words generalizing firstChunk with
  | nil => rfl
  | cons word rest ih =>
    rw [survivorIndices_cons, List.length_append, List.length_map, ih, ← Word.bitCount_eq_length,
      List.map_cons, List.sum_cons]

/-! ## §2 The verdicts of a worker -/

namespace Survivors

/-- **The words name their set bits.** Naming and clearing the lowest set bit of a word comes to an
end after as many rounds as bits are set, and there are as many indices as all words have bits set. If
the chunks of the words can be addressed the indices ascend strictly, and there is an index among them
exactly if its chunk has a word and its bit is set in that word. -/
theorem indices_name_set_bits (survivors : Survivors) :
    (∀ word ∈ survivors.words, ∀ rounds,
      Word.clearLowest^[rounds] word = 0 ↔ word.bitCount ≤ rounds) ∧
    survivors.indices.length = (survivors.words.toList.map Word.bitCount).sum ∧
    (survivors.firstChunk + survivors.words.size ≤ 2 ^ 59 →
      survivors.indices.Pairwise (· < ·) ∧
      ∀ index, index ∈ survivors.indices ↔
        survivors.firstChunk ≤ index / 32 ∧
          ∃ word, survivors.words[index / 32 - survivors.firstChunk]? = some word ∧
            word.getLsbD (index % 32) = true) := by
  refine ⟨?rounds, length_survivorIndices .., fun hchunks => ⟨?order, fun index => ?_⟩⟩
  case rounds => exact fun word _ rounds => Word.iterate_clearLowest_eq_zero_iff word rounds
  case order => exact pairwise_survivorIndices hchunks
  -- The words of a list and of an array are looked up alike.
  rw [← Array.getElem?_toList]
  exact mem_survivorIndices_iff hchunks

/-- Two bits are set in the word of the chunk before the last one of all, and the highest one in that
of the last. -/
theorem indices_name_set_bits_last :
    let survivors : Survivors :=
      { firstChunk := 2 ^ 59 - 2, words := #[0b101, 0x80000000], count := 3 }
    survivors.firstChunk + survivors.words.size ≤ 2 ^ 59 ∧ Word.clearLowest^[2] 0b101 = 0 ∧
      survivors.indices.Pairwise (· < ·) ∧ 2 ^ 64 - 1 ∈ survivors.indices ∧
      2 ^ 64 - 63 ∉ survivors.indices ∧ survivors.indices.length = 3 := by
  intro survivors
  have hchunks : survivors.firstChunk + survivors.words.size ≤ 2 ^ 59 := by decide
  obtain ⟨hrounds, hlength, hnamed⟩ := indices_name_set_bits survivors
  obtain ⟨horder, hmem⟩ := hnamed hchunks
  -- The words are those of the last two chunks of the address space.
  refine ⟨hchunks, ?_, horder, ?_, ?_, ?_⟩
  · exact (hrounds 0b101 (by simp [survivors]) 2).mpr (by decide)
  · exact (hmem _).mpr ⟨by decide, 0x80000000, by decide, by decide⟩
  · rw [hmem]
    rintro ⟨-, word, hword, hbit⟩
    obtain rfl : 0b101 = word := Option.some.inj hword
    exact absurd hbit (by decide)
  · rw [hlength]
    decide

/-- One chunk further on the second word names the first position of all, which its chunk does not
have, behind one that is larger. -/
theorem indices_begin_again :
    let survivors : Survivors := { firstChunk := 2 ^ 59 - 1, words := #[1, 1], count := 2 }
    survivors.indices = [2 ^ 64 - 32, 0] ∧ ¬ survivors.indices.Pairwise (· < ·) ∧
      0 ∈ survivors.indices ∧ ¬ survivors.firstChunk ≤ 0 / 32 := by
  intro survivors
  have hindices : survivors.indices = [2 ^ 64 - 32, 0] := by
    rw [indices, survivorIndices_cons, survivorIndices_cons, Word.setBits_eq_filter]
    decide
  rw [hindices]
  decide

end Survivors

end ForkJoin
