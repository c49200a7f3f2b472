import ForkJoin.Partition.Address

/-!
# Survivors

A filter keeps its verdicts as words, one word per chunk and one bit per element: bit `b` of the
word of a chunk stands for element `b` of it. Afterwards the words are read back: the lowest set
bit of a word names a survivor and is cleared, until the word is zero. The survivor is that many
elements behind the address of its chunk.

## Main definitions
- `Word`: the verdicts on one chunk.
- `Word.setBits`: the positions of the set bits, ascending.
- `Word.bitCount`: their number.
- `survivorIndices`: the survivors of consecutive chunks.
-/

namespace ForkJoin

/-- One bit for each element of a chunk. -/
abbrev Word := BitVec chunkSize

namespace Word

/-- The word in which a bit is set in addition. -/
def setBit (word : Word) (bit : Nat) : Word :=
  word ||| (1 : Word) <<< bit

/-- The number of zeros below the lowest set bit of a word that is not zero. -/
def trailingZeros (n : Nat) : Nat :=
  if n = 0 ∨ n % 2 = 1 then 0 else trailingZeros (n / 2) + 1
termination_by n
decreasing_by omega

/-- The word without its lowest set bit. -/
def clearLowest (word : Word) : Word :=
  word &&& (word - 1)

theorem toNat_pos {word : Word} (h : word ≠ 0) : 0 < word.toNat := by
  apply Nat.pos_of_ne_zero
  intro hzero
  exact h (BitVec.eq_of_toNat_eq (by simpa using hzero))

/-- A word that is not zero has a predecessor. -/
theorem toNat_pred {word : Word} (h : word ≠ 0) : (word - 1).toNat = word.toNat - 1 := by
  have hpos := toNat_pos h
  have hlt := word.isLt
  rw [BitVec.toNat_sub]
  simp [chunkSize] at *
  omega

/-- Clearing the lowest set bit makes a word smaller. -/
theorem toNat_clearLowest_lt {word : Word} (h : word ≠ 0) :
    word.clearLowest.toNat < word.toNat := by
  have hpos := toNat_pos h
  have hle : word.clearLowest.toNat ≤ (word - 1).toNat := by
    simp only [clearLowest, BitVec.toNat_and]
    exact Nat.and_le_right
  rw [toNat_pred h] at hle
  omega

/-- The positions of the set bits, ascending. -/
def setBits (word : Word) : List Nat :=
  if word = 0 then []
  else trailingZeros word.toNat :: setBits word.clearLowest
termination_by word.toNat
decreasing_by exact toNat_clearLowest_lt ‹_›

def bitCount (word : Word) : Nat :=
  (List.range chunkSize).countP fun bit => word.getLsbD bit

end Word

/-- The survivors named by the words of the chunks from `firstChunk` on. Of the address of a chunk 64
bits are kept. -/
def survivorIndices (firstChunk : Nat) (words : List Word) : List Nat :=
  (words.zipIdx firstChunk).flatMap fun (word, chunk) =>
    word.setBits.map fun bit => wrapChunk chunk * chunkSize + bit

end ForkJoin
