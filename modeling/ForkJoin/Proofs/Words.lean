import ForkJoin.Operation.Survivors
import Mathlib.Data.Nat.Bitwise

/-!
# Words of verdicts

Clearing the lowest set bit of a word clears that bit and no other. So the loop that names and
clears the lowest set bit until the word is zero names all set bits, ascending, and there are as
many of them as the word counts.

## Main definitions
- `Word.ofVerdicts`: the word whose bits are the verdicts on the first elements of a chunk.

## Main statements
- `Word.testBit_and_pred`: what clearing the lowest set bit does.
- `Word.setBits_eq_filter`: the loop names the set bits.
- `Word.bitCount_eq_length`: their number is the bit count.
- `Word.iterate_clearLowest_eq_zero_iff`: so is the number of rounds.
- `Word.setBits_ofVerdicts`: the verdicts are read back.
-/

namespace ForkJoin

namespace Word

/-! ## §1 The lowest set bit -/

theorem trailingZeros_odd {n : Nat} (h : n % 2 = 1) : trailingZeros n = 0 := by
  rw [trailingZeros, if_pos (.inr h)]

theorem trailingZeros_even {n : Nat} (hpos : 0 < n) (h : n % 2 = 0) :
    trailingZeros n = trailingZeros (n / 2) + 1 := by
  rw [trailingZeros, if_neg (by omega)]

/-- The bit above the trailing zeros is set, and none below it is. -/
theorem testBit_trailingZeros {n : Nat} (hpos : 0 < n) :
    n.testBit (trailingZeros n) = true ∧ ∀ j < trailingZeros n, n.testBit j = false := by
  induction n using Nat.strongRecOn with
  | ind n ih =>
    rcases Nat.mod_two_eq_zero_or_one n with heven | hodd
    · -- The bits of an even number are those of its half, one place up.
      obtain ⟨hset, hbelow⟩ := ih (n / 2) (by omega) (by omega)
      rw [trailingZeros_even hpos heven, Nat.testBit_succ]
      refine ⟨hset, ?_⟩
      intro j hj
      cases j with
      | zero => simp [Nat.testBit_zero, heven]
      | succ j => rw [Nat.testBit_succ, hbelow j (by omega)]
    · rw [trailingZeros_odd hodd]
      exact ⟨by simp [Nat.testBit_zero, hodd], fun j hj => absurd hj (Nat.not_lt_zero j)⟩

/-- The conjunction with the predecessor clears the lowest set bit. -/
theorem testBit_and_pred {n : Nat} (hpos : 0 < n) (j : Nat) :
    (n &&& (n - 1)).testBit j = (n.testBit j && decide (j ≠ trailingZeros n)) := by
  rw [Nat.testBit_and]
  induction n using Nat.strongRecOn generalizing j with
  | ind n ih =>
    rcases Nat.mod_two_eq_zero_or_one n with heven | hodd
    · -- The predecessor borrows from the half, and has its lowest bit set.
      have hhalf := ih (n / 2) (by omega) (by omega)
      have hpred : (n - 1) / 2 = n / 2 - 1 := by omega
      rw [trailingZeros_even hpos heven]
      cases j with
      | zero => simp [Nat.testBit_zero, heven]
      | succ j => rw [Nat.testBit_succ, Nat.testBit_succ, hpred, hhalf j]; simp
    · -- The predecessor differs in the lowest bit alone.
      have hpred : (n - 1) / 2 = n / 2 := by omega
      have hlow : (n - 1) % 2 = 0 := by omega
      rw [trailingZeros_odd hodd]
      cases j with
      | zero => simp [Nat.testBit_zero, hlow]
      | succ j => rw [Nat.testBit_succ, Nat.testBit_succ, hpred]; simp

/-! ## §2 The loop -/

theorem getLsbD_clearLowest {word : Word} (h : word ≠ 0) (bit : Nat) :
    word.clearLowest.getLsbD bit =
      (word.getLsbD bit && decide (bit ≠ trailingZeros word.toNat)) := by
  have hbits := testBit_and_pred (toNat_pos h) bit
  rw [← toNat_pred h, ← BitVec.toNat_and] at hbits
  exact hbits

theorem range_eq_append {k n : Nat} (h : k ≤ n) :
    List.range n = List.range k ++ List.range' k (n - k) := by
  have happend := List.range'_append_1 (s := 0) (m := k) (n := n - k)
  rw [Nat.zero_add, Nat.add_sub_cancel' h] at happend
  rw [List.range_eq_range', List.range_eq_range', happend]

/-- Of the positions that satisfy a predicate the lowest one comes first. -/
theorem filter_range_eq_cons {p q : Nat → Bool} {n k : Nat} (hk : k < n) (hset : p k = true)
    (hbelow : ∀ j < k, p j = false) (hq : ∀ j, q j = (p j && decide (j ≠ k))) :
    (List.range n).filter p = k :: (List.range n).filter q := by
  have hsplit : List.range n = List.range k ++ k :: List.range' (k + 1) (n - k - 1) := by
    rw [range_eq_append (Nat.le_of_lt hk), ← List.range'_succ, Nat.sub_add_cancel (by omega)]
  -- Below `k` there is nothing, and above it the predicates agree.
  have hp : (List.range k).filter p = [] := by
    apply List.filter_eq_nil_iff.mpr
    intro j hj
    simp [hbelow j (List.mem_range.mp hj)]
  have hq' : (List.range k).filter q = [] := by
    apply List.filter_eq_nil_iff.mpr
    intro j hj
    simp [hq, hbelow j (List.mem_range.mp hj)]
  have habove : (List.range' (k + 1) (n - k - 1)).filter p =
      (List.range' (k + 1) (n - k - 1)).filter q := by
    apply List.filter_congr
    intro j hj
    have hne : j ≠ k := by
      have hge := (List.mem_range'_1.mp hj).1
      omega
    simp [hq, hne]
  have hclear : q k = false := by simp [hq]
  rw [hsplit, List.filter_append, List.filter_append, hp, hq', List.filter_cons_of_pos hset,
    List.filter_cons_of_neg (by simp [hclear]), habove]
  rfl

/-- The loop names the positions of all set bits, ascending. -/
theorem setBits_eq_filter (word : Word) :
    word.setBits = (List.range chunkSize).filter word.getLsbD := by
  induction word using setBits.induct with
  | case1 => simp [setBits]
  | case2 word h ih =>
    -- The loop names the lowest set bit; the word that is left lacks that bit alone.
    obtain ⟨hset, hbelow⟩ := testBit_trailingZeros (toNat_pos h)
    have hlt : trailingZeros word.toNat < chunkSize := by
      by_contra hge
      rw [BitVec.testBit_toNat, BitVec.getLsbD_of_ge _ _ (by omega)] at hset
      cases hset
    rw [setBits, if_neg h, ih]
    exact (filter_range_eq_cons hlt hset hbelow (getLsbD_clearLowest h)).symm

theorem bitCount_eq_length (word : Word) : word.bitCount = word.setBits.length := by
  rw [setBits_eq_filter, bitCount, List.countP_eq_length_filter]

theorem setBits_eq_nil_iff {word : Word} : word.setBits = [] ↔ word = 0 := by
  rw [setBits]
  split <;> simp_all

/-- One round of the loop takes the first position away. A word that is zero stays zero. -/
theorem setBits_clearLowest (word : Word) : word.clearLowest.setBits = word.setBits.tail := by
  by_cases h : word = 0
  · subst h
    simp [clearLowest, setBits]
  · conv_rhs => rw [setBits, if_neg h, List.tail_cons]

theorem setBits_iterate_clearLowest (word : Word) (rounds : Nat) :
    (clearLowest^[rounds] word).setBits = word.setBits.drop rounds := by
  induction rounds with
  | zero => rfl
  | succ rounds ih =>
    rw [Function.iterate_succ_apply', setBits_clearLowest, ih, List.tail_drop]

/-- The loop ends after as many rounds as there are set bits. -/
theorem iterate_clearLowest_eq_zero_iff (word : Word) (rounds : Nat) :
    clearLowest^[rounds] word = 0 ↔ word.bitCount ≤ rounds := by
  rw [← setBits_eq_nil_iff, setBits_iterate_clearLowest, List.drop_eq_nil_iff, bitCount_eq_length]

/-! ## §3 Words of verdicts -/

/-- The word whose bits are the verdicts on the first `n` elements of a chunk. -/
def ofVerdicts (accepts : Nat → Bool) (n : Nat) : Word :=
  (List.range n).foldl (fun word bit => if accepts bit then word.setBit bit else word) 0

theorem ofVerdicts_succ (accepts : Nat → Bool) (n : Nat) :
    ofVerdicts accepts (n + 1) =
      if accepts n then (ofVerdicts accepts n).setBit n else ofVerdicts accepts n := by
  simp [ofVerdicts, List.range_succ]

theorem getLsbD_setBit (word : Word) {bit : Nat} (h : bit < chunkSize) (j : Nat) :
    (word.setBit bit).getLsbD j = (word.getLsbD j || decide (j = bit)) := by
  have hone : ∀ i, (1 : Word).getLsbD i = decide (i = 0) := fun i => by
    simp [chunkSize]
  simp only [setBit, BitVec.getLsbD_or, BitVec.getLsbD_shiftLeft, hone]
  congr 1
  rw [Bool.eq_iff_iff]
  simp only [Bool.and_eq_true, Bool.not_eq_true', decide_eq_true_eq, decide_eq_false_iff_not]
  omega

theorem getLsbD_ofVerdicts (accepts : Nat → Bool) {n : Nat} (h : n ≤ chunkSize) (j : Nat) :
    (ofVerdicts accepts n).getLsbD j = (decide (j < n) && accepts j) := by
  induction n with
  | zero => simp [ofVerdicts]
  | succ n ih =>
    have hbits := ih (by omega)
    rw [ofVerdicts_succ]
    by_cases hn : accepts n = true
    · -- One more bit is set.
      rw [if_pos hn, getLsbD_setBit _ (by omega), hbits]
      rcases Nat.lt_trichotomy j n with hlt | rfl | hgt
      · simp [hlt, Nat.lt_succ_of_lt hlt, Nat.ne_of_lt hlt]
      · simp [hn]
      · simp [Nat.lt_asymm hgt, Nat.ne_of_gt hgt, Nat.not_lt_of_ge hgt]
    · rw [if_neg hn, hbits]
      by_cases hj : j = n
      · simp [hj, hn]
      · simp [show j < n + 1 ↔ j < n by omega]

/-- The verdicts are read back from their word. -/
theorem setBits_ofVerdicts (accepts : Nat → Bool) {n : Nat} (h : n ≤ chunkSize) :
    (ofVerdicts accepts n).setBits = (List.range n).filter accepts := by
  have hbelow : (List.range n).filter (ofVerdicts accepts n).getLsbD =
      (List.range n).filter accepts := by
    apply List.filter_congr
    intro j hj
    rw [getLsbD_ofVerdicts accepts h, decide_eq_true (List.mem_range.mp hj), Bool.true_and]
  -- No verdict has been given on the elements from `n` on.
  have habove : (List.range' n (chunkSize - n)).filter (ofVerdicts accepts n).getLsbD = [] := by
    apply List.filter_eq_nil_iff.mpr
    intro j hj
    have hge := (List.mem_range'_1.mp hj).1
    simp [getLsbD_ofVerdicts accepts h, Nat.not_lt_of_ge hge]
  rw [setBits_eq_filter, range_eq_append h, List.filter_append, hbelow, habove, List.append_nil]

end Word

end ForkJoin
