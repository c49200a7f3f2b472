import ForkJoin.Proofs.Arithmetic
import ForkJoin.Proofs.Stepping

/-!
# Addressing with any dimensions

Positions and coordinates of dimensions that have not been validated, in arithmetic that is right about
addresses. Addressing starts with the products of the dimensions after the first. If they can be
addressed the table of them is exact, and so is all that follows: what is taken away from a position is
at most the position, and so is what is added up to it. Steps form no number above the dimensions. If
the products cannot be addressed, there may be no coordinates of a position, or those of another one.

## Main statements
- `Arithmetic.ExactUpTo.offset?_of_eq_some`: positions that can be addressed.
- `Arithmetic.ExactUpTo.iterate_step`: steps from the coordinates of a position.
- `Arithmetic.ExactUpTo.positions_in_order`: positions and coordinates in range.
- `Arithmetic.ExactUpTo.steps_walk_and_wrap`: row-major order, and around.
-/

namespace ForkJoin

namespace Dims

/-- A sum of terms is at least what it starts with. -/
theorem le_of_offsetBy? {dims : Dims} {table : List Nat} {coords : Coords} {offset p : Nat}
    (h : offsetBy? dims table coords offset = some p) : offset ≤ p := by
  fun_induction offsetBy? dims table coords offset with
  | case1 => exact Nat.le_of_eq (Option.some.inj h)
  | case2 d inner stride table c rest offset hc ih =>
    exact Nat.le_trans (Nat.le_add_right offset _) (ih h)
  | case3 => cases h
  | case4 => cases h

/-- Each of some dimensions is at most their product. -/
theorem le_size_of_mem {dims : Dims} {d : Nat} (hmem : d ∈ dims) (hzero : 0 ∉ dims) :
    d ≤ size dims := by
  have hsingle := size_le_of_sublist (List.singleton_sublist.mpr hmem) hzero
  rwa [size_cons, size, Nat.mul_one] at hsingle

end Dims

namespace Arithmetic

namespace ExactUpTo

variable {arithmetic : Arithmetic} {limit outer p : Nat} {dims inner : Dims} {coords : Coords}

/-! ## §1 Positions -/

/-- Every sum on the way to a position is at most the position. -/
theorem offsetBy?_of_eq_some (h : arithmetic.ExactUpTo limit) {table : List Nat} {offset : Nat}
    (hsum : Dims.offsetBy? dims table coords offset = some p) (hp : p ≤ limit) :
    arithmetic.offsetBy? dims table coords offset = .ok (some p) := by
  fun_induction Dims.offsetBy? dims table coords offset with
  | case1 =>
    obtain rfl := Option.some.inj hsum
    rw [Arithmetic.offsetBy?]
  | case2 d inner stride table c rest offset hc ih =>
    -- The terms that are still to come only add to the sum.
    have hnext : offset + c * stride ≤ limit := Nat.le_trans (Dims.le_of_offsetBy? hsum) hp
    have hterm : c * stride ≤ limit := Nat.le_trans (Nat.le_add_left _ offset) hnext
    rw [Arithmetic.offsetBy?, if_pos hc, h.times hterm, Fault.ok_bind, h.plus hnext, Fault.ok_bind,
      ih hsum]
  | case3 => cases hsum
  | case4 => cases hsum

theorem offset?_of_eq_some (h : arithmetic.ExactUpTo limit) (hzero : 0 ∉ inner)
    (hinner : inner.size ≤ limit) (hposition : Dims.offset? (outer :: inner) coords = some p)
    (hp : p ≤ limit) : arithmetic.offset? (outer :: inner) coords = .ok (some p) := by
  have hlength : ¬ (outer :: inner).length < coords.length :=
    Nat.not_lt_of_le (Dims.offset?_add_size_le hposition).1
  rw [← Dims.offsetBy?_partialProducts] at hposition
  rw [Arithmetic.offset?, if_neg hlength, h.partialProducts_cons hzero hinner, Fault.ok_bind,
    h.offsetBy?_of_eq_some hposition hp]

/-- An outermost coordinate out of range is found before anything is added up. -/
theorem offset?_of_outer_le (h : arithmetic.ExactUpTo limit) (hzero : 0 ∉ inner)
    (hinner : inner.size ≤ limit) {c : Nat} (hc : outer ≤ c) (rest : Coords) :
    arithmetic.offset? (outer :: inner) (c :: rest) = .ok none := by
  rw [Arithmetic.offset?]
  split
  · rfl
  · rw [h.partialProducts_cons hzero hinner, Fault.ok_bind, Dims.reverse_partialProducts,
      Dims.strides, Arithmetic.offsetBy?, if_neg (Nat.not_lt_of_le hc)]

/-- Coordinates in range name a position, whose coordinates they are. -/
theorem offset?_of_inRange (h : arithmetic.ExactUpTo (addressLimit - 1))
    (hinner : inner.size < addressLimit) (hsize : Dims.size (outer :: inner) ≤ addressLimit)
    (hin : Dims.InRange (outer :: inner) coords) :
    ∃ i < Dims.size (outer :: inner), Dims.offset? (outer :: inner) coords = some i ∧
      arithmetic.offset? (outer :: inner) coords = .ok (some i) ∧
      arithmetic.coordsAt (outer :: inner) i = .ok coords := by
  obtain ⟨i, hi, hposition, rfl⟩ := Dims.offset?_of_inRange hin
  have hzero : 0 ∉ inner := Dims.size_pos_iff.mp (Dims.size_pos_of_lt hi)
  have hfits : inner.size ≤ addressLimit - 1 := Nat.le_pred_of_lt hinner
  have haddress : i ≤ addressLimit - 1 := Nat.le_pred_of_lt (Nat.lt_of_lt_of_le hi hsize)
  exact ⟨i, hi, hposition, h.offset?_of_eq_some hzero hfits hposition haddress,
    h.coordsAt_cons outer hzero hfits haddress⟩

/-! ## §2 Steps -/

/-- A coordinate in range has room for one more below the limit, or is reset. -/
theorem increment (h : arithmetic.ExactUpTo limit) (hdims : ∀ d ∈ dims, d ≤ limit)
    (hin : dims.InRange coords) :
    arithmetic.increment dims coords = .ok (Dims.increment dims coords) := by
  induction hin with
  | nil => rfl
  | @cons d c inner rest hc _ ih =>
    have hnext : c + 1 ≤ limit := Nat.le_trans hc (hdims d List.mem_cons_self)
    rw [Arithmetic.increment, ih fun d hmem => hdims d (List.mem_cons_of_mem _ hmem), Fault.ok_bind,
      Dims.increment]
    -- The coordinate only moves if all inner ones have been reset.
    rcases Dims.increment inner rest with ⟨carry, moved⟩
    cases carry with
    | false => rfl
    | true =>
      simp only [if_true, h.plus hnext, Fault.ok_bind]
      split <;> rfl

theorem step (h : arithmetic.ExactUpTo limit) (hdims : ∀ d ∈ dims, d ≤ limit)
    (hin : dims.InRange coords) : arithmetic.step dims coords = dims.step coords := by
  rw [Arithmetic.step, Dims.step, h.increment hdims hin]
  rfl

/-- Steps from the coordinates of a position stay in range, so that every one of them is exact. -/
theorem iterate_step (h : arithmetic.ExactUpTo limit) (hdims : ∀ d ∈ dims, d ≤ limit) {i : Nat}
    (hi : i < dims.size) (n : Nat) :
    (· >>= arithmetic.step dims)^[n] (.ok (dims.coordsOf i)) =
      .ok (dims.coordsOf ((i + n) % dims.size)) := by
  rw [← Dims.iterate_step_coordsOf hi]
  -- By induction on the steps; in front of each one stand the coordinates of a position.
  induction n with
  | zero => rfl
  | succ n ih =>
    have hin : dims.InRange (dims.coordsOf ((i + n) % dims.size)) :=
      Dims.inRange_coordsOf (Nat.mod_lt _ (Nat.lt_of_le_of_lt (Nat.zero_le i) hi))
    rw [Function.iterate_succ_apply', Function.iterate_succ_apply', ih,
      Dims.iterate_step_coordsOf hi, Fault.ok_bind, Fault.ok_bind, h.step hdims hin]

/-! ## §3 Row-major order -/

/-- **Positions and coordinates in range correspond to each other in order**, if the product of the
inner dimensions can be addressed: every position below the size has coordinates that name it, and
those of any other position name none. If all positions can be addressed, coordinates in range are those
of the position that they name, and they are ordered as the positions are. -/
theorem positions_in_order (h : arithmetic.ExactUpTo (addressLimit - 1)) (outer : Nat)
    (hinner : inner.size < addressLimit) :
    (0 ∉ inner → ∀ i < addressLimit, ∃ coords,
      arithmetic.coordsAt (outer :: inner) i = .ok coords ∧
      arithmetic.offset? (outer :: inner) coords =
        .ok (if i < Dims.size (outer :: inner) then some i else none)) ∧
    (Dims.size (outer :: inner) ≤ addressLimit →
      (∀ coords, Dims.InRange (outer :: inner) coords →
        ∃ i < Dims.size (outer :: inner),
          arithmetic.offset? (outer :: inner) coords = .ok (some i) ∧
          arithmetic.coordsAt (outer :: inner) i = .ok coords) ∧
      ∀ a b i j, Dims.InRange (outer :: inner) a → Dims.InRange (outer :: inner) b →
        arithmetic.offset? (outer :: inner) a = .ok (some i) →
        arithmetic.offset? (outer :: inner) b = .ok (some j) → (a < b ↔ i < j)) := by
  have hfits : inner.size ≤ addressLimit - 1 := Nat.le_pred_of_lt hinner
  refine ⟨fun hzero i hi => ?_, fun hsize => ⟨fun coords hin => ?_, ?_⟩⟩
  · have haddress : i ≤ addressLimit - 1 := Nat.le_pred_of_lt hi
    refine ⟨_, h.coordsAt_cons outer hzero hfits haddress, ?_⟩
    split
    · rename_i hlt
      exact h.offset?_of_eq_some hzero hfits (Dims.offset?_coordsOf hlt) haddress
    · rename_i hlt
      -- Behind the last position the outermost coordinate is out of range.
      have houter : outer ≤ i / inner.size :=
        (Nat.le_div_iff_mul_le (Dims.size_pos_iff.mpr hzero)).mpr (Nat.le_of_not_lt hlt)
      exact h.offset?_of_outer_le hzero hfits houter _
  · obtain ⟨i, hi, -, hposition, hcoords⟩ := h.offset?_of_inRange hinner hsize hin
    exact ⟨i, hi, hposition, hcoords⟩
  · -- The numbers are the exact positions, whose order is known.
    intro a b i j ha hb hi hj
    obtain ⟨p, -, hp, hpa, -⟩ := h.offset?_of_inRange hinner hsize ha
    obtain ⟨q, -, hq, hqb, -⟩ := h.offset?_of_inRange hinner hsize hb
    obtain rfl : p = i := Option.some.inj (Except.ok.inj (hpa.symm.trans hi))
    obtain rfl : q = j := Option.some.inj (Except.ok.inj (hqb.symm.trans hj))
    exact Dims.offset?_lt_iff ha hb hp hq

/-- An array of 2^64 cells: its last position, and two of its coordinate lists. -/
theorem positions_in_order_whole :
    Dims.size [2 ^ 31, 2 ^ 32] < addressLimit ∧ Dims.size [2, 2 ^ 31, 2 ^ 32] ≤ addressLimit ∧
    (∃ coords, wrapping.coordsAt [2, 2 ^ 31, 2 ^ 32] (2 ^ 64 - 1) = .ok coords ∧
      wrapping.offset? [2, 2 ^ 31, 2 ^ 32] coords = .ok (some (2 ^ 64 - 1))) ∧
    (∃ i < 2 ^ 64, wrapping.offset? [2, 2 ^ 31, 2 ^ 32] [1, 0, 5] = .ok (some i) ∧
      wrapping.coordsAt [2, 2 ^ 31, 2 ^ 32] i = .ok [1, 0, 5]) ∧
    (([0, 7, 9] : Coords) < [1, 0, 5] ↔ 7 * 2 ^ 32 + 9 < 2 ^ 63 + 5) := by
  have hinner : Dims.size [2 ^ 31, 2 ^ 32] < addressLimit := by decide
  have hsize : Dims.size [2, 2 ^ 31, 2 ^ 32] ≤ addressLimit := by decide
  have hzero : 0 ∉ [2 ^ 31, 2 ^ 32] := by decide
  have hfirst : Dims.InRange [2, 2 ^ 31, 2 ^ 32] [0, 7, 9] := by simp [Dims.InRange]
  have hsecond : Dims.InRange [2, 2 ^ 31, 2 ^ 32] [1, 0, 5] := by simp [Dims.InRange]
  obtain ⟨hpositions, hcoords⟩ :=
    positions_in_order (exactUpTo_wrapping (by decide)) 2 hinner
  exact ⟨hinner, hsize, hpositions hzero (2 ^ 64 - 1) (by decide), (hcoords hsize).1 _ hsecond,
    (hcoords hsize).2 _ _ _ _ hfirst hsecond (by decide) (by decide)⟩

/-- Without the bound there are dimensions, none of them zero, where the first position has no
coordinates in any of the two arithmetics, since a product wraps to a stride of zero or breaks off; and
there are others where a position gets the coordinates of another one, which name none. -/
theorem positions_lost_beyond_addresses :
    (0 ∉ [2 ^ 32, 2 ^ 32] ∧ 0 < Dims.size [2, 2 ^ 32, 2 ^ 32] ∧
      wrapping.coordsAt [2, 2 ^ 32, 2 ^ 32] 0 = .error .zeroDivisor ∧
      (upTo (addressLimit - 1)).coordsAt [2, 2 ^ 32, 2 ^ 32] 0 = .error .brokenInvariant) ∧
    0 ∉ [2 ^ 33, 2 ^ 33 + 1] ∧ 2 ^ 33 < Dims.size [1, 2 ^ 33, 2 ^ 33 + 1] ∧
      wrapping.coordsAt [1, 2 ^ 33, 2 ^ 33 + 1] (2 ^ 33) = .ok [1, 0, 0] ∧
      wrapping.offset? [1, 2 ^ 33, 2 ^ 33 + 1] [1, 0, 0] = .ok none := by
  decide

/-- **Steps walk in row-major order and wrap**, if the dimensions and the product of the inner ones can
be addressed. From the coordinates of a position any number of steps leads to the coordinates of the
position that many further on, counted around. -/
theorem steps_walk_and_wrap (h : arithmetic.ExactUpTo (addressLimit - 1)) {i n : Nat}
    (houter : outer < addressLimit) (hinner : inner.size < addressLimit)
    (hi : i < Dims.size (outer :: inner)) (hstart : i < addressLimit)
    (hstop : (i + n) % Dims.size (outer :: inner) < addressLimit) :
    ∃ coords,
      (· >>= arithmetic.step (outer :: inner))^[n] (arithmetic.coordsAt (outer :: inner) i) =
        .ok coords ∧
      arithmetic.coordsAt (outer :: inner) ((i + n) % Dims.size (outer :: inner)) = .ok coords := by
  have hzero : 0 ∉ inner := Dims.size_pos_iff.mp (Dims.size_pos_of_lt hi)
  have hfits : inner.size ≤ addressLimit - 1 := Nat.le_pred_of_lt hinner
  have hdims : ∀ d ∈ outer :: inner, d ≤ addressLimit - 1 := by
    intro d hmem
    rcases List.mem_cons.mp hmem with rfl | hmem
    · exact Nat.le_pred_of_lt houter
    · -- None of the inner dimensions is above their product.
      exact Nat.le_trans (Dims.le_size_of_mem hmem hzero) hfits
  refine ⟨_, ?_, h.coordsAt_cons outer hzero hfits (Nat.le_pred_of_lt hstop)⟩
  rw [h.coordsAt_cons outer hzero hfits (Nat.le_pred_of_lt hstart), h.iterate_step hdims hi]

/-- In an array of 2^64 cells one step leads from the last position around to the first; ten more lead
on from there. -/
theorem steps_walk_and_wrap_whole :
    Dims.size [2 ^ 31, 2 ^ 32] < addressLimit ∧
    2 ^ 64 - 1 < Dims.size [2, 2 ^ 31, 2 ^ 32] ∧ ∃ coords,
      (· >>= wrapping.step [2, 2 ^ 31, 2 ^ 32])^[11]
        (wrapping.coordsAt [2, 2 ^ 31, 2 ^ 32] (2 ^ 64 - 1)) = .ok coords ∧
      wrapping.coordsAt [2, 2 ^ 31, 2 ^ 32] ((2 ^ 64 - 1 + 11) % Dims.size [2, 2 ^ 31, 2 ^ 32]) =
        .ok coords :=
  ⟨by decide, by decide,
    steps_walk_and_wrap (exactUpTo_wrapping (by decide)) (by decide) (by decide) (by decide)
      (by decide) (by decide)⟩

/-- Without the bound the coordinates of a position may not be there to step from; and a step may lead
to coordinates that are not those of the next position. -/
theorem step_astray_beyond_addresses :
    (0 ∉ [2, 2 ^ 32, 2 ^ 32] ∧ 0 < Dims.size [2, 2 ^ 32, 2 ^ 32] ∧
      wrapping.coordsAt [2, 2 ^ 32, 2 ^ 32] 0 = .error .zeroDivisor) ∧
    0 ∉ [1, 2 ^ 33, 2 ^ 33 + 1] ∧ 2 ^ 33 < Dims.size [1, 2 ^ 33, 2 ^ 33 + 1] ∧
      wrapping.coordsAt [1, 2 ^ 33, 2 ^ 33 + 1] (2 ^ 33 - 1) = .ok [0, 0, 2 ^ 33 - 1] ∧
      wrapping.step [1, 2 ^ 33, 2 ^ 33 + 1] [0, 0, 2 ^ 33 - 1] = .ok [0, 0, 2 ^ 33] ∧
      wrapping.coordsAt [1, 2 ^ 33, 2 ^ 33 + 1] (2 ^ 33) = .ok [1, 0, 0] := by
  decide

end ExactUpTo

end Arithmetic

end ForkJoin
