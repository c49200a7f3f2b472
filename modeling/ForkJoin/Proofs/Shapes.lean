import ForkJoin.Proofs.Calling
import ForkJoin.Shape.Basic

/-!
# Valid shapes

Validation multiplies the dimensions from the left and keeps every product below the limit. So the
outermost dimension of a valid shape can be lowered, split in two or merged with the next one, and
a dimension that is not zero can be left out.

## Main statements
- `Shape.isSome_foldlM_cons`: one more dimension.
- `Shape.isSome_checkedSize_iff`: what validation asks of dimensions.
- `Shape.ofDims?_eq_ok`: which shapes are valid.
- `Shape.ofDims?_of_le`, `Shape.isSome_checkedSize_split`, `Shape.isSome_checkedSize_merge`: other
  outermost dimensions.
- `Shape.isSome_checkedSize_drop`: without the dimensions that coordinates in range select from.
-/

namespace ForkJoin

namespace Shape

/-! ## §1 Checked products -/

/-- One more dimension, multiplied to what there is so far. -/
def multiplyChecked (product d : Nat) : Option Nat :=
  if product * d < addressLimit then some (product * d) else none

theorem checkedSize_eq (dims : Dims) : checkedSize dims = dims.foldlM multiplyChecked 1 :=
  rfl

/-- The product with the first dimension is addressable, and so are those with the others. -/
theorem isSome_foldlM_cons {d product : Nat} {rest : Dims} :
    ((d :: rest).foldlM multiplyChecked product).isSome = true ↔
      product * d < addressLimit ∧ (rest.foldlM multiplyChecked (product * d)).isSome = true := by
  rw [List.foldlM_cons]
  by_cases h : product * d < addressLimit
  · simp [multiplyChecked, h]
  · simp [multiplyChecked, h]

/-- Validation asks that every product from the left can be addressed. -/
theorem isSome_foldlM_multiplyChecked_iff {dims : Dims} {product : Nat}
    (hproduct : product < addressLimit) :
    (dims.foldlM multiplyChecked product).isSome = true ↔
      ∀ n ≤ dims.length, product * Dims.size (dims.take n) < addressLimit := by
  induction dims generalizing product with
  | nil => simp [Dims.size, hproduct]
  | cons d rest ih =>
    rw [isSome_foldlM_cons]
    -- The products of the rest begin with the first dimension multiplied in.
    constructor
    · rintro ⟨hd, hrest⟩ n hn
      cases n with
      | zero => simpa [Dims.size] using hproduct
      | succ n =>
        rw [List.take_succ_cons, Dims.size, ← Nat.mul_assoc]
        exact (ih hd).mp hrest n (Nat.le_of_succ_le_succ hn)
    · intro h
      have hd : product * d < addressLimit := by
        simpa [Dims.size] using h 1 (Nat.succ_le_succ (Nat.zero_le _))
      refine ⟨hd, (ih hd).mpr fun n hn => ?_⟩
      have hnext := h (n + 1) (Nat.succ_le_succ hn)
      rwa [List.take_succ_cons, Dims.size, ← Nat.mul_assoc] at hnext

theorem isSome_checkedSize_iff {dims : Dims} :
    (checkedSize dims).isSome = true ↔
      ∀ n ≤ dims.length, Dims.size (dims.take n) < addressLimit := by
  rw [checkedSize_eq, isSome_foldlM_multiplyChecked_iff (by decide)]
  simp only [Nat.one_mul]

/-- The size is the last of these products. -/
theorem size_lt_of_isSome_checkedSize {dims : Dims} (h : (checkedSize dims).isSome = true) :
    dims.size < addressLimit := by
  simpa only [List.take_length] using isSome_checkedSize_iff.mp h dims.length (Nat.le_refl _)

/-- Products that start lower stay addressable. -/
theorem isSome_foldlM_multiplyChecked {dims : Dims} {low high : Nat} (hle : low ≤ high)
    (h : (dims.foldlM multiplyChecked high).isSome = true) :
    (dims.foldlM multiplyChecked low).isSome = true := by
  induction dims generalizing low high with
  | nil => rfl
  | cons d rest ih =>
    obtain ⟨hhigh, hrest⟩ := isSome_foldlM_cons.mp h
    -- The lower product is addressable as well, and stays the lower one.
    have hmul : low * d ≤ high * d := Nat.mul_le_mul_right d hle
    exact isSome_foldlM_cons.mpr ⟨Nat.lt_of_le_of_lt hmul hhigh, ih hmul hrest⟩

section

variable {d amount outer next count : Nat} {inner dims : Dims} {coords : Coords} {shape : Shape}

theorem isSome_checkedSize_cons :
    (checkedSize (d :: inner)).isSome = true ↔
      d < addressLimit ∧ (inner.foldlM multiplyChecked d).isSome = true := by
  rw [checkedSize_eq, isSome_foldlM_cons, Nat.one_mul]

/-- A dimension that splits evenly can be split. -/
theorem isSome_checkedSize_split (hdvd : amount ∣ d)
    (h : (checkedSize (d :: inner)).isSome = true) :
    (checkedSize (d / amount :: amount :: inner)).isSome = true := by
  obtain ⟨hd, hinner⟩ := isSome_checkedSize_cons.mp h
  rw [isSome_checkedSize_cons, isSome_foldlM_cons, Nat.div_mul_cancel hdvd]
  exact ⟨Nat.lt_of_le_of_lt (Nat.div_le_self d amount) hd, hd, hinner⟩

/-- The two outermost dimensions can be merged. -/
theorem isSome_checkedSize_merge (h : (checkedSize (d :: next :: inner)).isSome = true) :
    (checkedSize (d * next :: inner)).isSome = true := by
  obtain ⟨-, hrest⟩ := isSome_checkedSize_cons.mp h
  rw [isSome_checkedSize_cons]
  exact isSome_foldlM_cons.mp hrest

/-- Leading dimensions that have a coordinate in range are not zero, and can be left out. -/
theorem isSome_checkedSize_drop {p : Nat} (hoffset : dims.offset? coords = some p)
    (h : (checkedSize dims).isSome = true) :
    (checkedSize (dims.drop coords.length)).isSome = true := by
  induction dims generalizing coords p with
  | nil => rwa [List.drop_nil]
  | cons d inner ih =>
    cases coords with
    | nil => exact h
    | cons c rest =>
      rw [Dims.offset?] at hoffset
      split at hoffset
      · rename_i hc
        obtain ⟨q, hq, -⟩ := Option.map_eq_some_iff.mp hoffset
        -- The dimension has a coordinate in range, so the products are no larger without it.
        have hpos : 1 ≤ d := Nat.one_le_of_lt hc
        exact ih hq (isSome_foldlM_multiplyChecked hpos (isSome_checkedSize_cons.mp h).2)
      · cases hoffset

/-! ## §2 Validation -/

theorem ofDims?_eq_ok : ofDims? dims = .ok shape ↔
    shape.dims = dims ∧ (checkedSize dims).isSome = true := by
  obtain ⟨outer, inner⟩ := shape
  cases dims with
  | nil => simp [ofDims?, Shape.dims]
  | cons d rest =>
    rw [ofDims?]
    split
    · rename_i hsome
      simp [Shape.dims, hsome, eq_comm]
    · rename_i hnone
      simp [hnone]

theorem addressable_iff :
    ofDims? shape.dims = .ok shape ↔ (checkedSize shape.dims).isSome = true := by
  rw [ofDims?_eq_ok, and_iff_right rfl]

/-- A sequence is valid if its length can be addressed. -/
theorem addressable_vector (h : d < addressLimit) : ofDims? (vector d).dims = .ok (vector d) :=
  addressable_iff.mpr (isSome_checkedSize_cons.mpr ⟨h, rfl⟩)

theorem size_lt (h : ofDims? shape.dims = .ok shape) : shape.size < addressLimit :=
  size_lt_of_isSome_checkedSize (addressable_iff.mp h)

theorem outer_lt (h : ofDims? shape.dims = .ok shape) : shape.outer < addressLimit :=
  (isSome_checkedSize_cons.mp (addressable_iff.mp h)).1

/-- The outermost dimension of a valid shape can be lowered. -/
theorem ofDims?_of_le (hle : count ≤ outer) (h : ofDims? (outer :: inner) = .ok ⟨outer, inner⟩) :
    ofDims? (count :: inner) = .ok ⟨count, inner⟩ := by
  obtain ⟨houter, hinner⟩ := isSome_checkedSize_cons.mp (ofDims?_eq_ok.mp h).2
  refine ofDims?_eq_ok.mpr ⟨rfl, isSome_checkedSize_cons.mpr ⟨?_, ?_⟩⟩
  · exact Nat.lt_of_le_of_lt hle houter
  · exact isSome_foldlM_multiplyChecked hle hinner

end

end Shape

end ForkJoin
