import ForkJoin.Proofs.Selection
import ForkJoin.Shape.Addressing
import Mathlib.Algebra.BigOperators.Group.List.Lemmas

/-!
# Addressing in limited arithmetic

Whatever a machine does with large numbers, addressing is not affected if the machine is right about
the numbers up to the size of the array, for no larger one is formed on the way: the products of inner
dimensions divide the size, the terms of a position add up to the end of the block that they name, and
everything that is formed of a position is at most the position. An array without elements is the
exception, since the products of the dimensions behind a zero are not bounded by it; and so are
coordinates out of range, for which a number may be formed before they are found to be.

## Main definitions
- `Arithmetic.ExactUpTo`: arithmetic that keeps the numbers up to a limit.
- `Arithmetic.Addresses`: agreement with exact addressing.

## Main statements
- `Arithmetic.ExactUpTo.addresses`: arithmetic that is right up to the size.
- `Arithmetic.wrapping_offset?`: positions of which 64 bits are kept.
- `Shape.addressing_never_wraps`: what follows for shapes that are accepted.
-/

namespace ForkJoin

/-! ## §1 Numbers -/

namespace Arithmetic

/-- Numbers up to a limit are kept as they are. -/
def ExactUpTo (arithmetic : Arithmetic) (limit : Nat) : Prop :=
  ∀ n ≤ limit, arithmetic.keep n = .ok n

theorem exactUpTo_upTo (limit : Nat) : (upTo limit).ExactUpTo limit :=
  fun _ hle => if_pos hle

theorem exactUpTo_wrapping {limit : Nat} (h : limit < addressLimit) : wrapping.ExactUpTo limit :=
  fun _ hle => congrArg Except.ok (wrapAddress_of_lt (Nat.lt_of_le_of_lt hle h))

variable (arithmetic : Arithmetic)

/-- Agreement with exact addressing, of every range of dimensions, every list of coordinates and every
position of the array. On the path for the number of dimensions the coordinates have to be in range,
since a number is formed of any others as well. -/
structure Addresses (dims : Dims) : Prop where
  partialProducts : arithmetic.partialProducts dims = .ok dims.partialProducts
  sizeOfRange : ∀ start stop, arithmetic.sizeOfRange dims start stop = dims.sizeOfRange start stop
  offset? : ∀ coords, arithmetic.offset? dims coords = .ok (dims.offset? coords)
  kindOffset? : ∀ coords, dims.InRange coords →
    arithmetic.kindOffset? (.of dims) dims coords = .ok ((RankKind.of dims).offset? dims coords)
  coordsAt : ∀ i < dims.size, ∃ coords,
    arithmetic.coordsAt dims i = .ok coords ∧ dims.coordsAt i = .ok coords
  kindCoordsAt : ∀ i < dims.size, ∃ coords,
    arithmetic.kindCoordsAt (.of dims) dims i = .ok coords ∧
      (RankKind.of dims).coordsAt dims i = .ok coords

end Arithmetic

/-! ## §2 Products of dimensions -/

namespace Dims

theorem size_eq_prod (dims : Dims) : size dims = dims.prod := by
  induction dims with
  | nil => rfl
  | cons d inner ih => rw [size_cons, List.prod_cons, ih]

theorem size_reverse (dims : Dims) : size dims.reverse = size dims := by
  rw [size_eq_prod, size_eq_prod, List.prod_reverse]

/-- Too many coordinates name no position. -/
theorem offset?_of_length_lt {dims : Dims} {coords : Coords} (h : dims.length < coords.length) :
    dims.offset? coords = none := by
  cases hposition : dims.offset? coords with
  | none => rfl
  | some p => exact absurd (offset?_add_size_le hposition).1 (Nat.not_le_of_lt h)

/-- A number is bounded by its product with dimensions that are not zero. -/
theorem le_of_mul_size_le {dims : Dims} {a limit : Nat} (hzero : 0 ∉ dims)
    (hle : a * size dims ≤ limit) : a ≤ limit :=
  Nat.le_trans (Nat.le_mul_of_pos_right a (size_pos_iff.mpr hzero)) hle

/-- The product of some dimensions divides that of all of them. -/
theorem size_le_of_sublist {part dims : Dims} (hsub : part.Sublist dims) (hzero : 0 ∉ dims) :
    size part ≤ size dims := by
  apply Nat.le_of_dvd (size_pos_iff.mpr hzero)
  rw [size_eq_prod, size_eq_prod]
  exact hsub.prod_dvd_prod

end Dims

namespace Arithmetic

variable {arithmetic : Arithmetic} {limit a b : Nat}

/-! ## §3 Single operations -/

namespace ExactUpTo

theorem times (h : arithmetic.ExactUpTo limit) (hle : a * b ≤ limit) :
    arithmetic.times a b = .ok (a * b) :=
  h _ hle

theorem plus (h : arithmetic.ExactUpTo limit) (hle : a + b ≤ limit) :
    arithmetic.plus a b = .ok (a + b) :=
  h _ hle

theorem minus (h : arithmetic.ExactUpTo limit) (hba : b ≤ a) (hle : a ≤ limit) :
    arithmetic.minus a b = .ok (a - b) := by
  rw [Arithmetic.minus, Fault.checkedSub, if_pos hba, Fault.ok_bind]
  exact h _ (Nat.le_trans (Nat.sub_le a b) hle)

theorem quotient (h : arithmetic.ExactUpTo limit) (hb : b ≠ 0) (hle : a ≤ limit) :
    arithmetic.quotient a b = .ok (a / b) := by
  rw [Arithmetic.quotient, Fault.checkedDiv, if_neg hb, Fault.ok_bind]
  exact h _ (Nat.le_trans (Nat.div_le_self a b) hle)

theorem remainder (h : arithmetic.ExactUpTo limit) (hb : b ≠ 0) (hle : a ≤ limit) :
    arithmetic.remainder a b = .ok (a % b) := by
  rw [Arithmetic.remainder, Fault.checkedMod, if_neg hb, Fault.ok_bind]
  exact h _ (Nat.le_trans (Nat.mod_le a b) hle)

/-! ## §4 Loops -/

variable {dims : Dims} {coords : Coords}

/-- Products that are put together from the left are at most the last of them. -/
theorem foldlM_times (h : arithmetic.ExactUpTo limit) {product : Nat} (hzero : 0 ∉ dims)
    (hle : product * dims.size ≤ limit) :
    dims.foldlM arithmetic.times product = .ok (product * dims.size) := by
  induction dims generalizing product with
  | nil => rw [List.foldlM_nil, Dims.size, Nat.mul_one]; rfl
  | cons d rest ih =>
    have hrest : 0 ∉ rest := List.not_mem_of_not_mem_cons hzero
    rw [Dims.size_cons, ← Nat.mul_assoc] at hle ⊢
    rw [List.foldlM_cons, h.times (Dims.le_of_mul_size_le hrest hle), Fault.ok_bind, ih hrest hle]

theorem sizeOfRange (h : arithmetic.ExactUpTo dims.size) (hzero : 0 ∉ dims) (start stop : Nat) :
    arithmetic.sizeOfRange dims start stop = dims.sizeOfRange start stop := by
  have hsub : ((dims.take stop).drop start).Sublist dims :=
    (List.drop_sublist start _).trans (List.take_sublist stop dims)
  rw [Arithmetic.sizeOfRange, Dims.sizeOfRange,
    h.foldlM_times (fun hmem => hzero (hsub.subset hmem))
      (by rw [Nat.one_mul]; exact Dims.size_le_of_sublist hsub hzero), Nat.one_mul]

theorem productsFrom (h : arithmetic.ExactUpTo limit) {product : Nat} (hzero : 0 ∉ dims)
    (hle : product * dims.size ≤ limit) :
    arithmetic.productsFrom product dims = .ok (dims.scanl (· * ·) product) := by
  induction dims generalizing product with
  | nil => rfl
  | cons d rest ih =>
    have hrest : 0 ∉ rest := List.not_mem_of_not_mem_cons hzero
    rw [Dims.size_cons, ← Nat.mul_assoc] at hle
    rw [Arithmetic.productsFrom, h.times (Dims.le_of_mul_size_le hrest hle), Fault.ok_bind,
      ih hrest hle, List.scanl_cons]
    rfl

/-- The table is put together of the inner dimensions, and ends with their product. -/
theorem partialProducts_cons (h : arithmetic.ExactUpTo limit) {outer : Nat} {inner : Dims}
    (hzero : 0 ∉ inner) (hle : inner.size ≤ limit) :
    arithmetic.partialProducts (outer :: inner) = .ok (Dims.partialProducts (outer :: inner)) := by
  have hinner : 0 ∉ inner.reverse := mt List.mem_reverse.mp hzero
  have hsize : 1 * Dims.size inner.reverse ≤ limit := by
    rwa [Nat.one_mul, Dims.size_reverse]
  rw [Arithmetic.partialProducts, List.tail_cons, h.productsFrom hinner hsize,
    Dims.partialProducts_eq_scanl]

theorem partialProducts (h : arithmetic.ExactUpTo dims.size) (hzero : 0 ∉ dims) :
    arithmetic.partialProducts dims = .ok dims.partialProducts := by
  cases dims with
  | nil => rfl
  | cons outer inner =>
    exact h.partialProducts_cons (List.not_mem_of_not_mem_cons hzero)
      (Dims.size_le_of_sublist (List.sublist_cons_self outer inner) hzero)

/-- The terms add up to a position in front of the end of the block that is left. -/
theorem offsetBy? (h : arithmetic.ExactUpTo limit) {offset : Nat} (hle : offset + dims.size ≤ limit) :
    arithmetic.offsetBy? dims dims.strides coords offset =
      .ok (dims.offsetBy? dims.strides coords offset) := by
  induction dims generalizing coords offset with
  | nil => cases coords <;> rfl
  | cons d inner ih =>
    cases coords with
    | nil => rfl
    | cons c rest =>
      rw [Dims.strides, Arithmetic.offsetBy?, Dims.offsetBy?]
      by_cases hc : c < d
      · -- The row that the coordinate names ends inside the block.
        have hrow : (c + 1) * Dims.size inner ≤ d * Dims.size inner := Nat.mul_le_mul_right _ hc
        rw [Nat.succ_mul] at hrow
        rw [Dims.size_cons] at hle
        rw [if_pos hc, if_pos hc, h.times (by omega), Fault.ok_bind, h.plus (by omega),
          Fault.ok_bind, ih (by omega)]
      · rw [if_neg hc, if_neg hc]

/-- Everything that is formed of a position is at most the position. -/
theorem divideInTurn (h : arithmetic.ExactUpTo limit) {table : List Nat} {remaining : Nat}
    (hle : remaining ≤ limit) :
    arithmetic.divideInTurn table remaining = Dims.divideInTurn table remaining := by
  induction table generalizing remaining with
  | nil => rfl
  | cons stride table ih =>
    rw [Arithmetic.divideInTurn, Dims.divideInTurn]
    -- Both complain about a stride of zero; what any other takes away is at most the position.
    by_cases hzero : stride = 0
    · rw [Arithmetic.quotient, Fault.checkedDiv, if_pos hzero]
      rfl
    · have htaken := Nat.div_mul_le_self remaining stride
      have hleft : remaining - remaining / stride * stride ≤ limit :=
        Nat.le_trans (Nat.sub_le ..) hle
      rw [h.quotient hzero hle, Fault.checkedDiv, if_neg hzero, Fault.ok_bind, Fault.ok_bind,
        h.times (Nat.le_trans htaken hle), Fault.ok_bind, h.minus htaken hle, Fault.checkedSub,
        if_pos htaken, Fault.ok_bind, Fault.ok_bind, ih hleft]

/-! ## §5 Addressing -/

theorem offset? (h : arithmetic.ExactUpTo dims.size) (hzero : 0 ∉ dims) (coords : Coords) :
    arithmetic.offset? dims coords = .ok (dims.offset? coords) := by
  rw [Arithmetic.offset?]
  split
  · rename_i hmany
    rw [Dims.offset?_of_length_lt hmany]
  · rw [h.partialProducts hzero, Fault.ok_bind]
    cases dims with
    | nil => cases coords <;> rfl
    | cons outer inner =>
      rw [← Dims.offsetBy?_partialProducts, Dims.reverse_partialProducts,
        h.offsetBy? (Nat.le_of_eq (Nat.zero_add _))]

/-- With any outer dimension every position is divided exactly whose number is kept, as long as the
product of the inner dimensions is. -/
theorem coordsAt_cons (h : arithmetic.ExactUpTo limit) (outer : Nat) {inner : Dims} {i : Nat}
    (hzero : 0 ∉ inner) (hinner : inner.size ≤ limit) (hi : i ≤ limit) :
    arithmetic.coordsAt (outer :: inner) i = .ok (Dims.coordsOf (outer :: inner) i) := by
  rw [Arithmetic.coordsAt, h.partialProducts_cons hzero hinner, Fault.ok_bind, h.divideInTurn hi,
    Dims.divideInTurn_partialProducts, Dims.coordsAt_cons, if_neg hzero]
  exact List.cons_ne_nil outer inner

theorem coordsAt (h : arithmetic.ExactUpTo dims.size) (hzero : 0 ∉ dims) {i : Nat}
    (hi : i < dims.size) : arithmetic.coordsAt dims i = .ok (dims.coordsOf i) := by
  cases dims with
  | nil => rfl
  | cons outer inner =>
    exact h.coordsAt_cons outer (List.not_mem_of_not_mem_cons hzero)
      (Dims.size_le_of_sublist (List.sublist_cons_self outer inner) hzero) (Nat.le_of_lt hi)

/-- Of two coordinates in range the number is the position of a cell, so that it can be formed. -/
theorem kindOffset?_two {x y i j : Nat} (h : arithmetic.ExactUpTo (x * y)) (dims : Dims)
    (hi : i < x) (hj : j < y) :
    arithmetic.kindOffset? (.two x y) dims [i, j] =
      .ok (RankKind.offset? (.two x y) dims [i, j]) := by
  have hposition : i * y + j < x * y := Dims.row_lt_end hi hj
  rw [Arithmetic.kindOffset?, h.times (by omega), Fault.ok_bind, h.plus (by omega), Fault.ok_bind]
  rfl

theorem kindOffset?_three {x y z i j k : Nat} (h : arithmetic.ExactUpTo (x * y * z)) (dims : Dims)
    (hi : i < x) (hj : j < y) (hk : k < z) :
    arithmetic.kindOffset? (.three x y z) dims [i, j, k] =
      .ok (RankKind.offset? (.three x y z) dims [i, j, k]) := by
  -- The position in its plane, then the first position of the plane.
  have hplane : j * z + k < y * z := Dims.row_lt_end hj hk
  have hposition : i * (y * z) + (j * z + k) < x * (y * z) := Dims.row_lt_end hi hplane
  -- The rows before the plane are counted on the way; each of them has a cell.
  have hplanes : i * y ≤ i * y * z := Nat.le_mul_of_pos_right _ (Nat.zero_lt_of_lt hk)
  rw [← Nat.mul_assoc, ← Nat.mul_assoc] at hposition
  rw [Arithmetic.kindOffset?, h.times (by omega), Fault.ok_bind, h.plus (by omega), Fault.ok_bind,
    h.times (by omega), Fault.ok_bind, h.times (by omega), Fault.ok_bind, h.plus (by omega),
    Fault.ok_bind]
  rfl

theorem kindOffset? (h : arithmetic.ExactUpTo dims.size) (hzero : 0 ∉ dims)
    (hin : dims.InRange coords) :
    arithmetic.kindOffset? (.of dims) dims coords =
      .ok ((RankKind.of dims).offset? dims coords) := by
  have hgeneral : arithmetic.kindOffset? .general dims coords =
      .ok (RankKind.general.offset? dims coords) := by
    rw [Arithmetic.kindOffset?, RankKind.offset?, h.offset? hzero]
    split <;> rfl
  -- One to three dimensions have a path of their own; the coordinates come apart with the dimensions.
  rcases hin with _ | ⟨hi, _ | ⟨hj, _ | ⟨hk, _ | _⟩⟩⟩
  case nil => exact hgeneral
  case cons.nil => rfl
  case cons.cons.nil =>
    simp only [Dims.size, Nat.mul_one] at h
    exact h.kindOffset?_two _ hi hj
  case cons.cons.cons.nil =>
    simp only [Dims.size, Nat.mul_one, ← Nat.mul_assoc] at h
    exact h.kindOffset?_three _ hi hj hk
  case cons.cons.cons.cons => exact hgeneral

theorem kindCoordsAt_two {x y i : Nat} (h : arithmetic.ExactUpTo (x * y)) (dims : Dims)
    (hi : i < x * y) :
    arithmetic.kindCoordsAt (.two x y) dims i = .ok (Dims.coordsOf [x, y] i) := by
  have hy : y ≠ 0 := Nat.ne_of_gt (Nat.pos_of_mul_pos_left (Nat.zero_lt_of_lt hi))
  rw [Arithmetic.kindCoordsAt, h.quotient hy (Nat.le_of_lt hi), Fault.ok_bind,
    h.remainder hy (Nat.le_of_lt hi)]
  simp [Dims.coordsOf, Dims.size]

theorem kindCoordsAt_three {x y z i : Nat} (h : arithmetic.ExactUpTo (x * (y * z))) (dims : Dims)
    (hi : i < x * (y * z)) :
    arithmetic.kindCoordsAt (.three x y z) dims i = .ok (Dims.coordsOf [x, y, z] i) := by
  have hx : 0 < x := Nat.pos_of_mul_pos_right (Nat.zero_lt_of_lt hi)
  have hplane : 0 < y * z := Nat.pos_of_mul_pos_left (Nat.zero_lt_of_lt hi)
  have hz : 0 < z := Nat.pos_of_mul_pos_left hplane
  -- What the quotient by the plane stands for is at most the position.
  have hplanes : i / (y * z) * y * z ≤ i := by
    rw [Nat.mul_assoc]
    exact Nat.div_mul_le_self i (y * z)
  have hrows : i / (y * z) * y ≤ i / (y * z) * y * z := Nat.le_mul_of_pos_right _ hz
  have hrest : i - i / (y * z) * y * z ≤ i := Nat.sub_le ..
  rw [Arithmetic.kindCoordsAt, h.times (Nat.le_mul_of_pos_left _ hx), Fault.ok_bind,
    h.quotient (Nat.ne_of_gt hplane) (Nat.le_of_lt hi), Fault.ok_bind, h.times (by omega),
    Fault.ok_bind, h.times (by omega), Fault.ok_bind, h.minus hplanes (by omega), Fault.ok_bind,
    h.quotient (Nat.ne_of_gt hz) (by omega), Fault.ok_bind,
    h.remainder (Nat.ne_of_gt hz) (by omega)]
  simp [Dims.coordsOf, Dims.size, Nat.mul_assoc, Nat.mod_eq_sub_div_mul]

theorem kindCoordsAt (h : arithmetic.ExactUpTo dims.size) (hzero : 0 ∉ dims) {i : Nat}
    (hi : i < dims.size) :
    arithmetic.kindCoordsAt (.of dims) dims i = .ok (dims.coordsOf i) := by
  have hgeneral := h.coordsAt hzero hi
  -- Up to three dimensions have a path of their own here as well.
  rcases dims with _ | ⟨x, _ | ⟨y, _ | ⟨z, _ | ⟨w, inner⟩⟩⟩⟩
  case nil => exact hgeneral
  case cons.nil => simp [RankKind.of, Arithmetic.kindCoordsAt, Dims.coordsOf, Dims.size]
  case cons.cons.nil =>
    simp only [Dims.size, Nat.mul_one] at h hi
    exact h.kindCoordsAt_two [x, y] hi
  case cons.cons.cons.nil =>
    simp only [Dims.size, Nat.mul_one] at h hi
    exact h.kindCoordsAt_three [x, y, z] hi
  case cons.cons.cons.cons => exact hgeneral

/-- Arithmetic that is right up to the size of an array addresses it exactly. -/
theorem addresses (h : arithmetic.ExactUpTo dims.size) (hzero : 0 ∉ dims) :
    arithmetic.Addresses dims where
  partialProducts := h.partialProducts hzero
  sizeOfRange := h.sizeOfRange hzero
  offset? := h.offset? hzero
  kindOffset? _ hin := h.kindOffset? hzero hin
  coordsAt _ hi := ⟨_, h.coordsAt hzero hi, Dims.coordsAt_eq hi⟩
  kindCoordsAt i hi :=
    ⟨_, h.kindCoordsAt hzero hi, (RankKind.coordsAt_of dims i).trans (Dims.coordsAt_eq hi)⟩

end ExactUpTo

/-! ## §6 Keeping 64 bits -/

section

variable {dims : Dims} {coords : Coords}

theorem wrapping_times (a b : Nat) : wrapping.times a b = .ok (wrapAddress (a * b)) :=
  rfl

theorem wrapping_plus (a b : Nat) : wrapping.plus a b = .ok (wrapAddress (a + b)) :=
  rfl

/-- A product that is put together step by step keeps what the exact one keeps. -/
theorem wrapping_productsFrom (product : Nat) (dims : Dims) :
    wrapping.productsFrom (wrapAddress product) dims =
      .ok ((dims.scanl (· * ·) product).map wrapAddress) := by
  induction dims generalizing product with
  | nil => rfl
  | cons d rest ih =>
    rw [productsFrom, wrapping_times, wrapAddress_mul_left, Fault.ok_bind, ih, List.scanl_cons]
    rfl

theorem wrapping_partialProducts (outer : Nat) (inner : Dims) :
    wrapping.partialProducts (outer :: inner) =
      .ok ((Dims.partialProducts (outer :: inner)).map wrapAddress) := by
  have hone : wrapAddress 1 = 1 := wrapAddress_of_lt (by decide)
  have hproducts := wrapping_productsFrom 1 inner.reverse
  rw [hone] at hproducts
  rw [partialProducts, List.tail_cons, hproducts, Dims.partialProducts_eq_scanl]

/-- So does a sum of terms, and it is there for the same coordinates. -/
theorem wrapping_offsetBy? (dims : Dims) (table : List Nat) (coords : Coords) (offset : Nat) :
    wrapping.offsetBy? dims (table.map wrapAddress) coords (wrapAddress offset) =
      .ok ((Dims.offsetBy? dims table coords offset).map wrapAddress) := by
  induction dims generalizing table coords offset with
  | nil => cases coords <;> rfl
  | cons d inner ih =>
    -- Nothing is added up once the table or the coordinates have ended.
    match table, coords with
    | _, [] => rfl
    | [], _ :: _ => rfl
    | stride :: table, c :: rest =>
      rw [List.map_cons, offsetBy?, Dims.offsetBy?]
      split
      · rw [wrapping_times, Fault.ok_bind, wrapAddress_mul_right, wrapping_plus, Fault.ok_bind,
          wrapAddress_add, ih]
      · rfl

/-- Of a position 64 bits are kept, whatever the dimensions are, and for nothing else is one made up. -/
theorem wrapping_offset? (dims : Dims) (coords : Coords) :
    wrapping.offset? dims coords = .ok ((dims.offset? coords).map wrapAddress) := by
  rw [offset?]
  split
  · rename_i hmany
    rw [Dims.offset?_of_length_lt hmany]
    rfl
  · cases dims with
    | nil =>
      cases coords with
      | nil => rfl
      | cons c rest => rfl
    | cons outer inner =>
      -- The table is wrapped product by product, and the sum term by term.
      have hsum := wrapping_offsetBy? (outer :: inner) (Dims.partialProducts (outer :: inner)).reverse
        coords 0
      rw [List.map_reverse] at hsum
      rw [wrapping_partialProducts, Fault.ok_bind, ← Dims.offsetBy?_partialProducts]
      exact hsum

/-- If the size can be addressed nothing is lost of a position. -/
theorem wrapping_offset?_of_lt (h : dims.size < addressLimit) (coords : Coords) :
    wrapping.offset? dims coords = .ok (dims.offset? coords) := by
  rw [wrapping_offset?]
  cases hposition : dims.offset? coords with
  | none => rfl
  | some p =>
    have hblock := (Dims.offset?_add_size_le hposition).2
    have hlt : p < addressLimit := by omega
    rw [Option.map_some, wrapAddress_of_lt hlt]

theorem wrapping_kindOffset?_two {x y : Nat} (h : x * y < addressLimit) (dims : Dims) (i j : Nat) :
    wrapping.kindOffset? (.two x y) dims [i, j] =
      .ok (RankKind.offset? (.two x y) dims [i, j]) := by
  rw [kindOffset?, RankKind.offset?]
  simp only [wrapping_times, wrapping_plus, Fault.ok_bind]
  rw [wrapAddress_add_left]
  by_cases hin : i < x ∧ j < y
  · have hposition : i * y + j < x * y := Dims.row_lt_end hin.1 hin.2
    rw [if_pos hin, if_pos hin, wrapAddress_of_lt (Nat.lt_trans hposition h)]
    rfl
  · -- The number may have been wrapped, but it is not returned.
    rw [if_neg hin, if_neg hin]
    rfl

theorem wrapping_kindOffset?_three {x y z : Nat} (h : x * (y * z) < addressLimit) (dims : Dims)
    (i j k : Nat) :
    wrapping.kindOffset? (.three x y z) dims [i, j, k] =
      .ok (RankKind.offset? (.three x y z) dims [i, j, k]) := by
  rw [kindOffset?, RankKind.offset?]
  simp only [wrapping_times, wrapping_plus, Fault.ok_bind]
  -- However the bits are lost on the way, those of the sum are left.
  rw [wrapAddress_add_right k, wrapAddress_mul_left (i * y), wrapAddress_add]
  by_cases hin : i < x ∧ j < y ∧ k < z
  · have hplane : j * z + k < y * z := Dims.row_lt_end hin.2.1 hin.2.2
    have hposition : i * (y * z) + (j * z + k) < x * (y * z) := Dims.row_lt_end hin.1 hplane
    have hlt : k + j * z + i * y * z < addressLimit := by
      rw [Nat.mul_assoc]
      omega
    rw [if_pos hin, if_pos hin, wrapAddress_of_lt hlt]
    rfl
  · rw [if_neg hin, if_neg hin]
    rfl

/-- Nothing is lost of it on the paths for one to three dimensions either. What they form of coordinates
out of range may be wrapped, and is dropped. -/
theorem wrapping_kindOffset?_of_lt (h : dims.size < addressLimit) (coords : Coords) :
    wrapping.kindOffset? (.of dims) dims coords =
      .ok ((RankKind.of dims).offset? dims coords) := by
  have hgeneral : wrapping.kindOffset? .general dims coords =
      .ok (RankKind.general.offset? dims coords) := by
    rw [kindOffset?, RankKind.offset?, wrapping_offset?_of_lt h]
    split <;> rfl
  -- On a path for so many dimensions another number of coordinates is rejected before any product.
  rcases dims with _ | ⟨x, _ | ⟨y, _ | ⟨z, _ | ⟨w, inner⟩⟩⟩⟩
  case nil => exact hgeneral
  case cons.nil => rcases coords with _ | ⟨i, _ | ⟨j, rest⟩⟩ <;> rfl
  case cons.cons.nil =>
    simp only [Dims.size, Nat.mul_one] at h
    rcases coords with _ | ⟨i, _ | ⟨j, _ | ⟨k, rest⟩⟩⟩
    case cons.cons.nil => exact wrapping_kindOffset?_two h [x, y] i j
    all_goals rfl
  case cons.cons.cons.nil =>
    simp only [Dims.size, Nat.mul_one] at h
    rcases coords with _ | ⟨i, _ | ⟨j, _ | ⟨k, _ | ⟨l, rest⟩⟩⟩⟩
    case cons.cons.cons.nil => exact wrapping_kindOffset?_three h [x, y, z] i j k
    all_goals rfl
  case cons.cons.cons.cons => exact hgeneral

end

end Arithmetic

/-! ## §7 Shapes that are accepted -/

namespace Shape

/-- **A shape that is accepted is safe to address.** Dimensions are accepted if there are any, and if
every product of leading ones can be addressed. If none of the accepted dimensions is zero, then
addressing forms no number above the number of elements: neither the products of trailing dimensions
and of ranges of them, nor the terms and sums of a position, nor anything on the way to the coordinates
of one. So arithmetic that keeps only the low 64 bits gives the exact answers, also for coordinates out
of range, of which it may form a number that it drops. -/
theorem addressing_never_wraps :
    (∀ dims : Dims, (∃ shape, ofDims? dims = .ok shape) ↔
      dims ≠ [] ∧ ∀ n ≤ dims.length, Dims.size (dims.take n) < addressLimit) ∧
    ∀ dims shape, ofDims? dims = .ok shape → 0 ∉ dims →
      dims.size < addressLimit ∧ (Arithmetic.upTo dims.size).Addresses dims ∧
      Arithmetic.wrapping.Addresses dims ∧
      ∀ coords, Arithmetic.wrapping.kindOffset? (.of dims) dims coords =
        .ok ((RankKind.of dims).offset? dims coords) := by
  constructor
  · intro dims
    rw [← isSome_checkedSize_iff]
    constructor
    · rintro ⟨shape, hshape⟩
      obtain ⟨rfl, hsome⟩ := ofDims?_eq_ok.mp hshape
      exact ⟨List.cons_ne_nil shape.outer shape.inner, hsome⟩
    · rintro ⟨hne, hsome⟩
      obtain ⟨outer, inner, rfl⟩ := List.exists_cons_of_ne_nil hne
      exact ⟨⟨outer, inner⟩, ofDims?_eq_ok.mpr ⟨rfl, hsome⟩⟩
  · intro dims shape hshape hzero
    -- The last of the products is the size, and nothing larger is formed.
    have hsize := size_lt_of_isSome_checkedSize (ofDims?_eq_ok.mp hshape).2
    exact ⟨hsize, (Arithmetic.exactUpTo_upTo _).addresses hzero,
      (Arithmetic.exactUpTo_wrapping hsize).addresses hzero,
      Arithmetic.wrapping_kindOffset?_of_lt hsize⟩

/-- The last one of 2^63 elements in four dimensions: its number is the largest that is formed. -/
theorem addressing_never_wraps_last :
    let dims := [2 ^ 20, 2 ^ 20, 2 ^ 20, 2 ^ 3]
    let last := [2 ^ 20 - 1, 2 ^ 20 - 1, 2 ^ 20 - 1, 2 ^ 3 - 1]
    (∃ shape, ofDims? dims = .ok shape) ∧ 0 ∉ dims ∧
      (Arithmetic.upTo (2 ^ 63)).offset? dims last = .ok (some (2 ^ 63 - 1)) ∧
      Arithmetic.wrapping.offset? dims last = .ok (some (2 ^ 63 - 1)) := by
  intro dims last
  have hshape : ofDims? dims = .ok ⟨2 ^ 20, [2 ^ 20, 2 ^ 20, 2 ^ 3]⟩ := rfl
  have hzero : 0 ∉ dims := by decide
  obtain ⟨-, hbounded, hwrapping, -⟩ := addressing_never_wraps.2 _ _ hshape hzero
  exact ⟨⟨_, hshape⟩, hzero, hbounded.offset? last, hwrapping.offset? last⟩

/-- Behind a zero the products are not bounded by the size, and may be wrapped. -/
example : ofDims? [0, 2 ^ 63, 4] = .ok ⟨0, [2 ^ 63, 4]⟩ ∧
    Dims.partialProducts [0, 2 ^ 63, 4] = [1, 4, 2 ^ 65] ∧
    Arithmetic.wrapping.partialProducts [0, 2 ^ 63, 4] = .ok [1, 4, 0] := by
  decide

end Shape

end ForkJoin
