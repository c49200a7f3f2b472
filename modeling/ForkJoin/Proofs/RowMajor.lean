import ForkJoin.Proofs.Coordinates

/-!
# Row-major order

Positions and coordinates in range correspond to each other in order: the coordinates of a smaller
position come first lexicographically. Addressing does not depend on the way that is taken: the paths
for one to three dimensions and the loops over the table of products agree with the recursion over the
dimensions on all inputs, also on those that no array has.

## Main definitions
- `Dims.divideInTurn`, `Dims.offsetBy?`: both directions of addressing as loops over a table of
  strides.

## Main statements
- `Dims.coordsAt_cons`: the coordinates of any position, and when there are none.
- `Dims.offset?_lt_iff`: the order of positions.
- `Dims.divideInTurn_partialProducts`, `Dims.offsetBy?_partialProducts`: the loops.
- `RankKind.offset?_of`, `RankKind.coordsAt_of`: the paths for one to three dimensions.
- `RankKind.paths_agree`: all ways of addressing.
-/

namespace ForkJoin

namespace Dims

/-! ## §1 Positions and zeros -/

theorem size_eq_zero_iff {dims : Dims} : size dims = 0 ↔ 0 ∈ dims := by
  induction dims with
  | nil => simp [size]
  | cons d inner ih => rw [size_cons, Nat.mul_eq_zero, ih, List.mem_cons, eq_comm]

theorem size_pos_iff {dims : Dims} : 0 < size dims ↔ 0 ∉ dims := by
  rw [← size_eq_zero_iff, Nat.pos_iff_ne_zero]

theorem outer_pos {d : Nat} {inner : Dims} (h : 0 ∉ d :: inner) : 0 < d :=
  Nat.pos_of_ne_zero (List.ne_of_not_mem_cons h).symm

/-- The first division is the one by the product of all inner dimensions, so it is the one that
meets a zero. Otherwise any position has coordinates. -/
theorem coordsAt_cons (outer : Nat) (inner : Dims) (i : Nat) :
    coordsAt (outer :: inner) i =
      if 0 ∈ inner then .error .zeroDivisor else .ok (coordsOf (outer :: inner) i) := by
  rw [coordsAt, Fault.checkedDiv]
  by_cases hzero : 0 ∈ inner
  · rw [if_pos (size_eq_zero_iff.mpr hzero), if_pos hzero]
    rfl
  · have hpos := size_pos_iff.mpr hzero
    rw [if_neg (Nat.ne_of_gt hpos), if_neg hzero, Fault.ok_bind, coordsAt_eq (Nat.mod_lt i hpos)]
    rfl

/-! ## §2 Order -/

/-- Every position of a row comes before every position of a later row. -/
theorem row_lt {n c e i j : Nat} (hrow : c < e) (hi : i < n) : c * n + i < e * n + j := by
  have hrows : (c + 1) * n ≤ e * n := Nat.mul_le_mul_right n hrow
  rw [Nat.succ_mul] at hrows
  omega

/-- It is in front of the end of all rows. -/
theorem row_lt_end {n c e i : Nat} (hrow : c < e) (hi : i < n) : c * n + i < e * n := by
  have hlt : c * n + i < e * n + 0 := row_lt hrow hi
  exact hlt

/-- A position in one of the elements is a position of the array. -/
theorem row_add_lt {d i j : Nat} {inner : Dims} (hi : i < d) (hj : j < size inner) :
    i * size inner + j < size (d :: inner) :=
  row_lt_end hi hj

/-- Of two coordinate lists in range, the one that names the smaller position comes first. -/
theorem offset?_lt_iff {dims : Dims} {a b : Coords} {i j : Nat} (ha : dims.InRange a)
    (hb : dims.InRange b) (hi : offset? dims a = some i) (hj : offset? dims b = some j) :
    a < b ↔ i < j := by
  induction ha generalizing b i j with
  | nil =>
    cases hb
    cases hi
    cases hj
    simp
  | @cons d c inner rest hc hrest ih =>
    cases hb with
    | @cons _ e _ tail he htail =>
      -- The positions of the inner coordinates, each in its row.
      obtain ⟨p, hp, hoffset, -⟩ := offset?_of_inRange hrest
      obtain ⟨q, hq, hoffset', -⟩ := offset?_of_inRange htail
      rw [offset?, if_pos hc, hoffset] at hi
      rw [offset?, if_pos he, hoffset'] at hj
      obtain rfl := Option.some.inj hi
      obtain rfl := Option.some.inj hj
      rw [List.cons_lt_cons_iff, ih htail hoffset hoffset']
      rcases Nat.lt_trichotomy c e with hce | rfl | hce
      · exact iff_of_true (.inl hce) (row_lt hce hp)
      · simp
      · refine iff_of_false ?_ (Nat.lt_asymm (row_lt hce hq))
        rintro (hlt | ⟨heq, -⟩)
        · exact Nat.lt_asymm hce hlt
        · exact Nat.ne_of_gt hce heq

/-! ## §3 The table of products -/

/-- Divides by the entries of a table in turn and goes on with what each quotient leaves. -/
def divideInTurn : List Nat → Nat → Except Fault Coords
  | [], _ => .ok []
  | stride :: table, remaining => do
    let c ← Fault.checkedDiv remaining stride
    let left ← Fault.checkedSub remaining (c * stride)
    return c :: (← divideInTurn table left)

/-- Adds up coordinates times the entries of a table, as long as the coordinates are in range. -/
def offsetBy? : Dims → List Nat → Coords → Nat → Option Nat
  | _, _, [], offset => some offset
  | d :: inner, stride :: table, c :: rest, offset =>
    if c < d then offsetBy? inner table rest (offset + c * stride) else none
  | _, _, _ :: _, _ => none

/-- What the quotients leave is the remainder. -/
theorem divideInTurn_strides (dims : Dims) (i : Nat) :
    divideInTurn (strides dims) i = coordsAt dims i := by
  induction dims generalizing i with
  | nil => rfl
  | cons d inner ih =>
    rw [strides, divideInTurn, coordsAt]
    by_cases hzero : size inner = 0
    · simp only [Fault.checkedDiv, if_pos hzero, Fault.error_bind]
    · have hleft : Fault.checkedSub i (i / size inner * size inner) = .ok (i % size inner) := by
        rw [Fault.checkedSub, if_pos (Nat.div_mul_le_self i _), Nat.mod_eq_sub_div_mul]
      simp only [Fault.checkedDiv, if_neg hzero, Fault.ok_bind, hleft, ih]

theorem offsetBy?_strides (dims : Dims) (coords : Coords) (offset : Nat) :
    offsetBy? dims (strides dims) coords offset = (offset? dims coords).map (offset + ·) := by
  -- By induction on the dimensions; the offset collects what the outer ones contribute.
  induction dims generalizing coords offset with
  | nil => cases coords <;> rfl
  | cons d inner ih =>
    cases coords with
    | nil => rfl
    | cons c rest =>
      rw [strides, offsetBy?, offset?]
      split
      · rw [ih, Option.map_map]
        exact congrArg (Option.map · _) (funext fun p => Nat.add_assoc offset _ p)
      · rfl

/-- The table lists the strides from the innermost on. -/
theorem reverse_partialProducts (outer : Nat) (inner : Dims) :
    (partialProducts (outer :: inner)).reverse = strides (outer :: inner) := by
  rw [partialProducts, List.reverse_reverse]
  exact List.cons_ne_nil _ _

theorem size_eq_foldr (dims : Dims) : size dims = dims.foldr (flip (· * ·)) 1 := by
  induction dims with
  | nil => rfl
  | cons d inner ih => rw [size_cons, List.foldr_cons, ← ih, flip, Nat.mul_comm]

/-- The table is the running product of the inner dimensions, innermost first. -/
theorem partialProducts_eq_scanl (outer : Nat) (inner : Dims) :
    partialProducts (outer :: inner) = inner.reverse.scanl (· * ·) 1 := by
  have hstrides : strides (outer :: inner) = inner.scanr (flip (· * ·)) 1 := by
    induction inner generalizing outer with
    | nil => rfl
    | cons d inner ih => rw [strides, List.scanr_cons, ← size_eq_foldr, ih d]
  rw [List.scanl_reverse, ← hstrides, partialProducts]
  exact List.cons_ne_nil _ _

theorem divideInTurn_partialProducts (outer : Nat) (inner : Dims) (i : Nat) :
    divideInTurn (partialProducts (outer :: inner)).reverse i = coordsAt (outer :: inner) i := by
  rw [reverse_partialProducts, divideInTurn_strides]

theorem offsetBy?_partialProducts (outer : Nat) (inner : Dims) (coords : Coords) :
    offsetBy? (outer :: inner) (partialProducts (outer :: inner)).reverse coords 0 =
      offset? (outer :: inner) coords := by
  rw [reverse_partialProducts, offsetBy?_strides]
  simp

end Dims

namespace RankKind

/-! ## §4 One, two and three dimensions -/

/-- The paths for one to three dimensions name the positions that the strides give. -/
theorem offset?_of (dims : Dims) (coords : Coords) :
    (RankKind.of dims).offset? dims coords =
      if coords.length = dims.length then dims.offset? coords else none := by
  -- Up to three dimensions the number is written out, and only for as many coordinates.
  match dims, coords with
  | [], _ => rfl
  | [x], [] | [x], _ :: _ :: _ => rfl
  | [x], [i] => simp [RankKind.of, offset?, Dims.offset?, Dims.size]
  | [x, y], [] | [x, y], [_] | [x, y], _ :: _ :: _ :: _ => rfl
  | [x, y], [i, j] =>
    by_cases hi : i < x <;> by_cases hj : j < y <;>
      simp [RankKind.of, offset?, Dims.offset?, Dims.size, hi, hj]
  | [x, y, z], [] | [x, y, z], [_] | [x, y, z], [_, _] | [x, y, z], _ :: _ :: _ :: _ :: _ => rfl
  | [x, y, z], [i, j, k] =>
    by_cases hi : i < x <;> by_cases hj : j < y <;> by_cases hk : k < z <;>
      simp [RankKind.of, offset?, Dims.offset?, Dims.size, hi, hj, hk, Nat.mul_assoc,
        Nat.add_comm, Nat.add_left_comm]
  | _ :: _ :: _ :: _ :: _, _ => rfl

/-- The paths for one to three dimensions divide as the strides say, and meet a zero where they
do. -/
theorem coordsAt_of (dims : Dims) (i : Nat) :
    (RankKind.of dims).coordsAt dims i = dims.coordsAt i := by
  match dims with
  | [] => rfl
  | [x] => simp [RankKind.of, coordsAt, Dims.coordsAt, Dims.size, Fault.checkedDiv]
  | [x, y] =>
    by_cases hy : y = 0 <;>
      simp [RankKind.of, coordsAt, Dims.coordsAt, Dims.size, Fault.checkedDiv, Fault.checkedMod, hy]
  | [x, y, z] =>
    -- The middle path subtracts whole planes where the general one takes the remainder.
    have hrest : Fault.checkedSub i (i / (y * z) * y * z) = .ok (i % (y * z)) := by
      rw [Nat.mul_assoc, Fault.checkedSub, if_pos (Nat.div_mul_le_self i _),
        Nat.mod_eq_sub_div_mul]
    by_cases hplane : y * z = 0
    · simp [RankKind.of, coordsAt, Dims.coordsAt, Dims.size, Fault.checkedDiv, hplane]
    · have hz : z ≠ 0 := (Nat.mul_ne_zero_iff.mp hplane).2
      simp [RankKind.of, coordsAt, Dims.coordsAt, Dims.size, Fault.checkedDiv, Fault.checkedMod,
        hplane, hz, hrest]
  | _ :: _ :: _ :: _ :: _ => rfl

/-- All ways of addressing agree on every input. There are no coordinates exactly when an inner
dimension is zero, and no position unless every coordinate has its dimension. -/
theorem paths_agree (outer : Nat) (inner : Dims) :
    (∀ i, (RankKind.of (outer :: inner)).coordsAt (outer :: inner) i =
        Dims.coordsAt (outer :: inner) i ∧
      Dims.coordsAt (outer :: inner) i =
        Dims.divideInTurn (Dims.partialProducts (outer :: inner)).reverse i ∧
      if 0 ∈ inner then Dims.coordsAt (outer :: inner) i = .error .zeroDivisor
      else ∃ coords, Dims.coordsAt (outer :: inner) i = .ok coords) ∧
    ∀ coords, (RankKind.of (outer :: inner)).offset? (outer :: inner) coords =
        (if coords.length = (outer :: inner).length then Dims.offset? (outer :: inner) coords
        else none) ∧
      Dims.offset? (outer :: inner) coords =
        Dims.offsetBy? (outer :: inner) (Dims.partialProducts (outer :: inner)).reverse coords 0 := by
  refine ⟨fun i => ⟨coordsAt_of _ i, (Dims.divideInTurn_partialProducts outer inner i).symm, ?_⟩,
    fun coords => ⟨offset?_of _ coords, (Dims.offsetBy?_partialProducts outer inner coords).symm⟩⟩
  rw [Dims.coordsAt_cons]
  -- Only inner dimensions are divided by.
  by_cases hzero : 0 ∈ inner
  · simp only [if_pos hzero]
  · simp only [if_neg hzero]
    exact ⟨_, rfl⟩

end RankKind

end ForkJoin
