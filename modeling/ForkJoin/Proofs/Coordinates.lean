import ForkJoin.Proofs.Calling
import ForkJoin.Shape.FastPath
import Mathlib.Data.List.Nodup

/-!
# Coordinates

Positions below the size of an array and coordinate lists in range name each other: dividing by the
strides in turn gives the coordinates of a position, and the sum of coordinates times strides gives
the position back. Adding one with carries leads to the coordinates of the next position, so
walking from any position, dividing every position anew and the paths for one to three dimensions
all visit the same coordinates.

## Main definitions
- `Dims.InRange`: coordinate lists in range.
- `Dims.coordsOf`: the coordinates of a position.
- `Dims.rowMajor`: the coordinates of all positions, in order.

## Main statements
- `Dims.offset?_coordsOf`, `Dims.offset?_of_inRange`: positions and coordinates name each other.
- `Dims.increment_coordsOf`: adding one.
- `Dims.walk_coordsOf`, `RankKind.coordsIn_of`: the coordinates of a run of positions.
- `Dims.nodup_rowMajor`, `Dims.mem_rowMajor`: every coordinate list in range, once.
-/

namespace ForkJoin

namespace Dims

/-! ## §1 Positions and coordinates -/

/-- One coordinate for every dimension, each of them in range. -/
def InRange (dims : Dims) (coords : Coords) : Prop :=
  List.Forall₂ (fun d c => c < d) dims coords

/-- The coordinates of a position in an array without a stride of zero. -/
def coordsOf : Dims → Nat → Coords
  | [], _ => []
  | _ :: inner, position =>
    position / size inner :: coordsOf inner (position % size inner)

variable {dims : Dims} {i : Nat}

theorem size_cons (d : Nat) (inner : Dims) : size (d :: inner) = d * size inner :=
  rfl

/-- Where there is a position no dimension is zero, and hence no stride. -/
theorem size_pos_of_lt {d : Nat} {inner : Dims} (h : i < size (d :: inner)) : 0 < size inner := by
  rw [size_cons] at h
  exact Nat.pos_of_mul_pos_left (Nat.lt_of_le_of_lt (Nat.zero_le i) h)

@[simp] theorem length_coordsOf (dims : Dims) (i : Nat) :
    (coordsOf dims i).length = dims.length := by
  induction dims generalizing i with
  | nil => rfl
  | cons d inner ih => simp [coordsOf, ih]

/-- Dividing by the strides meets no zero. -/
theorem coordsAt_eq (h : i < size dims) : coordsAt dims i = .ok (coordsOf dims i) := by
  induction dims generalizing i with
  | nil => rfl
  | cons d inner ih =>
    have hpos := size_pos_of_lt h
    rw [coordsAt, Fault.checkedDiv, if_neg (Nat.ne_of_gt hpos), ih (Nat.mod_lt i hpos)]
    rfl

theorem inRange_coordsOf (h : i < size dims) : dims.InRange (coordsOf dims i) := by
  induction dims generalizing i with
  | nil => exact .nil
  | cons d inner ih =>
    have hpos := size_pos_of_lt h
    exact .cons ((Nat.div_lt_iff_lt_mul hpos).mpr h) (ih (Nat.mod_lt i hpos))

/-- The coordinates of a position name the position. -/
theorem offset?_coordsOf (h : i < size dims) : offset? dims (coordsOf dims i) = some i := by
  induction dims generalizing i with
  | nil =>
    obtain rfl : i = 0 := Nat.lt_one_iff.mp h
    rfl
  | cons d inner ih =>
    have hpos := size_pos_of_lt h
    have hdiv : i / size inner < d := (Nat.div_lt_iff_lt_mul hpos).mpr h
    rw [coordsOf, offset?, if_pos hdiv, ih (Nat.mod_lt i hpos), Option.map_some,
      Nat.div_add_mod']

/-- Coordinates in range name a position, whose coordinates they are. -/
theorem offset?_of_inRange {coords : Coords} (h : dims.InRange coords) :
    ∃ i < size dims, offset? dims coords = some i ∧ coordsOf dims i = coords := by
  induction h with
  | nil => exact ⟨0, Nat.one_pos, rfl, rfl⟩
  | @cons d c inner rest hc _ ih =>
    obtain ⟨i, hi, hoffset, hcoords⟩ := ih
    have hpos : 0 < size inner := Nat.lt_of_le_of_lt (Nat.zero_le i) hi
    -- The position of the row and the position in it.
    refine ⟨c * size inner + i, ?_, ?_, ?_⟩
    · calc c * size inner + i < c * size inner + size inner := Nat.add_lt_add_left hi _
        _ = (c + 1) * size inner := (Nat.succ_mul c _).symm
        _ ≤ d * size inner := Nat.mul_le_mul_right _ hc
    · rw [offset?, if_pos hc, hoffset, Option.map_some]
    · -- What is left of the division by the stride is the position in the inner block.
      rw [coordsOf, Nat.mul_comm c, Nat.mul_add_div hpos, Nat.mul_add_mod, Nat.div_eq_of_lt hi,
        Nat.mod_eq_of_lt hi, hcoords, Nat.add_zero]

/-- Exactly one coordinate list in range names a position. -/
theorem existsUnique_coords (h : i < size dims) :
    ∃! coords, dims.InRange coords ∧ offset? dims coords = some i := by
  refine ⟨coordsOf dims i, ⟨inRange_coordsOf h, offset?_coordsOf h⟩, ?_⟩
  rintro coords ⟨hin, hoffset⟩
  obtain ⟨j, -, hj, hcoords⟩ := offset?_of_inRange hin
  obtain rfl : j = i := Option.some.inj (hj.symm.trans hoffset)
  exact hcoords.symm

/-! ## §2 The next position -/

/-- Adding one leads to the coordinates of the next position. It carries out of the outermost
dimension behind the last position, whose successor is the first one. -/
theorem increment_coordsOf (h : i < size dims) :
    increment dims (coordsOf dims i) =
      (decide (i + 1 = size dims), coordsOf dims ((i + 1) % size dims)) := by
  induction dims generalizing i with
  | nil =>
    obtain rfl : i = 0 := Nat.lt_one_iff.mp h
    rfl
  | cons d inner ih =>
    have hpos := size_pos_of_lt h
    have hsplit := Nat.div_add_mod' i (size inner)
    have hq : i / size inner < d := (Nat.div_lt_iff_lt_mul hpos).mpr h
    rw [coordsOf, increment, ih (Nat.mod_lt i hpos)]
    rw [size_cons] at h ⊢
    have hr : i % size inner < size inner := Nat.mod_lt i hpos
    -- The position is `q` blocks of the inner size and `r` positions in the next one.
    generalize i / size inner = q at hsplit hq ⊢
    generalize i % size inner = r at hsplit hr ⊢
    by_cases hinner : r + 1 = size inner
    · -- The carry out of the inner dimensions reaches this one.
      have hnext : i + 1 = (q + 1) * size inner := by
        rw [Nat.succ_mul]
        omega
      simp only [hinner, decide_true, Nat.mod_self]
      by_cases hlast : q + 1 < d
      · have hlt : (q + 1) * size inner < d * size inner :=
          Nat.mul_lt_mul_of_pos_right hlast hpos
        rw [if_pos hlast, hnext, decide_eq_false (Nat.ne_of_lt hlt), Nat.mod_eq_of_lt hlt, coordsOf,
          Nat.mul_div_cancel _ hpos, Nat.mul_mod_left]
      · obtain rfl : q + 1 = d := Nat.le_antisymm hq (Nat.le_of_not_lt hlast)
        rw [if_neg hlast, hnext, decide_eq_true rfl, Nat.mod_self, coordsOf, Nat.zero_div,
          Nat.zero_mod]
    · -- There is no carry, and the position stays in its block.
      have hlt : r + 1 < size inner := Nat.lt_of_le_of_ne hr hinner
      have hblock : (q + 1) * size inner ≤ d * size inner := Nat.mul_le_mul_right _ hq
      have hnext : i + 1 = size inner * q + (r + 1) := by
        rw [Nat.mul_comm]
        omega
      have hbound : i + 1 < d * size inner := by
        rw [Nat.succ_mul] at hblock
        omega
      rw [decide_eq_false hinner, decide_eq_false (Nat.ne_of_lt hbound), Nat.mod_eq_of_lt hbound,
        Nat.mod_eq_of_lt hlt, coordsOf, hnext, Nat.mul_add_div hpos, Nat.mul_add_mod,
        Nat.div_eq_of_lt hlt, Nat.mod_eq_of_lt hlt]
      rfl

theorem step_coordsOf (h : i < size dims) :
    dims.step (coordsOf dims i) = .ok (coordsOf dims ((i + 1) % size dims)) := by
  rw [step, if_pos (Nat.le_of_eq (length_coordsOf dims i).symm), increment_coordsOf h]

/-- Walking visits the coordinates of consecutive positions. The step behind the last position
wraps, and where it leads to is not visited. -/
theorem walk_coordsOf {start count : Nat} (h : start + count ≤ size dims) :
    RankKind.walk dims count (coordsOf dims start) =
      .ok ((List.range' start count).map (coordsOf dims)) := by
  induction count generalizing start with
  | zero => rfl
  | succ count ih =>
    -- A step is also made behind the last position, where the coordinates are not used any more.
    have hrest : RankKind.walk dims count (coordsOf dims ((start + 1) % size dims)) =
        .ok ((List.range' (start + 1) count).map (coordsOf dims)) := by
      cases count with
      | zero => rfl
      | succ count =>
        rw [Nat.mod_eq_of_lt (by omega)]
        exact ih (by omega)
    rw [RankKind.walk, step_coordsOf (by omega), Fault.ok_bind, hrest, List.range'_succ]
    rfl

/-! ## §3 All positions -/

/-- The coordinates of all positions, in order. -/
def rowMajor (dims : Dims) : List Coords :=
  (List.range (size dims)).map (coordsOf dims)

theorem nodup_rowMajor (dims : Dims) : dims.rowMajor.Nodup := by
  refine List.Nodup.map_on ?_ List.nodup_range
  intro i hi j hj hcoords
  have hoffset := offset?_coordsOf (List.mem_range.mp hi)
  rw [hcoords, offset?_coordsOf (List.mem_range.mp hj)] at hoffset
  exact (Option.some.inj hoffset).symm

theorem mem_rowMajor {coords : Coords} : coords ∈ dims.rowMajor ↔ dims.InRange coords := by
  constructor
  · intro hmem
    obtain ⟨i, hi, rfl⟩ := List.mem_map.mp hmem
    exact inRange_coordsOf (List.mem_range.mp hi)
  · intro hin
    obtain ⟨i, hi, -, rfl⟩ := offset?_of_inRange hin
    exact List.mem_map_of_mem (List.mem_range.mpr hi)

end Dims

/-! ## §4 One, two and three dimensions -/

/-- Whatever the number of dimensions, the coordinates of a run of positions are those that
dividing by the strides gives. -/
theorem RankKind.coordsIn_of {dims : Dims} {start count : Nat} (hstart : start < dims.size)
    (hstop : start + count ≤ dims.size) :
    (RankKind.of dims).coordsIn dims start count =
      .ok ((List.range' start count).map dims.coordsOf) := by
  have hgeneral : RankKind.general.coordsIn dims start count =
      .ok ((List.range' start count).map dims.coordsOf) := by
    rw [coordsIn, Dims.coordsAt_eq hstart, Fault.ok_bind, Dims.walk_coordsOf hstop]
  -- Each path forms the coordinates by its own divisions; none of the divisors is zero.
  match dims with
  | [] => exact hgeneral
  | [x] => simp [RankKind.of, coordsIn, Dims.coordsOf, Dims.size]
  | [x, y] =>
    have hy := Dims.size_pos_of_lt hstart
    simp only [Dims.size, Nat.mul_one] at hy
    have hpoint : ∀ i, (do return [← Fault.checkedDiv i y, ← Fault.checkedMod i y]) =
        (.ok (Dims.coordsOf [x, y] i) : Except Fault Coords) := by
      intro i
      simp [Fault.checkedDiv, Fault.checkedMod, Nat.ne_of_gt hy, Dims.coordsOf, Dims.size]
    simp only [RankKind.of, coordsIn, hpoint]
    exact List.mapM_pure
  | [x, y, z] =>
    have hyz := Dims.size_pos_of_lt hstart
    simp only [Dims.size, Nat.mul_one] at hyz
    have hz : 0 < z := Nat.pos_of_mul_pos_left hyz
    have hpoint : ∀ i, (do
        let rest ← Fault.checkedMod i (y * z)
        return [← Fault.checkedDiv i (y * z), ← Fault.checkedDiv rest z,
          ← Fault.checkedMod rest z]) =
        (.ok (Dims.coordsOf [x, y, z] i) : Except Fault Coords) := by
      intro i
      simp [Fault.checkedDiv, Fault.checkedMod, Nat.ne_of_gt hyz, Nat.ne_of_gt hz, Dims.coordsOf,
        Dims.size]
    simp only [RankKind.of, coordsIn, hpoint]
    exact List.mapM_pure
  | _ :: _ :: _ :: _ :: _ => exact hgeneral

end ForkJoin
