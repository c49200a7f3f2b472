import ForkJoin.Proofs.Coordinates
import Mathlib.Logic.Function.Iterate

/-!
# Stepping

A step adds one to the coordinates: from the innermost dimension outwards, every coordinate that has
no room left goes back to zero, and the first one that has room moves on. So steps walk through an
array in row-major order and wrap behind the last position. All coordinate lists in range lie on one
cycle, and each of them leads to each other one.

## Main definitions
- `Dims.Full`: coordinates without room in any dimension.
- `Dims.carryOutwards`: the carry as a loop that ends at the first dimension with room.

## Main statements
- `Dims.step_eq_carryOutwards`: a step is this loop.
- `Dims.iterate_step_coordsOf`: several steps from the coordinates of a position.
- `Dims.existsUnique_steps`: how many steps lead from one coordinate list to another.
-/

namespace ForkJoin

namespace Dims

variable {dims inner outwards : Dims} {coords rest : Coords} {i : Nat}

/-! ## §1 One step -/

/-- No coordinate can move on within its dimension. -/
def Full (dims : Dims) (coords : Coords) : Prop :=
  List.Forall₂ (fun d c => d ≤ c + 1) dims coords

/-- Goes through dimensions and coordinates, innermost first: a coordinate without room goes back to
zero, and the first one with room moves on and ends the loop. -/
def carryOutwards : Dims → Coords → Coords
  | d :: outwards, c :: rest =>
    if c + 1 < d then (c + 1) :: rest else 0 :: carryOutwards outwards rest
  | _, rest => rest

/-- The loop passes dimensions without room, and leaves zeros behind. -/
theorem carryOutwards_append_of_full (h : Full inner coords) :
    carryOutwards (inner ++ outwards) (coords ++ rest) =
      List.replicate inner.length 0 ++ carryOutwards outwards rest := by
  induction h with
  | nil => rfl
  | @cons d c inner coords hfull _ ih =>
    rw [List.cons_append, List.cons_append, carryOutwards, if_neg (Nat.not_lt_of_le hfull), ih]
    rfl

/-- If there is room the loop ends before it gets further. -/
theorem carryOutwards_append_of_not_full (hlength : coords.length = inner.length)
    (h : ¬ Full inner coords) :
    carryOutwards (inner ++ outwards) (coords ++ rest) = carryOutwards inner coords ++ rest := by
  -- By induction on the inner dimensions, in which there is room somewhere.
  induction inner generalizing coords with
  | nil =>
    obtain rfl := List.length_eq_zero_iff.mp hlength
    exact absurd .nil h
  | cons d inner ih =>
    cases coords with
    | nil => cases hlength
    | cons c coords =>
      simp only [List.cons_append, carryOutwards]
      by_cases hroom : c + 1 < d
      · rw [if_pos hroom, if_pos hroom, List.cons_append]
      · -- There is no room here, so it is further out.
        have hinner : ¬ Full inner coords := fun hfull => h (.cons (Nat.le_of_not_lt hroom) hfull)
        rw [if_neg hroom, if_neg hroom, ih (Nat.succ.inj hlength) hinner, List.cons_append]

/-- Without room anywhere the carry leaves the outermost dimension. -/
theorem increment_of_full (h : Full dims coords) :
    increment dims coords = (true, List.replicate dims.length 0) := by
  induction h with
  | nil => rfl
  | @cons d c inner rest hfull _ ih =>
    rw [increment, ih]
    exact if_neg (Nat.not_lt_of_le hfull)

/-- Otherwise adding one with carries is the loop, which goes through the lists in reverse. -/
theorem increment_of_not_full (hlength : coords.length = dims.length) (h : ¬ Full dims coords) :
    increment dims coords = (false, (carryOutwards dims.reverse coords.reverse).reverse) := by
  induction dims generalizing coords with
  | nil =>
    obtain rfl := List.length_eq_zero_iff.mp hlength
    exact absurd .nil h
  | cons d inner ih =>
    cases coords with
    | nil => cases hlength
    | cons c rest =>
      have hrest : rest.length = inner.length := Nat.succ.inj hlength
      have hreverse : Full inner.reverse rest.reverse ↔ Full inner rest := List.forall₂_reverse_iff
      rw [increment, List.reverse_cons, List.reverse_cons]
      by_cases hfull : Full inner rest
      · -- The carry reaches this dimension, which has room.
        have hroom : c + 1 < d := Nat.lt_of_not_le fun hle => h (.cons hle hfull)
        rw [increment_of_full hfull, carryOutwards_append_of_full (hreverse.mpr hfull),
          carryOutwards, if_pos hroom]
        simp [hroom]
      · -- The loop ends further in.
        rw [ih hrest hfull, carryOutwards_append_of_not_full (by simpa using hrest)
          (mt hreverse.mp hfull), List.reverse_append]
        rfl

/-- A step is the loop, whether it wraps or not. -/
theorem step_eq_carryOutwards (hlength : coords.length = dims.length) :
    dims.step coords = .ok (carryOutwards dims.reverse coords.reverse).reverse := by
  rw [step, if_pos (Nat.le_of_eq hlength.symm)]
  by_cases hfull : Full dims coords
  · -- Every coordinate is reset, and nothing is left to carry into.
    have hloop : carryOutwards (dims.reverse ++ []) (coords.reverse ++ []) =
        List.replicate dims.reverse.length 0 ++ [] :=
      carryOutwards_append_of_full (List.forall₂_reverse_iff.mpr hfull)
    rw [List.append_nil, List.append_nil] at hloop
    rw [increment_of_full hfull, hloop]
    simp
  · rw [increment_of_not_full hlength hfull]

/-! ## §2 Several steps -/

/-- Several steps from the coordinates of a position lead to those of a later one. Behind the last
position they go on from the first. -/
theorem iterate_step_coordsOf (h : i < size dims) (n : Nat) :
    (· >>= dims.step)^[n] (.ok (coordsOf dims i)) = .ok (coordsOf dims ((i + n) % size dims)) := by
  have hpos : 0 < size dims := Nat.lt_of_le_of_lt (Nat.zero_le i) h
  induction n with
  | zero => rw [Function.iterate_zero, id_eq, Nat.add_zero, Nat.mod_eq_of_lt h]
  | succ n ih =>
    -- One more step leads on from wherever the steps before it have led to.
    rw [Function.iterate_succ_apply', ih, Fault.ok_bind, step_coordsOf (Nat.mod_lt _ hpos),
      Nat.mod_add_mod, Nat.add_assoc]

/-- Between any two coordinate lists in range there is exactly one number of steps short of a whole
round. -/
theorem existsUnique_steps {start target : Coords} (hstart : dims.InRange start)
    (htarget : dims.InRange target) :
    ∃! n, n < size dims ∧ (· >>= dims.step)^[n] (.ok start) = .ok target := by
  obtain ⟨i, hi, -, rfl⟩ := offset?_of_inRange hstart
  obtain ⟨j, hj, hoffset, rfl⟩ := offset?_of_inRange htarget
  have hpos : 0 < size dims := Nat.lt_of_le_of_lt (Nat.zero_le i) hi
  have hreach : ∀ n, (· >>= dims.step)^[n] (.ok (coordsOf dims i)) = .ok (coordsOf dims j) ↔
      (i + n) % size dims = j := by
    intro n
    rw [iterate_step_coordsOf hi]
    refine ⟨fun hcoords => ?_, fun hposition => by rw [hposition]⟩
    -- Coordinates name one position only.
    have hnamed := offset?_coordsOf (Nat.mod_lt (i + n) hpos)
    rw [Except.ok.inj hcoords, hoffset] at hnamed
    exact (Option.some.inj hnamed).symm
  refine ⟨(j + (size dims - i)) % size dims, ⟨Nat.mod_lt _ hpos, (hreach _).mpr ?_⟩, ?_⟩
  · rw [Nat.add_mod_mod, show i + (j + (size dims - i)) = j + size dims by omega,
      Nat.add_mod_right, Nat.mod_eq_of_lt hj]
  · rintro n ⟨hn, hsteps⟩
    rw [← (hreach n).mp hsteps, Nat.mod_add_mod,
      show i + n + (size dims - i) = n + size dims by omega, Nat.add_mod_right, Nat.mod_eq_of_lt hn]

end Dims

end ForkJoin
