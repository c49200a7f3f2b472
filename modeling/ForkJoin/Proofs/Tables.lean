import ForkJoin.Proofs.Calling
import ForkJoin.Proofs.Tiling
import Mathlib.Logic.Function.Basic

/-!
# Tables

A window with one entry for every position of a span is the table of a function on positions.
Reading, replacing and joining entries of windows is then evaluation, update and restriction of
that function.

## Main definitions
- `Span.table`: the values of a function at the positions of a span.

## Main statements
- `Span.checkedGet_table`, `Span.checkedSet_table`: one entry of a table.
- `Tiling.joinArrays_table`: tables along a tiling join to one table.
-/

namespace ForkJoin

variable {β γ : Type}

namespace Span

/-- The values of a function at the positions of a span. -/
def table (span : Span) (g : Nat → β) : Array β :=
  (span.positions.map g).toArray

@[simp] theorem mem_positions {span : Span} {p : Nat} :
    p ∈ span.positions ↔ span.start ≤ p ∧ p < span.stop := by
  simp only [positions, length, List.mem_range'_1]
  omega

theorem contains_iff {span : Span} {p : Nat} :
    span.contains p = true ↔ span.start ≤ p ∧ p < span.stop := by
  simp [contains]

@[simp] theorem toList_table (span : Span) (g : Nat → β) :
    (span.table g).toList = span.positions.map g :=
  rfl

@[simp] theorem size_table (span : Span) (g : Nat → β) : (span.table g).size = span.length := by
  simp [table, positions]

/-- Tables agree if the functions agree on the span. -/
theorem table_congr {span : Span} {g h : Nat → β} (hgh : ∀ p ∈ span.positions, g p = h p) :
    span.table g = span.table h := by
  rw [table, List.map_congr_left hgh, table]

theorem replicate_eq_table (span : Span) (x : β) :
    Array.replicate span.length x = span.table fun _ => x := by
  apply Array.ext'
  simp [positions, List.map_const']

theorem getElem?_table {span : Span} {p : Nat} (g : Nat → β) (hp : span.contains p = true) :
    (span.table g)[p - span.start]? = some (g p) := by
  obtain ⟨hle, hlt⟩ := contains_iff.mp hp
  rw [← Array.getElem?_toList, toList_table, positions, List.getElem?_map,
    List.getElem?_range' (by simp only [length]; omega)]
  simp [Nat.add_sub_cancel' hle]

/-! ## §1 One entry -/

theorem checkedSub_start {span : Span} {p : Nat} (hp : span.contains p = true) :
    Fault.checkedSub p span.start = .ok (p - span.start) :=
  if_pos (contains_iff.mp hp).1

theorem checkedGet_table {span : Span} {p : Nat} (g : Nat → β) (hp : span.contains p = true) :
    Fault.checkedGet (span.table g) (p - span.start) = .ok (g p) := by
  have hget := getElem?_table g hp
  obtain ⟨hlt, hvalue⟩ := Array.getElem?_eq_some_iff.mp hget
  rw [Fault.checkedGet, dif_pos hlt, hvalue]

/-- Replacing an entry updates the function. -/
theorem checkedSet_table {span : Span} {p : Nat} (g : Nat → β) (x : β)
    (hp : span.contains p = true) :
    Fault.checkedSet (span.table g) (p - span.start) x =
      .ok (span.table (Function.update g p x)) := by
  obtain ⟨hle, hlt⟩ := contains_iff.mp hp
  have hsize : p - span.start < (span.table g).size := by
    rw [size_table, length]
    omega
  rw [Fault.checkedSet, dif_pos hsize]
  congr 1
  -- Entry by entry: the one at the position is new, all others are as before.
  apply Array.ext' (List.ext_getElem (by simp) fun i hi hi' => ?_)
  have hindex : span.start + i = p ↔ p - span.start = i := by omega
  simp only [Array.toList_set, toList_table, positions, List.getElem_set, List.getElem_map,
    List.getElem_range', Nat.one_mul, Function.update_apply, hindex]

/-! ## §2 Whole tables -/

theorem zip_table {δ : Type} (span : Span) (g : Nat → β) (h : Nat → δ) :
    (span.table g).zip (span.table h) = span.table fun p => (g p, h p) := by
  apply Array.ext'
  simp [List.zip_map']

theorem map_table {δ : Type} (span : Span) (g : Nat → β) (k : β → δ) :
    (span.table g).map k = span.table fun p => k (g p) := by
  apply Array.ext'
  simp

/-- Walking a table walks its positions. -/
theorem mapM_table_returns {δ : Type} (span : Span) (g : Nat → β) {step : β → Calling γ δ}
    {value : Nat → δ} {calls : Nat → List γ}
    (h : ∀ p ∈ span.positions, (step (g p)).Returns (value p) (calls p)) :
    ((span.table g).mapM step).Returns (span.table value) (span.positions.flatMap calls) := by
  rw [table, List.mapM_toArray, List.mapM_map]
  exact .map List.toArray (.mapM h)

/-- The entries of a sequence at the positions of a span are the window of the span. -/
theorem filterMap_positions (span : Span) {cells : Array β} (hstop : span.stop ≤ cells.size) :
    span.positions.filterMap (cells[·]?) = (cells.extract span.start span.stop).toList := by
  obtain ⟨start, stop⟩ := span
  simp only [positions, length, Array.toList_extract, List.extract_eq_take_drop] at hstop ⊢
  -- By induction on the length of the span, whose first position is split off.
  generalize hn : stop - start = n
  induction n generalizing start with
  | zero => simp
  | succ n ih =>
    have hlt : start < cells.size := by omega
    rw [List.range'_succ, List.filterMap_cons_some (Array.getElem?_eq_getElem hlt),
      ih (start + 1) (by omega), List.drop_eq_getElem_cons (i := start) (by simpa using hlt),
      List.take_succ_cons, Array.getElem_toList]

end Span

/-- Tables along a tiling join to the table of what the tiling covers. -/
theorem Tiling.joinArrays_table {start stop : Nat} {spans : List Span}
    (h : Tiling start stop spans) (g : Nat → β) :
    joinArrays (spans.map (Span.table · g)) = Span.table ⟨start, stop⟩ g := by
  apply Array.ext'
  have hpositions := h.flatMap_positions
  rw [toList_joinArrays, Span.toList_table, Span.positions, Span.length, ← hpositions,
    List.map_flatMap, List.flatMap_def, List.map_map]
  rfl

end ForkJoin
