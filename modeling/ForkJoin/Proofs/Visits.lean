import ForkJoin.Operation.Map
import ForkJoin.Proofs.Calling
import ForkJoin.Proofs.Tables
import ForkJoin.Proofs.Views

/-!
# Visits

Walking the outermost dimension of a valid view visits every element once: the element that its
index selects, together with the index and the source. The cells of the elements, one element
after another, are the rows of the window.

## Main definitions
- `Element.cells`: the cells of an element.
- `View.visit?`, `View.visitsAt`, `View.visits`: the visits of a view.
- `View.rowAt`: the cells that belong to an index.
- `View.Covers`: visits of all elements, each of them once and in order.

## Main statements
- `View.elementAt_eq`: what an index leads to.
- `View.filter_visitsAt`, `View.flatMap_cells_visitsAt`: some of the visits, and their cells.
- `View.covers_visits`: every element is visited once.
-/

namespace ForkJoin

variable {α : Type}

def Element.cells : Element α → List α
  | .cell value => [value]
  | .view sub => sub.toArray.toList

namespace View

/-- The visit of the element at an index. -/
def visit? (source : View α) (index : Nat) : Option (Visit α) :=
  (source.element? index).map fun element => ⟨element, index, source⟩

/-- The visits of the elements at some indices, in their order. -/
def visitsAt (source : View α) (indices : List Nat) : List (Visit α) :=
  indices.filterMap source.visit?

def visits (source : View α) : List (Visit α) :=
  source.visitsAt (List.range source.length)

/-- The part of the window that belongs to an index. -/
def rowAt (source : View α) (index : Nat) : List α :=
  (source.toArray.extract (index * source.innerSize) ((index + 1) * source.innerSize)).toList

theorem visitsAt_append (source : View α) (first second : List Nat) :
    source.visitsAt (first ++ second) = source.visitsAt first ++ source.visitsAt second :=
  List.filterMap_append

theorem visitsAt_flatMap {ι : Type} (source : View α) (xs : List ι) (indices : ι → List Nat) :
    source.visitsAt (xs.flatMap indices) = xs.flatMap fun x => source.visitsAt (indices x) :=
  List.filterMap_flatMap

/-- The visits of some elements that satisfy a predicate are those of some of the indices. -/
theorem filter_visitsAt (source : View α) (keep : Visit α → Bool) (indices : List Nat) :
    (source.visitsAt indices).filter keep =
      source.visitsAt (indices.filter fun i => (source.visit? i).any keep) := by
  induction indices with
  | nil => rfl
  | cons i rest ih =>
    simp only [visitsAt] at ih ⊢
    cases hvisit : source.visit? i with
    | none => simp [hvisit, ih]
    | some visit => cases hkeep : keep visit <;> simp [hvisit, hkeep, ih]

variable {view : View α} {index : Nat}

theorem size_eq_mul (view : View α) : view.shape.size = view.length * view.innerSize :=
  rfl

/-- A row lies inside the window. -/
theorem row_le (hi : index < view.length) :
    (index + 1) * view.innerSize ≤ view.shape.size := by
  rw [size_eq_mul]
  exact Nat.mul_le_mul_right _ hi

theorem rowAt_eq (hi : index < view.length) :
    view.rowAt index = (view.buffer.cells.extract (view.offset + index * view.innerSize)
      (view.offset + (index + 1) * view.innerSize)).toList := by
  rw [rowAt, toArray, Array.extract_extract,
    Nat.min_eq_left (Nat.add_le_add_left (row_le hi) view.offset)]

/-- An index in range leads to the element that it selects, whose cells are its row. -/
theorem elementAt_eq (h : view.Valid) (hi : index < view.length) :
    ∃ element, view.elementAt index = .ok element ∧ view.element? index = some element ∧
      element.cells = view.rowAt index := by
  have hinside := h.inside
  rw [size_eq_mul] at hinside
  rw [rowAt_eq hi]
  obtain ⟨⟨outer, inner⟩, buffer, offset⟩ := view
  simp only [length, innerSize] at hi hinside ⊢
  cases inner with
  | nil =>
    -- The elements of a sequence are its cells.
    simp only [Dims.size, Nat.mul_one] at hinside ⊢
    have hbound : offset + index < buffer.cells.size := by omega
    refine ⟨.cell buffer.cells[offset + index], ?_, ?_, ?_⟩
    · simp only [elementAt, length, Fault.checkedGet]
      rw [if_pos ⟨hinside, hi⟩, dif_pos hbound]
      rfl
    · simp [element?, get?, Shape.rankKind, RankKind.of, RankKind.offset?, Shape.dims, hi, hbound]
    · have hrow := Span.filterMap_positions ⟨offset + index, offset + (index + 1)⟩ hbound
      rw [Element.cells, ← hrow]
      simp [Span.positions, Span.length, Nat.add_sub_add_left, hbound]
  | cons next inner =>
    -- In all other views they are views on the same buffer.
    refine ⟨.view ⟨⟨next, inner⟩, buffer, offset + index * Dims.size (next :: inner)⟩, ?_, ?_, ?_⟩
    · simp [elementAt, length, hi, innerSize]
    · simp [element?, get?, Shape.dims, Dims.offset?, Shape.suffix?, hi]
    · rw [Element.cells, toArray, Nat.succ_mul, ← Nat.add_assoc]
      rfl

theorem visitAt_eq (h : view.Valid) (hi : index < view.length) :
    ∃ visit, view.visitAt index = .ok visit ∧ view.visit? index = some visit ∧
      visit.element.cells = view.rowAt index := by
  obtain ⟨element, hat, hselect, hcells⟩ := elementAt_eq h hi
  exact ⟨⟨element, index, view⟩, by rw [visitAt, hat]; rfl, by rw [visit?, hselect]; rfl, hcells⟩

/-- Walking indices in range leads to their visits. -/
theorem forall₂_visitsAt (h : view.Valid) {indices : List Nat}
    (hin : ∀ i ∈ indices, i < view.length) :
    List.Forall₂ (fun i visit => view.visitAt i = .ok visit) indices (view.visitsAt indices) := by
  induction indices with
  | nil => exact .nil
  | cons i rest ih =>
    obtain ⟨visit, hat, hvisit, -⟩ := visitAt_eq h (hin i (List.mem_cons_self ..))
    rw [visitsAt, List.filterMap_cons_some hvisit]
    exact .cons hat (ih fun j hj => hin j (List.mem_cons_of_mem _ hj))

theorem index_of_visit? {visit : Visit α} (h : view.visit? index = some visit) :
    visit.index = index := by
  obtain ⟨element, -, rfl⟩ := Option.map_eq_some_iff.mp h
  rfl

/-- There is a visit for every index in range. -/
theorem map_index_visitsAt (h : view.Valid) {indices : List Nat}
    (hin : ∀ i ∈ indices, i < view.length) : (view.visitsAt indices).map (·.index) = indices := by
  induction indices with
  | nil => rfl
  | cons i rest ih =>
    obtain ⟨visit, -, hvisit, -⟩ := visitAt_eq h (hin i (List.mem_cons_self ..))
    have hrest := ih fun j hj => hin j (List.mem_cons_of_mem _ hj)
    rw [visitsAt, List.filterMap_cons_some hvisit, List.map_cons, index_of_visit? hvisit]
    exact congrArg (i :: ·) hrest

/-- The cells of visited elements are the rows of their indices. -/
theorem flatMap_cells_visitsAt (h : view.Valid) {indices : List Nat}
    (hin : ∀ i ∈ indices, i < view.length) :
    (view.visitsAt indices).flatMap (·.element.cells) = indices.flatMap view.rowAt := by
  induction indices with
  | nil => rfl
  | cons i rest ih =>
    obtain ⟨visit, -, hvisit, hcells⟩ := visitAt_eq h (hin i (List.mem_cons_self ..))
    have hrest := ih fun j hj => hin j (List.mem_cons_of_mem _ hj)
    rw [visitsAt, List.filterMap_cons_some hvisit, List.flatMap_cons, List.flatMap_cons, hcells]
    exact congrArg (view.rowAt i ++ ·) hrest

theorem length_visits (h : view.Valid) : view.visits.length = view.length := by
  have hwalk := forall₂_visitsAt h fun _ hi => List.mem_range.mp hi
  rw [visits, ← hwalk.length_eq, List.length_range]

/-- The visit of every index is at this index. -/
theorem getElem?_visits (h : view.Valid) (hi : index < view.length) :
    ∃ element, view.element? index = some element ∧
      view.visits[index]? = some ⟨element, index, view⟩ := by
  obtain ⟨element, hat, helement, -⟩ := elementAt_eq h hi
  -- The walk visits the elements in the order of their indices.
  have hwalk := forall₂_visitsAt h fun _ hi => List.mem_range.mp hi
  have hlt : index < view.visits.length := by rwa [length_visits h]
  have hvisit := hwalk.get (List.length_range.symm ▸ hi) hlt
  have hindex : (List.range view.length).get ⟨index, List.length_range.symm ▸ hi⟩ = index := by simp
  rw [hindex, visitAt, hat] at hvisit
  refine ⟨element, helement, ?_⟩
  rw [List.getElem?_eq_getElem hlt]
  exact congrArg some (Except.ok.inj hvisit).symm

/-- The visits are those of all elements, each of them once and in order. -/
structure Covers (view : View α) (visits : List (Visit α)) : Prop where
  indices_eq : visits.map (·.index) = List.range view.length
  element_eq : ∀ visit ∈ visits, view.element? visit.index = some visit.element
  source_eq : ∀ visit ∈ visits, visit.source = view

theorem covers_visits (h : view.Valid) : view.Covers view.visits where
  indices_eq := map_index_visitsAt h fun _ hi => List.mem_range.mp hi
  element_eq visit hvisit := by
    obtain ⟨i, -, hi⟩ := List.mem_filterMap.mp hvisit
    obtain ⟨element, helement, rfl⟩ := Option.map_eq_some_iff.mp hi
    exact helement
  source_eq visit hvisit := by
    obtain ⟨i, -, hi⟩ := List.mem_filterMap.mp hvisit
    obtain ⟨element, -, rfl⟩ := Option.map_eq_some_iff.mp hi
    rfl

end View

end ForkJoin
