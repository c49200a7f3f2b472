import ForkJoin.View.Select

/-!
# Valid views

Every view that can be made is a window that lies inside its buffer, with a shape that can be
addressed. The cells of such a view are there.

## Main definitions
- `View.Valid`: the invariant of views.

## Main statements
- `View.window_eq`: the window of a valid view.
-/

namespace ForkJoin

namespace View

variable {α : Type}

/-- A view with an addressable shape that lies inside its buffer. -/
structure Valid (view : View α) : Prop where
  addressable : Shape.ofDims? view.shape.dims = .ok view.shape
  inside : view.offset + view.shape.size ≤ view.buffer.cells.size

variable {view : View α}

/-- The window of a valid view is there, and holds its cells. -/
theorem window_eq (h : view.Valid) : view.window = .ok view.toArray := by
  rw [window, Fault.checkedExtract, if_pos ⟨Nat.le_add_right .., h.inside⟩, toArray]

theorem size_toArray (h : view.Valid) : view.toArray.size = view.shape.size := by
  have hinside := h.inside
  simp only [toArray, Array.size_extract]
  omega

@[simp] theorem toArray_ofArray (id : BufferId) (cells : Array α) :
    (ofArray id cells).toArray = cells := by
  simp [ofArray, toArray, Shape.vector, Shape.size, Shape.dims, Dims.size]

/-- A view on a buffer of its own holds the cells of the buffer. -/
theorem toArray_mk {shape : Shape} {cells : Array α} (id : BufferId) (h : cells.size = shape.size) :
    (View.mk shape ⟨id, cells⟩ 0).toArray = cells := by
  rw [toArray, Nat.zero_add, ← h, Array.extract_size]

theorem inner_eq_nil (hrank : view.rank = 1) : view.shape.inner = [] := by
  simpa [rank, Shape.rank, Shape.dims] using hrank

/-- A sequence has as many cells as its only dimension says. -/
theorem size_eq_length (hrank : view.rank = 1) : view.shape.size = view.length := by
  simp [Shape.size, Shape.dims, inner_eq_nil hrank, Dims.size, length]

/-- The cells of a sequence are its elements. -/
theorem size_toArray_eq_length (h : view.Valid) (hrank : view.rank = 1) :
    view.toArray.size = view.length := by
  rw [size_toArray h, size_eq_length hrank]

theorem isEmpty_toArray (h : view.Valid) (hrank : view.rank = 1) :
    view.toArray.isEmpty = view.isEmpty := by
  rw [Array.isEmpty, size_toArray_eq_length h hrank, isEmpty]
  rfl

end View

end ForkJoin
