import ForkJoin.Shape.Basic

/-!
# Views

A view is a shaped window on a flat buffer. Several views can lie on one buffer, such as the rows
of a matrix; each buffer carries an identity, so that sharing can be told from having the same
cells. Selecting from a view, partitioning it and flattening it give views on the same buffer and
copy nothing.

## Main definitions
- `Buffer`, `View`: the types.
- `View.ofArray`, `View.ofShape?`, `View.empty`: views on new buffers.
- `View.toArray`, `View.window`: the cells of a view.
-/

namespace ForkJoin

/-- The identity of a buffer. -/
abbrev BufferId := Nat

/-- A flat sequence of cells with an identity. -/
structure Buffer (α : Type) where
  id : BufferId
  cells : Array α
  deriving Repr

structure View (α : Type) where
  shape : Shape
  buffer : Buffer α
  /-- The position of the first cell of the window. -/
  offset : Nat
  deriving Repr

namespace View

variable {α : Type}

/-! ## §1 Views on new buffers -/

def ofArray (id : BufferId) (cells : Array α) : View α :=
  ⟨.vector cells.size, ⟨id, cells⟩, 0⟩

/-- Cells in a shape, which has to have as many elements as there are cells. -/
def ofShape? (id : BufferId) (shape : Shape) (cells : Array α) : Except InputError (View α) :=
  if cells.size = shape.size then .ok ⟨shape, ⟨id, cells⟩, 0⟩
  else .error (.argument (.cellCount shape.dims cells.size))

/-- The view without cells. -/
def empty (id : BufferId) : View α :=
  ofArray id #[]

/-! ## §2 Shape and cells -/

def rank (view : View α) : Nat :=
  view.shape.rank

/-- The size of the outermost dimension. -/
def length (view : View α) : Nat :=
  view.shape.outer

/-- Whether the outermost dimension is zero. -/
def isEmpty (view : View α) : Bool :=
  view.length == 0

/-- The cells of the window, in row-major order. -/
def toArray (view : View α) : Array α :=
  view.buffer.cells.extract view.offset (view.offset + view.shape.size)

/-- The cells of the window, which has to lie inside the buffer. -/
def window (view : View α) : Except Fault (Array α) :=
  Fault.checkedExtract view.buffer.cells view.offset (view.offset + view.shape.size)

/-- Whether two views lie on one buffer. -/
def sharesBuffer (v w : View α) : Bool :=
  v.buffer.id == w.buffer.id

/-- Whether two views have the same shape and equal cells. -/
def sameContents [BEq α] (v w : View α) : Bool :=
  v.shape == w.shape && v.toArray == w.toArray

end View

end ForkJoin
