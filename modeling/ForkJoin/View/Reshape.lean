import ForkJoin.View.Select

/-!
# Partitioning and flattening

The outermost dimension can be split into groups of one size, and the two outermost dimensions
can be merged into one. Neither moves a cell.

## Main definitions
- `View.partition`: splits the outermost dimension.
- `View.flatten`: merges the two outermost dimensions.
-/

namespace ForkJoin

namespace View

variable {α : Type}

/-- Splits the outermost dimension into groups: `[N, ...]` becomes `[N / amount, amount, ...]`.
The groups have to come out even. -/
def partition (view : View α) (amount : Nat) : Except InputError (View α) :=
  if amount = 0 ∨ view.length % amount ≠ 0 then
    .error (.argument (.unevenGroups view.length amount))
  else do
    let shape ← Shape.ofDims? (view.length / amount :: amount :: view.shape.inner)
    return { view with shape }

/-- Merges the two outermost dimensions: `[X, Y, ...]` becomes `[X * Y, ...]`. There have to be
two. -/
def flatten (view : View α) : Except InputError (View α) :=
  match view.shape.inner with
  | [] => .error (.unsupportedRank .flatten view.rank)
  | y :: inner => do
    let shape ← Shape.ofDims? (view.length * y :: inner)
    return { view with shape }

end View

end ForkJoin
