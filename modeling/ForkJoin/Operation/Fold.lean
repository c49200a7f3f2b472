import ForkJoin.Fault

/-!
# Left folds

Values are combined from the left with a binary function. The first value is taken as it is, so
`n` values take `n - 1` calls and no values have no result.

## Main definitions
- `foldStep`: one more value.
- `foldCells`: several values.
-/

namespace ForkJoin

variable {α : Type}

/-- Combines what there is so far with one more value. -/
def foldStep (f : α → α → α) (acc : Option α) (value : α) : Calling (α × α) (Option α) :=
  match acc with
  | none => return some value
  | some acc => some <$> Calling.call (fun (a, b) => f a b) (acc, value)

/-- Folds values from the left into what there is so far. -/
def foldCells (f : α → α → α) (acc : Option α) (values : List α) :
    Calling (α × α) (Option α) :=
  values.foldlM (foldStep f) acc

end ForkJoin
