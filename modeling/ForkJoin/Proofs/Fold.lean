import ForkJoin.Operation.Fold
import ForkJoin.Proofs.Calling

/-!
# Folds and running folds

A left fold and the list of its intermediate values, both continued from what there is so far.
Splitting the values splits either; when the function is associative, a running fold may also be
started afresh and combined with what there was before it afterwards.

## Main definitions
- `combine`: a value together with what there is before it.
- `foldFrom`, `scanFrom`: the fold and the running fold.
- `foldCalls`: the calls that both make.

## Main statements
- `foldCells_returns`: folding cells is the fold.
- `scanFrom_append`, `foldFrom_eq_getLast?`: how running folds are put together.
- `map_combine_scanFrom`: a running fold that is combined afterwards.
-/

namespace ForkJoin

variable {α : Type} (f : α → α → α)

/-! ## §1 Definitions -/

/-- A value combined with what there is before it, if there is anything. -/
def combine : Option α → α → α
  | none, x => x
  | some acc, x => f acc x

/-- The left fold of values into what there is so far. -/
def foldFrom (acc : Option α) (xs : List α) : Option α :=
  xs.foldl (fun acc x => some (combine f acc x)) acc

/-- The left folds of all leading runs of values into what there is so far. -/
def scanFrom : Option α → List α → List α
  | _, [] => []
  | acc, x :: xs => combine f acc x :: scanFrom (some (combine f acc x)) xs

/-- The calls that a fold makes: one for each value with something before it. -/
def foldCalls : Option α → List α → List (α × α)
  | _, [] => []
  | acc, x :: xs => acc.toList.map (·, x) ++ foldCalls (some (combine f acc x)) xs

@[simp] theorem combine_none (x : α) : combine f none x = x :=
  rfl

@[simp] theorem combine_some (acc x : α) : combine f (some acc) x = f acc x :=
  rfl

@[simp] theorem foldFrom_nil (acc : Option α) : foldFrom f acc [] = acc :=
  rfl

@[simp] theorem foldFrom_cons (acc : Option α) (x : α) (xs : List α) :
    foldFrom f acc (x :: xs) = foldFrom f (some (combine f acc x)) xs :=
  rfl

/-- Once there is a value the fold is the plain one. -/
theorem foldFrom_some (acc : α) (xs : List α) :
    foldFrom f (some acc) xs = some (xs.foldl f acc) := by
  induction xs generalizing acc with
  | nil => rfl
  | cons x xs ih => exact ih (f acc x)

theorem foldFrom_append (acc : Option α) (xs ys : List α) :
    foldFrom f acc (xs ++ ys) = foldFrom f (foldFrom f acc xs) ys :=
  List.foldl_append

/-- Values fold to a value. -/
theorem exists_foldFrom_eq_some (acc : Option α) {xs : List α} (hne : xs ≠ []) :
    ∃ value, foldFrom f acc xs = some value := by
  cases xs with
  | nil => exact absurd rfl hne
  | cons x xs => exact ⟨_, foldFrom_some f _ xs⟩

/-- A fold comes to something if there is a value. -/
theorem isSome_foldFrom_none (xs : List α) : (foldFrom f none xs).isSome ↔ xs ≠ [] := by
  cases xs with
  | nil => simp
  | cons x xs => simp [foldFrom_some]

theorem foldCalls_append (acc : Option α) (xs ys : List α) :
    foldCalls f acc (xs ++ ys) = foldCalls f acc xs ++ foldCalls f (foldFrom f acc xs) ys := by
  induction xs generalizing acc with
  | nil => rfl
  | cons x xs ih => simp [foldCalls, ih]

@[simp] theorem length_scanFrom (acc : Option α) (xs : List α) :
    (scanFrom f acc xs).length = xs.length := by
  induction xs generalizing acc with
  | nil => rfl
  | cons x xs ih => simp [scanFrom, ih]

theorem scanFrom_append (acc : Option α) (xs ys : List α) :
    scanFrom f acc (xs ++ ys) = scanFrom f acc xs ++ scanFrom f (foldFrom f acc xs) ys := by
  induction xs generalizing acc with
  | nil => rfl
  | cons x xs ih => simp [scanFrom, ih]

/-- The fold is the last running fold, or what there was before if there is no value. -/
theorem foldFrom_eq_getLast? (acc : Option α) (xs : List α) :
    foldFrom f acc xs = (scanFrom f acc xs).getLast?.or acc := by
  induction xs generalizing acc with
  | nil => simp [scanFrom]
  | cons x xs ih =>
    rw [foldFrom_cons, ih, scanFrom, List.getLast?_cons]
    cases (scanFrom f (some (combine f acc x)) xs).getLast? <;> simp

/-! ## §2 Folding cells -/

theorem foldStep_returns (acc : Option α) (x : α) :
    (foldStep f acc x).Returns (some (combine f acc x)) (acc.toList.map (·, x)) := by
  cases acc with
  | none => exact .pure _
  | some acc => exact .map some (.call _ (acc, x))

theorem foldCells_returns (acc : Option α) (xs : List α) :
    (foldCells f acc xs).Returns (foldFrom f acc xs) (foldCalls f acc xs) := by
  rw [foldCells]
  induction xs generalizing acc with
  | nil => exact .pure _
  | cons x xs ih => exact .foldlM_cons (foldStep_returns f acc x) (ih _)

/-! ## §3 Associative functions -/

/-- What there is in front of a fold that is itself continued from something. -/
theorem combine_combine (hassoc : ∀ a b c, f (f a b) c = f a (f b c)) (acc start : Option α)
    (x : α) :
    combine f acc (combine f start x) =
      combine f (start.elim acc fun s => some (combine f acc s)) x := by
  cases acc <;> cases start <;> simp [hassoc]

/-- A fold of its own can be combined with what there is before it afterwards. -/
theorem foldFrom_foldFrom (hassoc : ∀ a b c, f (f a b) c = f a (f b c)) (acc : Option α)
    (xs : List α) : foldFrom f acc (foldFrom f none xs).toList = foldFrom f acc xs := by
  -- The inner fold may have begun already: that is what the induction on the values carries.
  suffices h : ∀ start : Option α,
      foldFrom f acc (foldFrom f start xs).toList = foldFrom f (foldFrom f acc start.toList) xs from
    h none
  induction xs with
  | nil => intro start; rfl
  | cons x xs ih =>
    intro start
    rw [foldFrom_cons, ih, foldFrom_cons]
    cases acc <;> cases start <;> simp [hassoc]

/-- So the folds of parts may be combined instead of the parts. -/
theorem foldFrom_flatMap_foldFrom (hassoc : ∀ a b c, f (f a b) c = f a (f b c)) (acc : Option α)
    (parts : List (List α)) :
    foldFrom f acc (parts.flatMap fun xs => (foldFrom f none xs).toList) =
      foldFrom f acc parts.flatten := by
  induction parts generalizing acc with
  | nil => rfl
  | cons xs rest ih =>
    rw [List.flatMap_cons, List.flatten_cons, foldFrom_append, foldFrom_append,
      foldFrom_foldFrom f hassoc, ih]

/-- Combining every running fold with what there is before them continues that instead. -/
theorem map_combine_scanFrom (hassoc : ∀ a b c, f (f a b) c = f a (f b c)) (acc : Option α)
    (xs : List α) : (scanFrom f none xs).map (combine f acc) = scanFrom f acc xs := by
  -- Again with a running fold that may have begun already.
  suffices h : ∀ start : Option α, (scanFrom f start xs).map (combine f acc) =
      scanFrom f (start.elim acc fun s => some (combine f acc s)) xs from h none
  induction xs with
  | nil => intro start; rfl
  | cons x xs ih =>
    intro start
    rw [scanFrom, List.map_cons, scanFrom, ih, combine_combine f hassoc]
    simp [combine_combine f hassoc]

end ForkJoin
