import ForkJoin.Fault
import Mathlib.Data.List.Forall2

/-!
# Computations that return

A computation with a log of calls returns when it yields one value and appends one list of calls,
whatever was logged before. Everything that the kernels do is put together from a few such steps,
so their values and their logs are derived by one rule for each way of putting steps together.

## Main definitions
- `Calling.Returns`: the value of a computation and the calls that it makes.

## Main statements
- `Calling.Returns.bind`, `Calling.Returns.call`, `Calling.Returns.lift`: the rules for single steps.
- `Calling.Returns.foldlM_range'`: the rule for a loop over consecutive positions.
- `Calling.Returns.foldlM_push`: the rule for a loop that appends one value at a time.
-/

namespace ForkJoin

namespace Fault

/-- A step that does not break off hands its value on. -/
@[simp] theorem ok_bind {α β : Type} (a : α) (next : α → Except Fault β) :
    (Except.ok a >>= next) = next a :=
  rfl

/-- A step that breaks off is the last one. -/
@[simp] theorem error_bind {α β : Type} (fault : Fault) (next : α → Except Fault β) :
    (Except.error fault >>= next) = .error fault :=
  rfl

/-- A computation that does not break off has a first step that does not. The same holds where an
input is rejected. -/
theorem bind_eq_ok {ε α β : Type} {x : Except ε α} {next : α → Except ε β} {b : β} :
    (x >>= next) = .ok b ↔ ∃ a, x = .ok a ∧ next a = .ok b := by
  cases x <;> simp [Bind.bind, Except.bind]

/-- A computation that breaks off does so in its first step, or after it. -/
theorem bind_eq_error {ε α β : Type} {x : Except ε α} {next : α → Except ε β} {cause : ε} :
    (x >>= next) = .error cause ↔
      x = .error cause ∨ ∃ a, x = .ok a ∧ next a = .error cause := by
  cases x <;> simp [Bind.bind, Except.bind]

@[simp] theorem pure_eq_ok {α : Type} (a : α) : (pure a : Except Fault α) = .ok a :=
  rfl

end Fault

namespace Calling

variable {γ α β σ : Type}

/-- The computation yields `value`, and appends `calls` to whatever was logged before. -/
def Returns (m : Calling γ β) (value : β) (calls : List γ) : Prop :=
  ∀ log, m log = .ok (value, log ++ calls.toArray)

namespace Returns

/-! ## §1 Single steps -/

theorem pure (value : β) : Returns (pure value : Calling γ β) value [] := by
  intro log
  rw [Array.append_empty]
  rfl

theorem bind {m : Calling γ α} {next : α → Calling γ β} {a : α} {b : β} {first second : List γ}
    (hm : m.Returns a first) (hnext : (next a).Returns b second) :
    (m >>= next).Returns b (first ++ second) := by
  intro log
  change (StateT.bind m next) log = _
  simp only [StateT.bind, hm log]
  -- The second step appends its calls to a log that ends in those of the first one.
  rw [Fault.ok_bind, hnext]
  simp

/-- A first step without calls leaves the calls of the second one. -/
theorem silent_bind {m : Calling γ α} {next : α → Calling γ β} {a : α} {b : β} {calls : List γ}
    (hm : m.Returns a []) (hnext : (next a).Returns b calls) : (m >>= next).Returns b calls :=
  hm.bind hnext

/-- A second step without calls leaves the calls of the first one. -/
theorem bind_silent {m : Calling γ α} {next : α → Calling γ β} {a : α} {b : β} {calls : List γ}
    (hm : m.Returns a calls) (hnext : (next a).Returns b []) : (m >>= next).Returns b calls := by
  have h := hm.bind hnext
  rwa [List.append_nil] at h

theorem map {m : Calling γ α} {a : α} {calls : List γ} (g : α → β) (hm : m.Returns a calls) :
    (g <$> m).Returns (g a) calls := by
  intro log
  change (StateT.map g m) log = _
  simp only [StateT.map, hm log]
  rfl

/-- A computation that makes no calls returns unless it breaks off. -/
theorem lift {x : Except Fault β} {b : β} (hx : x = .ok b) :
    Returns (liftM x : Calling γ β) b [] := by
  intro log
  subst hx
  simp [liftM, monadLift, MonadLift.monadLift, StateT.lift, Bind.bind, Except.bind, Pure.pure,
    Except.pure]

/-- A call returns the value of the function, and is logged. -/
theorem call (f : γ → β) (x : γ) : (Calling.call f x).Returns (f x) [x] := by
  intro log
  simp [Calling.call]

/-! ## §2 Loops -/

theorem foldlM_cons {τ : Type} {step : σ → τ → Calling γ σ} {state next final : σ} {x : τ}
    {xs : List τ} {first rest : List γ} (hx : (step state x).Returns next first)
    (hxs : (xs.foldlM step next).Returns final rest) :
    ((x :: xs).foldlM step state).Returns final (first ++ rest) := by
  rw [List.foldlM_cons]
  exact hx.bind hxs

/-- Single steps for all elements of a list. -/
theorem mapM {τ : Type} {step : τ → Calling γ β} {value : τ → β} {calls : τ → List γ}
    {xs : List τ} (h : ∀ x ∈ xs, (step x).Returns (value x) (calls x)) :
    (xs.mapM step).Returns (xs.map value) (xs.flatMap calls) := by
  induction xs with
  | nil => exact pure _
  | cons x xs ih =>
    have hrest := ih fun y hy => h y (List.mem_cons_of_mem _ hy)
    rw [List.mapM_cons, List.map_cons, List.flatMap_cons]
    exact .bind (h x (List.mem_cons_self ..)) (.map (value x :: ·) hrest)

/-- A loop that makes one call at each of its elements and appends the value. `args` are the
arguments of the calls. -/
theorem foldlM_push {τ : Type} {step : Array β → τ → Calling γ (Array β)} {f : γ → β}
    {xs : List τ} {args : List γ}
    (h : List.Forall₂ (fun x arg => ∀ out, (step out x).Returns (out.push (f arg)) [arg]) xs args)
    (out : Array β) :
    (xs.foldlM step out).Returns (out ++ (args.map f).toArray) args := by
  induction h generalizing out with
  | nil => simpa using pure out
  | @cons x arg xs args hx _ ih =>
    -- By the induction hypothesis the rest goes on from the value that has just been appended.
    have hrest := ih (out.push (f arg))
    have hout : out ++ ((arg :: args).map f).toArray = out.push (f arg) ++ (args.map f).toArray := by
      simp
    rw [hout]
    exact foldlM_cons (hx out) hrest

/-- A loop over consecutive positions. `state k` is the state after `k` of them, and `calls i` are
the calls made at position `i`. -/
theorem foldlM_range' {step : σ → Nat → Calling γ σ} (state : Nat → σ) (calls : Nat → List γ)
    (start n : Nat)
    (h : ∀ k < n, (step (state k) (start + k)).Returns (state (k + 1)) (calls (start + k))) :
    ((List.range' start n).foldlM step (state 0)).Returns (state n)
      ((List.range' start n).flatMap calls) := by
  induction n generalizing start state with
  | zero => exact pure _
  | succ n ih =>
    rw [List.range'_succ, List.flatMap_cons]
    -- What is left begins at the next position, in the state after the first one.
    refine foldlM_cons (h 0 (Nat.zero_lt_succ n)) (ih (fun k => state (k + 1)) (start + 1) ?_)
    intro k hk
    rw [Nat.add_right_comm, Nat.add_assoc]
    exact h (k + 1) (Nat.succ_lt_succ hk)

end Returns

end Calling

end ForkJoin
