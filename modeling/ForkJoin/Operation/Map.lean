import ForkJoin.Operation.Sweep
import ForkJoin.Partition.Window
import ForkJoin.View.Select

/-!
# Mapping views

A function is applied to every element of the outermost dimension. It is given the element, its
index and the whole source, and its values form a sequence.

## Main definitions
- `Visit`: what the function is applied to.
- `View.map`: the sequence of values.
-/

namespace ForkJoin

variable {α β : Type}

/-- An element of the outermost dimension in its place. -/
structure Visit (α : Type) where
  element : Element α
  index : Nat
  source : View α
  deriving Repr

/-- The element of a view at an index, in its place. -/
def View.visitAt (source : View α) (index : Nat) : Except Fault (Visit α) := do
  return ⟨← source.elementAt index, index, source⟩

/-- Appends the values of `f` at the elements of one chunk. -/
def mapKernel (source : View α) (f : Visit α → β) : Kernel (Visit α) (Array β) where
  warmup := 1
  work chunk out :=
    (Span.ofChunk chunk source.length).positions.foldlM (fun out i => do
      let visit ← source.visitAt i
      return out.push (← Calling.call f visit)) out

/-- The values of `f` at the elements of a view. -/
def View.map (source : View α) (setting : Setting) (f : Visit α → β) :
    Except Fault (Run (Visit α) (View β)) := do
  let run ← sweep setting .map source.length (mapKernel source f) fun _ => #[]
  run.conclude fun
    | none => .ok (.ok (.empty setting.newBuffer))
    | some parts => .ok (.ok (.ofArray setting.newBuffer (joinArrays parts)))

end ForkJoin
