import ForkJoin.Operation.Sweep
import ForkJoin.Partition.Window

/-!
# Building arrays

An array is built from a shape and a function of coordinates: the element at coordinates `c` is
`f c`, and elements are filled in row-major order.

## Main definitions
- `View.build`: the array of a function.
-/

namespace ForkJoin

variable {β : Type}

/-- Appends the values of `f` at the elements of one chunk. -/
def buildKernel (shape : Shape) (f : Coords → β) : Kernel Coords (Array β) where
  warmup := 1
  work chunk out := do
    let span := Span.ofChunk chunk shape.size
    let coords ← shape.rankKind.coordsIn shape.dims span.start span.length
    coords.foldlM (fun out c => out.push <$> Calling.call f c) out

/-- The array of `shape` whose element at coordinates `c` is `f c`. -/
def View.build (setting : Setting) (shape : Shape) (f : Coords → β) :
    Except Fault (Run Coords (View β)) := do
  let run ← sweep setting .build shape.size (buildKernel shape f) fun _ => #[]
  run.conclude fun
    | none => .ok (.ok (.empty setting.newBuffer))
    | some parts => .ok (View.ofShape? setting.newBuffer shape (joinArrays parts))

end ForkJoin
