import ForkJoin.Fault
import ForkJoin.Partition.Slice

/-!
# Windows

Workers that write to one sequence each get a window of it. The windows follow each other without
gaps, so that joining them gives the sequence back.

## Main definitions
- `splitWindows`: the windows of consecutive spans.
- `joinArrays`: the sequence of consecutive windows.
-/

namespace ForkJoin

variable {β : Type}

/-- The windows of spans that follow each other from `next` on. A span that begins elsewhere,
that ends before it begins, or that leaves the sequence is a fault. -/
def splitWindowsFrom (cells : Array β) : (next : Nat) → List Span → Except Fault (List (Array β))
  | _, [] => .ok []
  | next, span :: rest => do
    Fault.require (span.start == next)
    let width ← Fault.checkedSub span.stop span.start
    let window ← Fault.checkedExtract cells next (next + width)
    return window :: (← splitWindowsFrom cells span.stop rest)

/-- The windows of spans that follow each other from zero on. -/
def splitWindows (cells : Array β) (spans : List Span) : Except Fault (List (Array β)) :=
  splitWindowsFrom cells 0 spans

def joinArrays (parts : List (Array β)) : Array β :=
  parts.foldl (· ++ ·) #[]

@[simp] theorem toList_joinArrays (parts : List (Array β)) :
    (joinArrays parts).toList = (parts.map (·.toList)).flatten := by
  suffices h : ∀ acc : Array β,
      (parts.foldl (· ++ ·) acc).toList = acc.toList ++ (parts.map (·.toList)).flatten from h #[]
  intro acc
  induction parts generalizing acc with
  | nil => simp
  | cons part rest ih => simp [ih]

end ForkJoin
