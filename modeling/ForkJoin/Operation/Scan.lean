import ForkJoin.Operation.Fold
import ForkJoin.Operation.Run
import ForkJoin.Partition.Window
import ForkJoin.Partition.Even

/-!
# Scanning sequences

The inclusive scan of a sequence holds at each position the left fold of the values up to there.
In parallel it takes two phases with a short step between them: every slice is scanned on its
own; the last values of the slices are folded into the carry that each later slice needs; every
slice but the first combines its cells with its carry. A fallback in either phase gives up what
was written and scans the sequence anew.

## Main definitions
- `scanCells`: the scan of some positions of a window.
- `carries`: what each slice has to be combined with.
- `scanInParallel`: both phases.
- `concludeScan`: what follows a parallel attempt, or the decision to make none.
- `View.scan`: the scan of a sequence.
-/

namespace ForkJoin

variable {α : Type}

/-! ## §1 Scanning a window -/

/-- Combines the cell at a position with the one before it. The window begins at position `base`,
and its first cell stays as it is. -/
def scanPosition (f : α → α → α) (base : Nat) (cells : Array α) (i : Nat) :
    Calling (α × α) (Array α) := do
  let k ← Fault.checkedSub i base
  if k = 0 then
    return cells
  else
    let before ← Fault.checkedGet cells (k - 1)
    let value ← Fault.checkedGet cells k
    let combined ← Calling.call (fun (a, b) => f a b) (before, value)
    Fault.checkedSet cells k combined

/-- Scans some positions of a window, in order. -/
def scanCells (f : α → α → α) (base : Nat) (positions : List Nat) (cells : Array α) :
    Calling (α × α) (Array α) :=
  positions.foldlM (scanPosition f base) cells

/-- A window of the output that begins at position `base`. -/
structure ScanWindow (α : Type) where
  base : Nat
  cells : Array α
  deriving Repr

def scanKernel (length : Nat) (f : α → α → α) : Kernel (α × α) (ScanWindow α) where
  warmup := 2
  work chunk
    | ⟨base, cells⟩ => ScanWindow.mk base <$>
        scanCells f base (Span.ofChunk chunk length).positions cells

/-! ## §2 Carries -/

/-- What each window has to be combined with: the fold of the last values of all windows before
it. -/
def carries (f : α → α → α) : (running : Option α) → List (Array α) →
    Calling (α × α) (List (Option α))
  | _, [] => return []
  | running, cells :: rest => do
    let next ← match cells.back? with
      | some last => foldStep f running last
      | none => pure running
    return running :: (← carries f next rest)

/-- A window of the output with its carry. -/
structure CarryWindow (α : Type) where
  base : Nat
  carry : Option α
  cells : Array α
  deriving Repr

def carryKernel (f : α → α → α) : Kernel (α × α) (CarryWindow α) where
  warmup := chunkSize
  work
    | _, window@⟨_, none, _⟩ => return window
    | i, ⟨base, some carry, cells⟩ => do
      let k ← Fault.checkedSub i base
      let value ← Fault.checkedGet cells k
      let combined ← Calling.call (fun (a, b) => f a b) (carry, value)
      return ⟨base, some carry, ← Fault.checkedSet cells k combined⟩

/-- A slice of elements with its carry. Without a carry there is nothing to do. -/
def carryShare (slice : Slice) (carry : Option α) (cells : Array α) : Slice × CarryWindow α :=
  (if carry.isSome then slice else slice.exhaust, ⟨slice.start, carry, cells⟩)

/-! ## §3 Both phases -/

/-- What the parallel scan leaves. The cells are the scan if the path is parallel. -/
structure ScanAttempt (α : Type) where
  report : Report
  cells : Array α
  calls : Array (α × α)
  phases : List PhaseTrace

/-- Scans every slice, folds the carries and combines every slice with its carry. -/
def scanInParallel (setting : Setting) (plan : Plan) (cells : Array α) (f : α → α → α) :
    Except Fault (ScanAttempt α) := do
  let mode := setting.config.mode
  let chunks := Partition.even plan.chunks plan.slices
  -- By `Partition.toAddresses_even` these are also the slices in addresses.
  let elements := chunks.toElements cells.size
  let spans := elements.slices.map (·.toSpan)
  -- First every slice is scanned on its own, chunk by chunk.
  let windows ← splitWindows cells spans
  let shares := (chunks.slices.zip windows).map fun (slice, window) =>
    (slice, ScanWindow.mk (Span.ofChunks slice.toSpan cells.size).start window)
  let (first, scanned) ← (Phase.start shares).run (scanKernel cells.size f) setting.host .scan mode
  let report := Report.ofPhase plan first
  if !first.isCompleted then
    return ⟨report, cells, scanned.calls, [scanned.trace]⟩
  -- Then the carries are folded, and the output is cut anew.
  let (carry, calls) ← (carries f none (scanned.states.map (·.cells))).run scanned.calls
  let windows ← splitWindows (joinArrays (scanned.states.map (·.cells))) spans
  -- At last every slice is combined with its carry, element by element.
  let shares := ((elements.slices.zip windows).zip carry).map fun ((slice, window), carry) =>
    carryShare slice carry window
  let (second, carried) ← (Phase.start shares).run (carryKernel f) setting.host .scan mode
  return {
    report := report.andThen second
    cells := joinArrays (carried.states.map (·.cells))
    calls := calls ++ carried.calls
    phases := [scanned.trace, carried.trace] }

/-- The parallel attempt, if the plan makes one. -/
def attemptScan (setting : Setting) (plan : Plan) (cells : Array α) (f : α → α → α) :
    Except Fault (ScanAttempt α) :=
  if plan.isParallel then scanInParallel setting plan cells f
  else .ok ⟨Report.sequential plan, cells, #[], []⟩

/-- Ends a scan: what an attempt gave up is scanned anew if that is permitted. -/
def concludeScan (setting : Setting) (cells : Array α) (f : α → α → α)
    (attempt : ScanAttempt α) : Except Fault (Run (α × α) (View α)) := do
  let config := setting.config
  let unfinished := attempt.report.path == .sequential
  let (out, calls) ←
    if unfinished && config.sequential then
      -- What the attempt has written is given up: the source is scanned.
      (scanCells f 0 (List.range cells.size) cells).run attempt.calls
    else
      .ok (attempt.cells, attempt.calls)
  let view :=
    if unfinished && !config.sequential then .empty setting.newBuffer
    else .ofArray setting.newBuffer out
  return { result := (attempt.report.check config).map fun report => (view, report)
           calls
           phases := attempt.phases }

def View.scan (source : View α) (setting : Setting) (f : α → α → α) :
    Except Fault (Run (α × α) (View α)) :=
  if source.rank ≠ 1 then
    .ok (.rejected (.unsupportedRank .scan source.rank))
  else if source.isEmpty then
    .ok (.rejected .emptyDomain)
  else do
    let cells ← source.window
    let attempt ← attemptScan setting (setting.plan .scan source.length) cells f
    concludeScan setting cells f attempt

end ForkJoin
