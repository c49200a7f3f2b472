/-!
# Slices and chunks

The positions of a domain are cut into chunks of a fixed size, the last of which may be short. A
slice is the run of chunks (or of single elements) that one worker owns, together with the first
unit that is still to be processed: a worker that stops early is resumed exactly there.

## Main definitions
- `Span`: a run of positions.
- `Span.ofChunk`, `Span.ofChunks`: the elements of one chunk and of a run of chunks.
- `Slice`: a span of units with its progress.
- `Slice.passEnd`: where one pass over a slice has to stop.
-/

namespace ForkJoin

/-! ## §1 Spans -/

/-- The number of elements in a chunk. A filter keeps one bit per element of a chunk in a word of
this many bits. -/
def chunkSize : Nat := 32

/-- The number of chunks that cover a domain. -/
def chunkCount (length : Nat) : Nat :=
  (length + chunkSize - 1) / chunkSize

/-- The positions from `start` up to `stop`. -/
structure Span where
  start : Nat
  stop : Nat
  deriving DecidableEq, Repr

namespace Span

def length (span : Span) : Nat :=
  span.stop - span.start

def positions (span : Span) : List Nat :=
  List.range' span.start span.length

/-- Whether a position lies in the span. -/
def contains (span : Span) (position : Nat) : Bool :=
  span.start ≤ position && position < span.stop

/-- The elements of a chunk, up to the end of the domain. `chunkAddresses` has their addresses. -/
def ofChunk (chunk length : Nat) : Span :=
  ⟨chunk * chunkSize, min (chunk * chunkSize + chunkSize) length⟩

/-- The elements of the chunks in a span, up to the end of the domain. `Slice.addresses` has their
addresses. -/
def ofChunks (chunks : Span) (length : Nat) : Span :=
  ⟨min (chunks.start * chunkSize) length, min (chunks.stop * chunkSize) length⟩

end Span

/-! ## §2 Slices -/

/-- The units one worker owns and the first of them that is not yet processed. -/
structure Slice extends Span where
  pos : Nat
  deriving DecidableEq, Repr

namespace Slice

/-- A slice of which nothing is processed. -/
def ofSpan (span : Span) : Slice :=
  ⟨span, span.start⟩

def isEmpty (slice : Slice) : Bool :=
  slice.length == 0

def isFinished (slice : Slice) : Bool :=
  slice.pos == slice.stop

def isUntouched (slice : Slice) : Bool :=
  slice.pos == slice.start

/-- Where a pass stops: at the end of the slice, or during a warmup at most `units` ahead. -/
def passEnd (slice : Slice) (warmup : Bool) (units : Nat) : Nat :=
  if warmup then min slice.stop (slice.pos + units) else slice.stop

/-- The slice after its next unit is processed. -/
def advance (slice : Slice) : Slice :=
  { slice with pos := slice.pos + 1 }

/-- The slice with all units processed. -/
def exhaust (slice : Slice) : Slice :=
  { slice with pos := slice.stop }

end Slice

end ForkJoin
