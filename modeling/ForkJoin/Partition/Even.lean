import ForkJoin.Fault
import ForkJoin.Partition.Slice

/-!
# Even partitions

A domain is divided among workers into slices of equal width; the last slice also takes the
remainder. When there are fewer units than workers, all slices but the last are empty.

## Main definitions
- `evenSpan?`: the share of one worker.
- `Partition.even`: the shares of all workers.
- `Partition.toElements`: a partition of chunks as a partition of their elements.
-/

namespace ForkJoin

/-- The share of worker `index` out of `count` workers. -/
def evenSpan (items index count : Nat) : Span :=
  let width := items / count
  ⟨width * index, if index = count - 1 then items else width * (index + 1)⟩

/-- The share of worker `index`; there have to be workers. -/
def evenSpan? (items index count : Nat) : Except Fault Span :=
  if count = 0 then .error .zeroDivisor else .ok (evenSpan items index count)

/-- The slices of all workers, in order. -/
structure Partition where
  /-- The number of units covered. -/
  items : Nat
  slices : List Slice
  deriving DecidableEq, Repr

namespace Partition

/-- Divides units among `count` workers, of which there is at least one. -/
def even (items count : Nat) : Partition :=
  let workers := max count 1
  ⟨items, (List.range workers).map fun index => .ofSpan (evenSpan items index workers)⟩

/-- The elements of each slice of chunks, none of them processed. They are the addresses of
`Partition.toAddresses` where `Partition.toAddresses_eq` and `Partition.toAddresses_even` apply, which
is in every domain that ends a chunk before the limit of addresses. -/
def toElements (chunks : Partition) (length : Nat) : Partition :=
  ⟨length, chunks.slices.map fun slice => .ofSpan (.ofChunks slice.toSpan length)⟩

end Partition

end ForkJoin
