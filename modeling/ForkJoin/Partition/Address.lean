import ForkJoin.Address
import ForkJoin.Partition.Even

/-!
# Addresses of chunks

The address of a chunk is the position of its first element. Of the chunk number times the chunk
size an address keeps the low 64 bits, so that addresses repeat after `chunkLimit` chunks: a slice
can be described with any chunk numbers, and those from the limit on name the chunks at the
beginning of the address space again. In a domain that ends at least one chunk before the limit of
addresses no number is that large, and the addresses are the elements that the chunks own.

## Main definitions
- `wrapChunk`: the number below the limit with the same address.
- `chunkAddresses`, `Slice.addresses`: the addresses of one chunk and of a slice of chunks.
- `Partition.toAddresses`: a partition of chunks as a partition of addresses.

## Main statements
- `chunkAddresses_eq`, `Partition.toAddresses_eq`: below the limit nothing is lost.
- `chunkCount_lt_chunkLimit`: the domains in which all chunk numbers are below the limit.
-/

namespace ForkJoin

/-! ## §1 Chunk numbers -/

/-- The number of chunks in the address space. -/
def chunkLimit : Nat :=
  addressLimit / chunkSize

/-- The chunk number below the limit that has the same address. -/
def wrapChunk (chunk : Nat) : Nat :=
  chunk % chunkLimit

/-- The address of a chunk: its number times the chunk size, as far as it fits into an address. -/
theorem wrapChunk_mul_chunkSize (chunk : Nat) :
    wrapChunk chunk * chunkSize = wrapAddress (chunk * chunkSize) := by
  have h : addressLimit = chunkLimit * chunkSize := by decide
  rw [wrapChunk, wrapAddress, h, Nat.mul_mod_mul_right]

/-- A number below the limit is kept. -/
theorem wrapChunk_of_lt {chunk : Nat} (h : chunk < chunkLimit) : wrapChunk chunk = chunk :=
  Nat.mod_eq_of_lt h

/-- No domain has more chunks than the address space. -/
theorem chunkCount_le_chunkLimit {length : Nat} (h : length < addressLimit) :
    chunkCount length ≤ chunkLimit := by
  simp only [chunkCount, chunkLimit, addressLimit, chunkSize] at *
  omega

/-- All chunk numbers are below the limit in a domain that ends a chunk before it. -/
theorem chunkCount_lt_chunkLimit {length : Nat} (h : length + chunkSize ≤ addressLimit) :
    chunkCount length < chunkLimit := by
  simp only [chunkCount, chunkLimit, addressLimit, chunkSize] at *
  omega

/-! ## §2 Spans of addresses -/

/-- Both ends of a span of chunks, with numbers below the limit. -/
def Span.wrapChunks (chunks : Span) : Span :=
  ⟨wrapChunk chunks.start, wrapChunk chunks.stop⟩

/-- The addresses of a chunk, up to the end of the domain. Behind the last chunk of the address space
comes the first address again. -/
def chunkAddresses (chunk length : Nat) : Span :=
  let start := wrapChunk chunk * chunkSize
  ⟨start, min (wrapAddress (start + chunkSize)) length⟩

/-- The addresses of a slice of chunks, up to the end of the domain. -/
def Slice.addresses (slice : Slice) (length : Nat) : Span :=
  .ofChunks slice.toSpan.wrapChunks length

/-- The addresses of each slice of chunks, none of them processed. -/
def Partition.toAddresses (chunks : Partition) (length : Nat) : Partition :=
  ⟨length, chunks.slices.map fun slice => .ofSpan (slice.addresses length)⟩

/-! ## §3 Below the limit -/

/-- The addresses of a chunk below the last one are its elements. -/
theorem chunkAddresses_eq {chunk : Nat} (length : Nat) (h : chunk + 1 < chunkLimit) :
    chunkAddresses chunk length = .ofChunk chunk length := by
  have hend : chunk * chunkSize + chunkSize < addressLimit := by
    simp only [chunkLimit, addressLimit, chunkSize] at *
    omega
  simp only [chunkAddresses, wrapChunk_of_lt (Nat.lt_of_succ_lt h), wrapAddress_of_lt hend,
    Span.ofChunk]

/-- The addresses of a slice below the limit are its elements. -/
theorem Slice.addresses_eq {slice : Slice} (length : Nat) (hstart : slice.start < chunkLimit)
    (hstop : slice.stop < chunkLimit) : slice.addresses length = .ofChunks slice.toSpan length := by
  rw [Slice.addresses, Span.wrapChunks, wrapChunk_of_lt hstart, wrapChunk_of_lt hstop]

/-- The addresses of a partition below the limit are its elements. -/
theorem Partition.toAddresses_eq {chunks : Partition} (length : Nat)
    (h : ∀ slice ∈ chunks.slices, slice.start < chunkLimit ∧ slice.stop < chunkLimit) :
    chunks.toAddresses length = chunks.toElements length := by
  simp only [Partition.toAddresses, Partition.toElements, Partition.mk.injEq, true_and]
  refine List.map_congr_left fun slice hmem => ?_
  rw [Slice.addresses_eq length (h slice hmem).1 (h slice hmem).2]

end ForkJoin
