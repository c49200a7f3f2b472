import ForkJoin.Fault

/-!
# Scalars in byte buffers

The primitive fields of a record are little-endian numbers, read as floating-point numbers that
can hold each of them exactly.

## Main definitions
- `ScalarKind`: the primitive types.
- `ScalarKind.read?`: the number at an offset.
-/

namespace ForkJoin

/-- The primitive types. -/
inductive ScalarKind where
  | u8
  | i32
  | u32
  | f32
  | f64
  deriving DecidableEq, Repr

namespace ScalarKind

/-- The number of bytes, which is also the alignment. -/
def size : ScalarKind → Nat
  | .u8 => 1
  | .i32 | .u32 | .f32 => 4
  | .f64 => 8

def name : ScalarKind → String
  | .u8 => "U8"
  | .i32 => "I32"
  | .u32 => "U32"
  | .f32 => "F32"
  | .f64 => "F64"

/-- The number whose bytes are given, least significant byte first. -/
def ofBytes : List UInt8 → Nat
  | [] => 0
  | byte :: rest => byte.toNat + 256 * ofBytes rest

/-- The number that a word of this type stands for. -/
def decode (kind : ScalarKind) (word : Nat) : Float :=
  match kind with
  | .u8 | .u32 => Float.ofNat word
  | .i32 => Float.ofInt (Int.bmod word (1 <<< 32))
  | .f32 => (Float32.ofBits word.toUInt32).toFloat
  | .f64 => Float.ofBits word.toUInt64

/-- The number at an offset, if the buffer holds all of its bytes. -/
def read? (kind : ScalarKind) (bytes : Array UInt8) (offset : Nat) : Option Float :=
  if offset + kind.size ≤ bytes.size then
    some (kind.decode (ofBytes (bytes.extract offset (offset + kind.size)).toList))
  else
    none

end ScalarKind

end ForkJoin
