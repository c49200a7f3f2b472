/-!
# Binary64 words as exact numbers

A 64-bit word is read as an IEEE-754 number: a sign, a mantissa and a power of two, or an
infinity, or not a number. Everything the library decides about a floating-point input (is it
whole, is it negative, which digits name it) is decided on these exact parts.

## Main definitions
- `Binary64.ofBits`: the number a word stands for.
- `Binary64.toInt?`: the integer a number is equal to, if there is one.
- `Binary64.truncateInto`: the nearest integer towards zero, within a range.
-/

namespace ForkJoin

/-- What a binary64 word stands for. -/
inductive Binary64 where
  /-- Not a number. -/
  | nan
  /-- An infinity. -/
  | infinite (negative : Bool)
  /-- The number `± mantissa * 2 ^ exponent`; both zeros have mantissa zero. -/
  | finite (negative : Bool) (mantissa : Nat) (exponent : Int)
  deriving DecidableEq, Repr

namespace Binary64

/-- The exponent of the smallest positive number, `2 ^ minExponent`. -/
def minExponent : Int := -1074

/-- The mantissas of normal numbers start here; the bit itself is not stored. -/
def hiddenBit : Nat := 1 <<< 52

/-- Reads a word: one sign bit, eleven exponent bits, fifty-two fraction bits. -/
def ofBits (word : UInt64) : Binary64 :=
  let bits := word.toNat
  let negative := 1 <<< 63 ≤ bits
  let biased := bits / hiddenBit % 2048
  let fraction := bits % hiddenBit
  if biased = 2047 then
    if fraction = 0 then .infinite negative else .nan
  else if biased = 0 then
    .finite negative fraction minExponent
  else
    .finite negative (hiddenBit + fraction) ((biased : Int) - 1075)

/-- The number a float stands for. -/
def ofFloat (x : Float) : Binary64 :=
  ofBits x.toBits

/-- The whole number `mantissa * 2 ^ exponent`, if it is whole. -/
def wholeMagnitude? (mantissa : Nat) : (exponent : Int) → Option Nat
  | .ofNat up => some (mantissa <<< up)
  | .negSucc down =>
    let unit := 1 <<< (down + 1)
    if mantissa % unit = 0 then some (mantissa / unit) else none

/-- The whole part of `mantissa * 2 ^ exponent`. -/
def wholePart (mantissa : Nat) : (exponent : Int) → Nat
  | .ofNat up => mantissa <<< up
  | .negSucc down => mantissa >>> (down + 1)

/-- Cuts off the fraction and moves what is left into the range from `low` to `high`. What is not
a number becomes zero. -/
def truncateInto (low high : Int) : Binary64 → Int
  | .nan => 0
  | .infinite negative => if negative then low else high
  | .finite negative mantissa exponent =>
    let n : Int := wholePart mantissa exponent
    max low (min (if negative then -n else n) high)

/-- The integer a number is equal to. Both zeros are the integer zero. -/
def toInt? : Binary64 → Option Int
  | .nan | .infinite _ => none
  | .finite negative mantissa exponent =>
    (wholeMagnitude? mantissa exponent).map fun n => if negative then -(n : Int) else n

end Binary64

end ForkJoin
