import ForkJoin.Number.Binary64

/-!
# The fewest digits that name a binary64 number

A decimal names a floating-point number when it lies in the interval of reals that round to
it. The grids of decimals with one digit, two digits, and so on are tried in turn; on each, only
the two neighbours of the number can lie in the interval. The first grid with a hit wins. Of two
hits the nearer one is taken, and of two equally near ones the upper one.

All arithmetic is on `Nat`: a number is counted in quarters of its own last place, which makes
the ends of its interval whole.

## Main definitions
- `Rounding`: a positive number with the interval that rounds to it.
- `Rounding.shortest`: the digits and the power of ten of its shortest name.
-/

namespace ForkJoin

/-- A positive number and the interval of reals that round to it, all counted in one unit. -/
structure Rounding where
  /-- The lower end. -/
  low : Nat
  /-- The number. -/
  value : Nat
  /-- The upper end. -/
  high : Nat
  /-- Whether the ends themselves round to the number. -/
  closed : Bool
  /-- The unit is `unitUp / unitDown`. -/
  unitUp : Nat
  /-- The unit is `unitUp / unitDown`. -/
  unitDown : Nat
  deriving Repr

/-- A decimal: `digits * 10 ^ exponent`. -/
structure Decimal where
  digits : Nat
  exponent : Int
  deriving DecidableEq, Repr

namespace Rounding

/-- The interval of `mantissa * 2 ^ exponent`. The unit is a quarter of the last place, so the
number is four mantissas, its upper neighbour is half a place (two units) away and so is the
lower one, except just above a power of two, where the places below are half as wide. Ties go to
the even mantissa, so the ends belong to the interval of an even one. -/
def ofParts (mantissa : Nat) (exponent : Int) : Rounding :=
  let gap := if mantissa = Binary64.hiddenBit ∧ Binary64.minExponent < exponent then 1 else 2
  let quarter := exponent - 2
  { low := 4 * mantissa - gap
    value := 4 * mantissa
    high := 4 * mantissa + 2
    closed := mantissa % 2 == 0
    unitUp := 1 <<< quarter.toNat
    unitDown := 1 <<< (-quarter).toNat }

/-- The number of decimal digits of a natural number. -/
def digitCount (n : Nat) : Nat :=
  (Nat.toDigits 10 n).length

/-- The place before the first digit: the least `k` with `value < 10 ^ k`. -/
def magnitude (r : Rounding) : Int :=
  let up := r.value * r.unitUp
  if r.unitDown ≤ up then
    digitCount (up / r.unitDown)
  else
    -- The reciprocal, rounded up, is past one; `j` digits below it move the number past one.
    let reciprocal := (r.unitDown + up - 1) / up
    1 - (digitCount (reciprocal - 1) : Int)

/-- The better of the number's two neighbours on the grid of multiples of `10 ^ place`, if one of
them names the number. -/
def nearestOnGrid? (r : Rounding) (place : Int) : Option Nat :=
  -- A grid point `d` and a bound `x` are compared as `d * step` and `x * scale`.
  let step := r.unitDown * Nat.pow 10 place.toNat
  let scale := r.unitUp * Nat.pow 10 (-place).toNat
  let names (d : Nat) : Bool :=
    if r.closed then r.low * scale ≤ d * step && d * step ≤ r.high * scale
    else r.low * scale < d * step && d * step < r.high * scale
  let below := r.value * scale / step
  let rest := r.value * scale % step
  match names below, names (below + 1) with
  | true, true => some (if 2 * rest < step then below else below + 1)
  | true, false => some below
  | false, true => some (below + 1)
  | false, false => none

/-- Seventeen digits always name a binary64 number. -/
def maxDigits : Nat := 17

/-- The shortest decimal that names the number. -/
def shortest (r : Rounding) : Decimal :=
  let places := (List.range maxDigits).map fun n : Nat => r.magnitude - 1 - (n : Int)
  let found := places.findSome? fun place => (r.nearestOnGrid? place).map (Decimal.mk · place)
  found.getD ⟨0, 0⟩

end Rounding

end ForkJoin
