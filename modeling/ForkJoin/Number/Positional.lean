import ForkJoin.Number.Shortest

/-!
# Positional text of floating-point numbers

A number is written with the fewest digits that name it, never with an exponent: very large
numbers get trailing zeros and very small ones leading zeros. Whole numbers have no point, and
the negative zero keeps its sign.

## Main definitions
- `Decimal.text`: a decimal in positional notation.
- `floatText`: the text of a float.
-/

namespace ForkJoin

namespace Decimal

/-- Moves trailing zeros of the digits into the exponent. -/
def normalize (d : Decimal) : Decimal :=
  if d.digits ≠ 0 ∧ d.digits % 10 = 0 then
    normalize ⟨d.digits / 10, d.exponent + 1⟩
  else
    d
termination_by d.digits
decreasing_by omega

/-- Positional notation: zeros after the digits for a whole number, otherwise a point inside the
digits or in front of them. -/
def text (d : Decimal) : String :=
  let d := d.normalize
  let digits := Nat.toDigits 10 d.digits
  match d.exponent with
  | .ofNat zeros => String.ofList (digits ++ List.replicate zeros '0')
  | .negSucc n =>
    let places := n + 1
    if places < digits.length then
      let whole := digits.length - places
      String.ofList (digits.take whole ++ '.' :: digits.drop whole)
    else
      String.ofList ('0' :: '.' :: List.replicate (places - digits.length) '0' ++ digits)

end Decimal

def Binary64.text : Binary64 → String
  | .nan => "NaN"
  | .infinite negative => if negative then "-inf" else "inf"
  | .finite negative mantissa exponent =>
    let magnitude :=
      if mantissa = 0 then "0" else (Rounding.ofParts mantissa exponent).shortest.text
    if negative then "-" ++ magnitude else magnitude

def floatText (x : Float) : String :=
  (Binary64.ofFloat x).text

end ForkJoin
