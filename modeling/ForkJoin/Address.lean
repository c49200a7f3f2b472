/-!
# Addresses

The positions of elements and the sizes of domains are 64-bit numbers. Where a sum or a product does
not fit, its low 64 bits are kept.

## Main definitions
- `addressLimit`: the bound on sizes and positions.
- `wrapAddress`: what an address keeps of a number.
-/

namespace ForkJoin

/-- Sizes and positions are below this limit. -/
def addressLimit : Nat := 1 <<< 64

/-- What an address keeps of a number. -/
def wrapAddress (n : Nat) : Nat :=
  n % addressLimit

/-- A number below the limit is kept. -/
theorem wrapAddress_of_lt {n : Nat} (h : n < addressLimit) : wrapAddress n = n :=
  Nat.mod_eq_of_lt h

/-- The bits that are lost of a number are lost of a sum with it. -/
theorem wrapAddress_add (a b : Nat) :
    wrapAddress (wrapAddress a + wrapAddress b) = wrapAddress (a + b) :=
  (Nat.add_mod a b addressLimit).symm

theorem wrapAddress_add_left (a b : Nat) : wrapAddress (wrapAddress a + b) = wrapAddress (a + b) :=
  Nat.mod_add_mod a addressLimit b

theorem wrapAddress_add_right (a b : Nat) : wrapAddress (a + wrapAddress b) = wrapAddress (a + b) :=
  Nat.add_mod_mod a b addressLimit

/-- And of a product. -/
theorem wrapAddress_mul_left (a b : Nat) : wrapAddress (wrapAddress a * b) = wrapAddress (a * b) :=
  Nat.mod_mul_mod a b addressLimit

theorem wrapAddress_mul_right (a b : Nat) : wrapAddress (a * wrapAddress b) = wrapAddress (a * b) :=
  Nat.mul_mod_mod a b addressLimit

end ForkJoin
