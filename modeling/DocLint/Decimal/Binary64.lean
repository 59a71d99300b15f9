-- SUMMARY: Binary floating point numbers of sixty-four bits, and the one that is nearest to a decimal.

/-! # Binary floating point

A finite number is a mantissa below `2 ^ 53` times a power of two whose exponent is
at least `-1074`. A decimal becomes the nearest such number, and of two nearest ones
that with the even mantissa; all arithmetic is on natural numbers.
-/

namespace DocLint

inductive Binary64 where
  /-- The number `mantissa * 2 ^ exponent`. -/
  | finite (negative : Bool) (mantissa : Nat) (exponent : Int)
  | infinite (negative : Bool)
  | nan
  deriving DecidableEq, Repr

namespace Binary64

def minExponent : Int := -1074

/-- The greatest exponent of a mantissa that has all its bits. -/
def maxExponent : Int := 971

/-- The quotient that is nearest to `num / den`; of two nearest ones the even one. -/
def roundDiv (num den : Nat) : Nat :=
  let q := num / den
  let twice := 2 * (num % den)
  if twice < den then q
  else if den < twice then q + 1
  else q + q % 2

/-- Divides `num / den` by a power of two: the new numerator and denominator. -/
def scale (num den : Nat) (exponent : Int) : Nat × Nat :=
  if 0 ≤ exponent then (num, den * Nat.pow 2 exponent.toNat) else (num * Nat.pow 2 (-exponent).toNat, den)

/-- The floating point number that is nearest to `num / den`. -/
def ofRatio (negative : Bool) (num den : Nat) : Binary64 :=
  let guess : Int := (Nat.log2 num : Int) - (Nat.log2 den : Int) - 53
  let (n, d) := scale num den guess
  let exponent := max (if n / d < Nat.pow 2 53 then guess else guess + 1) minExponent
  let (n, d) := scale num den exponent
  let mantissa := roundDiv n d
  let (mantissa, exponent) :=
    if mantissa = Nat.pow 2 53 then (Nat.pow 2 52, exponent + 1) else (mantissa, exponent)
  if maxExponent < exponent then .infinite negative else .finite negative mantissa exponent

/-- The floating point number that is nearest to `digits * 10 ^ exponent`. Decimals that
    are far too large or too small are not worked out. -/
def ofDecimal (negative : Bool) (digits : Nat) (exponent : Int) : Binary64 :=
  let place : Int := (Nat.toDigits 10 digits).length + exponent
  if digits = 0 ∨ place < -400 then .finite negative 0 minExponent
  else if 400 < place then .infinite negative
  else if 0 ≤ exponent then ofRatio negative (digits * Nat.pow 10 exponent.toNat) 1
  else ofRatio negative digits (Nat.pow 10 (-exponent).toNat)

end Binary64

end DocLint
