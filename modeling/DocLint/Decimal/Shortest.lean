-- SUMMARY: The fewest decimal digits that read back as a given floating point number, and the number written with them.
import DocLint.Decimal.Binary64

/-! # Shortest decimals

The decimals that read back as a number form an interval around it. For one, two and
more digits in turn, the two decimals of that many digits next to the number are
tried, and the first that lies in the interval is taken, the nearer one if both do.
-/

namespace DocLint

namespace Binary64

/-- A positive number with the interval of what reads back as it, over one denominator. -/
structure Interval where
  lo : Nat
  value : Nat
  hi : Nat
  den : Nat
  /-- The ends of the interval belong to it. -/
  closed : Bool

/-- The interval of `mantissa * 2 ^ exponent`. Below a power of two the numbers lie
    twice as close. -/
def interval (mantissa : Nat) (exponent : Int) : Interval :=
  let gap := if mantissa = Nat.pow 2 52 ∧ minExponent < exponent then 1 else 2
  let e := exponent - 2
  let factor := if 0 ≤ e then Nat.pow 2 e.toNat else 1
  let den := if 0 ≤ e then 1 else Nat.pow 2 (-e).toNat
  { lo := (4 * mantissa - gap) * factor
    value := 4 * mantissa * factor
    hi := (4 * mantissa + 2) * factor
    den := den
    closed := mantissa % 2 = 0 }

namespace Interval

/-- Divides by a power of ten. -/
def shift (i : Interval) (place : Int) : Interval :=
  if 0 ≤ place then { i with den := i.den * Nat.pow 10 place.toNat }
  else
    let f := Nat.pow 10 (-place).toNat
    { i with lo := i.lo * f, value := i.value * f, hi := i.hi * f }

/-- The whole number reads back. -/
def has (i : Interval) (n : Nat) : Bool :=
  if i.closed then i.lo ≤ n * i.den && n * i.den ≤ i.hi
  else i.lo < n * i.den && n * i.den < i.hi

/-- The whole number next to the value that reads back, the nearer one if two do. -/
def pick? (i : Interval) : Option Nat :=
  let below := i.value / i.den
  match i.has below, i.has (below + 1) with
  | true, true =>
    if 2 * (i.value % i.den) < i.den then some below else some (below + 1)
  | true, false => some below
  | false, true => some (below + 1)
  | false, false => none

/-- How many digits stand before the point; for a number below one, the zeros that stand
    right after it count against it. -/
def places (i : Interval) : Int :=
  if i.den ≤ i.value then (Nat.toDigits 10 (i.value / i.den)).length
  else
    let zeros := ((List.range 400).find? fun j => i.den ≤ i.value * Nat.pow 10 (j + 1)).getD 0
    Int.negOfNat zeros

/-- The digits and the power of ten of the shortest decimal. What is picked may be the
    power of ten above the value, which is one digit. -/
def shortest (i : Interval) : Nat × Int :=
  let candidate (count : Nat) : Option (Nat × Int) :=
    let place := i.places - count
    ((i.shift place).pick?).map fun n => if n = Nat.pow 10 count then (1, i.places) else (n, place)
  ((List.range 17).findSome? fun k => candidate (k + 1)).getD (0, 0)

end Interval

/-- Digits at a power of ten, written out, with at least one digit on each side of the
    point. -/
def positional (digits : Nat) (place : Int) : List Char :=
  let text := Nat.toDigits 10 digits
  if 0 ≤ place then text ++ List.replicate place.toNat '0' ++ ['.', '0']
  else
    let after := (-place).toNat
    let padded := List.replicate (after + 1 - text.length) '0' ++ text
    padded.take (padded.length - after) ++ '.' :: padded.drop (padded.length - after)

/-- The number in shortest decimal digits, never with an exponent. -/
def toText : Binary64 → String
  | .nan => "NaN"
  | .infinite negative => if negative then "-inf" else "inf"
  | .finite negative mantissa exponent =>
    let body :=
      if mantissa = 0 then ['0', '.', '0']
      else
        let (digits, place) := (interval mantissa exponent).shortest
        positional digits place
    String.ofList (if negative then '-' :: body else body)

end Binary64

end DocLint
