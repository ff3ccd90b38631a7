import BuildingRules.Text.Decimal

/-!
# Decimal numbers as doubles

A number with a point or an exponent is a significand of 64 bits and a power of ten. Its double is
the product of their doubles, so the last digits decide less than they write: a number is within the
range of a double when that product is, not when the number that is written is.

`exceedsDouble` says which numbers are out of range; below `2 ^ 53`, `nearestDouble` is exact.
-/

set_option autoImplicit false

namespace BuildingRules.Json

structure Decimal where
  significand : Nat
  exponent : Int
  deriving DecidableEq, Repr

namespace Decimal

/-- How many significands there are: they have 64 bits. -/
def significandBound : Nat := Nat.pow 2 64

/-- The number with further digits of its whole part. The first digit for which the significand has
no room is left out with all that follow it, and each of these raises the exponent. -/
def addWhole (decimal : Decimal) : List Char → Decimal
  | [] => decimal
  | digit :: rest =>
    let longer := decimal.significand * 10 + Text.digitValue digit
    if longer < significandBound then addWhole { decimal with significand := longer } rest
    else { decimal with exponent := decimal.exponent + (rest.length + 1) }

/-- The number with digits after the point. The first one for which the significand has no room is
left out with all that follow it. -/
def addPlaces (decimal : Decimal) : List Char → Decimal
  | [] => decimal
  | digit :: rest =>
    let longer := decimal.significand * 10 + Text.digitValue digit
    if longer < significandBound then addPlaces ⟨longer, decimal.exponent - 1⟩ rest else decimal

def ofDigits (whole places : List Char) (exponent : Int) : Decimal :=
  let digits := addPlaces (addWhole ⟨0, 0⟩ whole) places
  { digits with exponent := digits.exponent + exponent }

def doubleBits : Nat := 53

/-- The double nearest to a natural number, a tie going to the even significand. The exponents of
doubles are taken as unbounded. -/
def nearestDouble (number : Nat) : Nat :=
  let step := Nat.pow 2 (number.log2 + 1 - doubleBits)
  let steps := number / step
  let rest := number % step
  if step < rest * 2 || (rest * 2 == step && steps % 2 == 1) then (steps + 1) * step
  else steps * step

/-- A number from which on no double is nearest: half a step beyond the largest double. -/
def doubleBound : Nat := Nat.pow 2 1024 - Nat.pow 2 970

def maxPower : Nat := 308

def exceedsDouble (decimal : Decimal) : Bool :=
  match decimal.significand, decimal.exponent with
  | 0, _ => false
  | _, .negSucc _ => false
  | significand, .ofNat power =>
    maxPower < power
      || doubleBound ≤ nearestDouble significand * nearestDouble (Nat.pow 10 power)

end Decimal

end BuildingRules.Json
