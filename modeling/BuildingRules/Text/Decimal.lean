/-!
# Decimal numbers
-/

set_option autoImplicit false

namespace BuildingRules.Text

def digitValue (digit : Char) : Nat := digit.toNat - '0'.toNat

def decimalNumber (digits : List Char) : Nat :=
  digits.foldl (fun value digit => value * 10 + digitValue digit) 0

end BuildingRules.Text
