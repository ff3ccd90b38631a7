/-!
# Hexadecimal numbers
-/

set_option autoImplicit false

namespace BuildingRules.Text

def hexDigits (value : Nat) : List Char := Nat.toDigits 16 value

def upperHexDigits (value : Nat) : List Char := (hexDigits value).map Char.toUpper

def hexValue? (character : Char) : Option Nat :=
  if '0' ≤ character && character ≤ '9' then some (character.toNat - '0'.toNat)
  else if 'a' ≤ character && character ≤ 'f' then some (character.toNat - 'a'.toNat + 10)
  else if 'A' ≤ character && character ≤ 'F' then some (character.toNat - 'A'.toNat + 10)
  else none

def hexNumber? (digits : List Char) : Option Nat :=
  digits.foldlM (fun value digit => (hexValue? digit).map (value * 16 + ·)) 0

/-- The character with a code point; half of a surrogate pair and numbers beyond the last code
point have none. -/
def scalar? (code : Nat) : Option Char :=
  if code.isValidChar then some (Char.ofNat code) else none

end BuildingRules.Text
