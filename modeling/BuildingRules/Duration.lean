/-!
# Lengths of time

A duration is a whole number of nanoseconds. It is written in the largest unit that it fills at
least once, with the fraction it needs and no more.
-/

set_option autoImplicit false

namespace BuildingRules

structure Duration where
  nanoseconds : Nat
  deriving DecidableEq, Repr

namespace Duration

def ofMillis (count : Nat) : Duration := ⟨count * 1000000⟩

def ofParts (seconds nanoseconds : Nat) : Duration := ⟨seconds * 1000000000 + nanoseconds⟩

def seconds (duration : Duration) : Nat := duration.nanoseconds / 1000000000

def subsecond (duration : Duration) : Nat := duration.nanoseconds % 1000000000

def millis (duration : Duration) : Nat := duration.nanoseconds / 1000000

/-- A unit of time: its length in nanoseconds, the decimal places it divides into, its sign. -/
structure Scale where
  length : Nat
  places : Nat
  sign : String

def scale (duration : Duration) : Scale :=
  if 1000000000 ≤ duration.nanoseconds then ⟨1000000000, 9, "s"⟩
  else if 1000000 ≤ duration.nanoseconds then ⟨1000000, 6, "ms"⟩
  else if 1000 ≤ duration.nanoseconds then ⟨1000, 3, "µs"⟩
  else ⟨1, 0, "ns"⟩

/-- The decimal digits of `value`, filled up with zeros to `places` and then freed of the zeros
at the end. -/
def fractionDigits (value places : Nat) : List Char :=
  let digits := Nat.toDigits 10 value
  let filled := List.replicate (places - digits.length) '0' ++ digits
  (filled.reverse.dropWhile (· == '0')).reverse

def display (duration : Duration) : String :=
  let scale := duration.scale
  let whole := Nat.repr (duration.nanoseconds / scale.length)
  let rest := duration.nanoseconds % scale.length
  let fraction := if rest = 0 then "" else "." ++ String.ofList (fractionDigits rest scale.places)
  whole ++ fraction ++ scale.sign

end Duration

end BuildingRules
