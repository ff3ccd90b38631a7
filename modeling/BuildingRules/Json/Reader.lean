import BuildingRules.Json
import BuildingRules.Json.Decimal
import BuildingRules.Text.Hex

/-!
# Reading JSON text

The grammar is the strict one: no comments, no trailing commas, no leading zeros, no byte order
mark, no bare control characters and no half of a surrogate pair. Arrays and objects may be nested
127 deep, and a number must be within the range of a double.

Each reader takes the characters that are left and gives what it read and what is left after it.
-/

set_option autoImplicit false

namespace BuildingRules.Json.Reader

def isSpace (character : Char) : Bool :=
  character == ' ' || character == '\n' || character == '\t' || character == '\r'

def skipSpace (text : List Char) : List Char := text.dropWhile isSpace

def afterWord? (word text : List Char) : Option (List Char) :=
  if word.isPrefixOf text then some (text.drop word.length) else none

/-! ## Strings -/

def simpleEscape? : Char → Option Char
  | '"' => some '"'
  | '\\' => some '\\'
  | '/' => some '/'
  | 'b' => some '\x08'
  | 'f' => some '\x0c'
  | 'n' => some '\n'
  | 'r' => some '\r'
  | 't' => some '\t'
  | _ => none

def joinSurrogates (high low : Nat) : Char :=
  Char.ofNat (0x10000 + (high - 0xD800) * 0x400 + (low - 0xDC00))

/-- The rest of a string after its opening quote. When it is read laxly, halves of surrogate pairs
may stand alone. -/
def stringRest (lax : Bool) : List Char → Option (List Char × List Char)
  | [] => none
  | '"' :: rest => some ([], rest)
  | '\\' :: 'u' :: a :: b :: c :: d :: rest =>
    match Text.hexNumber? [a, b, c, d] with
    | none => none
    | some code =>
      if lax then
        (stringRest lax rest).map fun (text, left) =>
          ((Text.scalar? code).getD '\ufffd' :: text, left)
      else if 0xD800 ≤ code && code ≤ 0xDBFF then
        match rest with
        | '\\' :: 'u' :: e :: f :: g :: h :: rest =>
          match Text.hexNumber? [e, f, g, h] with
          | none => none
          | some low =>
            if 0xDC00 ≤ low && low ≤ 0xDFFF then
              (stringRest lax rest).map fun (text, left) => (joinSurrogates code low :: text, left)
            else none
        | _ => none
      else if 0xDC00 ≤ code && code ≤ 0xDFFF then none
      else (stringRest lax rest).map fun (text, left) => (Char.ofNat code :: text, left)
  | '\\' :: escaped :: rest =>
    match simpleEscape? escaped with
    | some character => (stringRest lax rest).map fun (text, left) => (character :: text, left)
    | none => none
  | character :: rest =>
    if character.toNat < 0x20 || character == '\\' then none
    else (stringRest lax rest).map fun (text, left) => (character :: text, left)

def string? (lax : Bool) : List Char → Option (String × List Char)
  | '"' :: rest => (stringRest lax rest).map fun (text, left) => (String.ofList text, left)
  | _ => none

/-! ## Numbers -/

def digits? (text : List Char) : Option (List Char × List Char) :=
  let digits := text.takeWhile Char.isDigit
  if digits.isEmpty then none else some (digits, text.dropWhile Char.isDigit)

/-- Digits of a whole part: a zero stands alone. -/
def wholeDigits? (text : List Char) : Option (List Char × List Char) :=
  match digits? text with
  | some ('0' :: _ :: _, _) => none
  | found => found

def fraction? : List Char → Option (List Char × List Char)
  | '.' :: rest => digits? rest
  | text => some ([], text)

def exponent? : List Char → Option (Option Int × List Char)
  | character :: rest =>
    if character == 'e' || character == 'E' then
      match rest with
      | '-' :: rest =>
        (digits? rest).map fun (digits, left) => (some (-(Text.decimalNumber digits : Int)), left)
      | '+' :: rest =>
        (digits? rest).map fun (digits, left) => (some (Text.decimalNumber digits : Int), left)
      | rest => (digits? rest).map fun (digits, left) => (some (Text.decimalNumber digits : Int), left)
    else some (none, character :: rest)
  | [] => some (none, [])

def unsigned? (lax negative : Bool) (text : List Char) : Option (JsonNumber × List Char) := do
  let (whole, left) ← wholeDigits? text
  let (places, left) ← fraction? left
  let (exponent, left) ← exponent? left
  let written := String.ofList ((if negative then ['-'] else []) ++ text.take
    (text.length - left.length))
  let value := Text.decimalNumber whole
  if places.isEmpty && exponent.isNone && !negative && value < Nat.pow 2 64 then
    some (.integer value, left)
  else if places.isEmpty && exponent.isNone && negative && value != 0 && value ≤ Nat.pow 2 63 then
    some (.integer (-(value : Int)), left)
  else if !lax && (Decimal.ofDigits whole places (exponent.getD 0)).exceedsDouble then none
  else some (.real written, left)

def number? (lax : Bool) : List Char → Option (JsonNumber × List Char)
  | '-' :: rest => unsigned? lax true rest
  | text => unsigned? lax false text

/-! ## Values -/

def scalar? (lax : Bool) (text : List Char) : Option (Json × List Char) :=
  match text with
  | '"' :: _ => (string? lax text).map fun (read, left) => (.string read, left)
  | 'n' :: _ => (afterWord? "null".toList text).map fun left => (.null, left)
  | 't' :: _ => (afterWord? "true".toList text).map fun left => (.bool true, left)
  | 'f' :: _ => (afterWord? "false".toList text).map fun left => (.bool false, left)
  | _ => (number? lax text).map fun (read, left) => (.number read, left)

/-- Elements with commas between them, up to `close`. There are at most `count` of them. -/
def separated {Item : Type} (element : List Char → Option (Item × List Char)) (close : Char) :
    (count : Nat) → List Char → Option (List Item × List Char)
  | 0, _ => none
  | count + 1, text =>
    match element (skipSpace text) with
    | none => none
    | some (item, left) =>
      match skipSpace left with
      | ',' :: rest =>
        (separated element close count rest).map fun (items, left) => (item :: items, left)
      | character :: rest => if character == close then some ([item], rest) else none
      | [] => none

/-- What stands between an opening bracket, already read, and `close`. Each element takes at least
one character, so the length of the text bounds their number. -/
def enclosed {Item : Type} (element : List Char → Option (Item × List Char)) (close : Char)
    (text : List Char) : Option (List Item × List Char) :=
  match skipSpace text with
  | character :: rest =>
    if character == close then some ([], rest) else separated element close text.length text
  | [] => none

def member? (lax : Bool) (value : String → List Char → Option (Json × List Char))
    (text : List Char) : Option ((String × Json) × List Char) := do
  let (key, left) ← string? lax text
  match skipSpace left with
  | ':' :: rest =>
    let (read, left) ← value key (skipSpace rest)
    some ((key, read), left)
  | _ => none

def value? (lax : Bool) : (depth : Nat) → List Char → Option (Json × List Char)
  | 0, text => scalar? lax text
  | depth + 1, text =>
    match text with
    | '[' :: rest =>
      (enclosed (value? lax depth) ']' rest).map fun (items, left) => (.array items, left)
    | '\x7b' :: rest =>
      (enclosed (member? lax fun _ => value? lax depth) '\x7d' rest).map fun (entries, left) =>
        (.object entries, left)
    | _ => scalar? lax text

/-- A value to be passed over: strings and numbers are read laxly, and it may be nested as deep as
its text is long. -/
def passedOver? (text : List Char) : Option (Json × List Char) := value? true text.length text

end Reader

def maxDepth : Nat := 127

def complete? : Option (Json × List Char) → Option Json
  | some (value, left) => if (Reader.skipSpace left).isEmpty then some value else none
  | none => none

/-- The value that a text writes, its objects with all the entries they were written with. -/
def readRaw? (text : String) : Option Json :=
  complete? (Reader.value? false maxDepth (Reader.skipSpace text.toList))

/-- The value that a text writes. A repeated key keeps its first position and its last value. -/
def read? (text : String) : Option Json := (readRaw? text).map settle

/-- The record that a text writes, with all the entries it was written with. Of an object, the
values of fields that are not among `names` are passed over. -/
def readRecord? (names : List String) (text : String) : Option Json :=
  let field (name : String) : List Char → Option (Json × List Char) :=
    if names.contains name then Reader.value? false (maxDepth - 1) else Reader.passedOver?
  match Reader.skipSpace text.toList with
  | '\x7b' :: rest =>
    complete? ((Reader.enclosed (Reader.member? false field) '\x7d' rest).map fun (entries, left) =>
      (.object entries, left))
  | characters => complete? (Reader.value? false maxDepth characters)

end BuildingRules.Json
