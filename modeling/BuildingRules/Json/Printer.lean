import BuildingRules.Json
import BuildingRules.Text.Hex

/-!
# Printing JSON

Values are laid out over lines with two blanks of indent for each level; empty arrays and objects
stay on one line. Only quotes, backslashes and the first 32 control characters are escaped.
-/

set_option autoImplicit false

namespace BuildingRules.Json.Printer

def stringChar (character : Char) : List Char :=
  if character = '"' then ['\\', '"']
  else if character = '\\' then ['\\', '\\']
  else if character = '\x08' then ['\\', 'b']
  else if character = '\x0c' then ['\\', 'f']
  else if character = '\n' then ['\\', 'n']
  else if character = '\r' then ['\\', 'r']
  else if character = '\t' then ['\\', 't']
  else if character.toNat < 0x20 then
    let digits := Text.hexDigits character.toNat
    ['\\', 'u'] ++ List.replicate (4 - digits.length) '0' ++ digits
  else [character]

def string (text : String) : String :=
  String.ofList (['"'] ++ text.toList.flatMap stringChar ++ ['"'])

def number : JsonNumber → String
  | .integer value => toString value
  | .real text => text

def lineStart (level : Nat) : String := "\n" ++ String.ofList (List.replicate (2 * level) ' ')

def block (level : Nat) (opening closing : String) (items : List String) : String :=
  if items.isEmpty then opening ++ closing
  else
    opening ++ lineStart (level + 1) ++ ("," ++ lineStart (level + 1)).intercalate items
      ++ lineStart level ++ closing

mutual

def value (level : Nat) : Json → String
  | .null => "null"
  | .bool true => "true"
  | .bool false => "false"
  | .number held => number held
  | .string text => string text
  | .array held => block level "[" "]" (items (level + 1) held)
  | .object held => block level "\x7b" "\x7d" (entries (level + 1) held)

def items (level : Nat) : List Json → List String
  | [] => []
  | first :: rest => value level first :: items level rest

def entries (level : Nat) : List (String × Json) → List String
  | [] => []
  | (key, held) :: rest => (string key ++ ": " ++ value level held) :: entries level rest

end

end Printer

def pretty (value : Json) : String := Printer.value 0 value

end BuildingRules.Json
