/-!
# JSON values

Objects are lists of entries: their order is kept, and in a settled value no key occurs twice.
-/

set_option autoImplicit false

namespace BuildingRules

inductive JsonNumber
  | integer (value : Int)
  | real (text : String)
  deriving DecidableEq, Repr

inductive Json
  | null
  | bool (value : Bool)
  | number (value : JsonNumber)
  | string (text : String)
  | array (items : List Json)
  | object (entries : List (String × Json))
  deriving Repr, BEq

namespace Json

def ofNat (value : Nat) : Json := .number (.integer value)

def kind : Json → String
  | .null => "null"
  | .bool _ => "a boolean"
  | .number _ => "a number"
  | .string _ => "a string"
  | .array _ => "a list"
  | .object _ => "an object"

/-! ## Entries -/

/-- The entries with `key` set to `value`: an entry of that key keeps its position and takes the
value, otherwise the entry comes last. -/
def setEntry {Value : Type} (key : String) (value : Value) :
    List (String × Value) → List (String × Value)
  | [] => [(key, value)]
  | (other, held) :: rest =>
    if other == key then (other, value) :: rest else (other, held) :: setEntry key value rest

/-- The entries without repetition of keys: each key keeps its first position and its last
value. -/
def distinctEntries {Value : Type} (entries : List (String × Value)) : List (String × Value) :=
  entries.foldl (fun settled entry => setEntry entry.1 entry.2 settled) []

def find? {Value : Type} (key : String) : List (String × Value) → Option Value
  | [] => none
  | (other, held) :: rest => if other == key then some held else find? key rest

def ofEntries (entries : List (String × Json)) : Json := .object (distinctEntries entries)

mutual

/-- The value in which no object repeats a key. -/
def settle : Json → Json
  | .null => .null
  | .bool value => .bool value
  | .number value => .number value
  | .string text => .string text
  | .array items => .array (settleItems items)
  | .object entries => .object (distinctEntries (settleEntries entries))

def settleItems : List Json → List Json
  | [] => []
  | item :: rest => item.settle :: settleItems rest

def settleEntries : List (String × Json) → List (String × Json)
  | [] => []
  | (key, value) :: rest => (key, value.settle) :: settleEntries rest

end

end Json

end BuildingRules
