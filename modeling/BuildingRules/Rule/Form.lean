import BuildingRules.Rule.Document
import Mathlib.Data.List.Forall2

/-!
# The form of a rule book in a document

Which values of a document are rules, and what is wrong first with those that are none. The entries
of a document are shared out between the rules it is read as and those it refuses: `SharedOut`.
-/

set_option autoImplicit false

namespace BuildingRules.RuleDocument

/-! ## Rules in form -/

/-- The value of a rule with these classes and these definitions. -/
def HasForm (value : Json) (classes : List String) (definitions : List (String × Json)) : Prop :=
  ∃ fields, value = .object fields ∧
    ("applicability", .array (classes.map .string)) ∈ fields ∧
    ("definitions", .object definitions) ∈ fields

def WellFormed (value : Json) : Prop := ∃ classes definitions, HasForm value classes definitions

/-- The error of a rule that is out of form in a field. -/
def outOfForm (name field reason : String) : Error where
  cause := .malformedRules (some name) field reason
  place := none

/-- The error of a document that is no object. -/
def notRuleBook : Error where
  cause := .malformedRules none "<document>" "expected an object mapping rule names to rules"
  place := none

/-- The item with this number should be the name of a class, but is no text. -/
def NoClassName (name : String) (number : Nat) (item : Json) (error : Error) : Prop :=
  (∀ text, item ≠ .string text) ∧
    error = outOfForm name ("applicability[" ++ Nat.repr number ++ "]") "expected a class name"

inductive MalformedClasses (name : String) (fields : List (String × Json)) : Error → Prop
  | missing : (∀ held, ("applicability", held) ∉ fields) →
      MalformedClasses name fields (outOfForm name "applicability" "missing required field")
  | notList {held : Json} : ("applicability", held) ∈ fields → (∀ items, held ≠ .array items) →
      MalformedClasses name fields (outOfForm name "applicability" "expected a list of class names")
  | notString {before after : List Json} {item : Json} {error : Error} :
      ("applicability", .array (before ++ item :: after)) ∈ fields →
      (∀ other ∈ before, ∃ text, other = .string text) →
      NoClassName name before.length item error → MalformedClasses name fields error

inductive MalformedDefinitions (name : String) (fields : List (String × Json)) : Error → Prop
  | missing : (∀ held, ("definitions", held) ∉ fields) →
      MalformedDefinitions name fields (outOfForm name "definitions" "missing required field")
  | notObject {held : Json} : ("definitions", held) ∈ fields → (∀ entries, held ≠ .object entries) →
      MalformedDefinitions name fields
        (outOfForm name "definitions" "expected an object mapping variable names to patterns")

/-- What is wrong with a rule: that it is no object, or else its classes, or else its
definitions. -/
inductive Malformed (name : String) : Json → Error → Prop
  | notObject {value : Json} : (∀ fields, value ≠ .object fields) →
      Malformed name value
        (outOfForm name "<rule>" "expected an object with `applicability` and `definitions`")
  | classes {fields : List (String × Json)} {error : Error} :
      MalformedClasses name fields error → Malformed name (.object fields) error
  | definitions {fields : List (String × Json)} {classNames : List String} {error : Error} :
      ("applicability", .array (classNames.map .string)) ∈ fields →
      MalformedDefinitions name fields error → Malformed name (.object fields) error

/-- The first entry that is out of form is so with this error. -/
def FirstMalformed (entries : List (String × Json)) (error : Error) : Prop :=
  ∃ before entry after, entries = before ++ entry :: after ∧
    (∀ other ∈ before, WellFormed other.2) ∧ Malformed entry.1 entry.2 error

/-! ## Rules with and without a fault in a pattern -/

/-- The variable of the entry, defined by the pattern that the entry holds. -/
def Defines (definition : Definition) (entry : String × Json) : Prop :=
  definition.variableName = entry.1 ∧
    Pattern.ofJson (Path.definition entry.1) entry.2 = .ok definition.pattern

/-- The rule has the classes of the value without their repetitions, and all its definitions. -/
def Reads (name : String) (value : Json) (rule : Rule) : Prop :=
  ∃ classes entries, HasForm value classes entries ∧ rule.name = name ∧
    rule.applicability = classes.eraseDups ∧ List.Forall₂ Defines rule.definitions entries

/-- The first definition that holds no pattern is to blame: the cause is that of its fault, and the
place is its variable in the rule. -/
def FirstRefused (name : String) (entries : List (String × Json)) (error : Error) : Prop :=
  ∃ before entry after, entries = before ++ entry :: after ∧
    (∀ other ∈ before, ∃ pattern, Pattern.ofJson (Path.definition other.1) other.2 = .ok pattern) ∧
    ∃ fault, Pattern.ofJson (Path.definition entry.1) entry.2 = .error fault ∧
      error.cause = fault.cause ∧
      error.place = some { ruleName := some name, className := none, variableName := some entry.1 }

def Refuses (name : String) (value : Json) (error : Error) : Prop :=
  ∃ classes entries, HasForm value classes entries ∧ FirstRefused name entries error

/-- The entries, one after the other, are read as these rules or refused with these errors. -/
inductive SharedOut : List (String × Json) → List Rule → List Rejection → Prop
  | nil : SharedOut [] [] []
  | accepted {name : String} {value : Json} {rest : List (String × Json)} {rule : Rule}
      {rules : List Rule} {rejected : List Rejection} : Reads name value rule →
      SharedOut rest rules rejected → SharedOut ((name, value) :: rest) (rule :: rules) rejected
  | refused {name : String} {value : Json} {rest : List (String × Json)} {error : Error}
      {rules : List Rule} {rejected : List Rejection} : Refuses name value error →
      SharedOut rest rules rejected →
      SharedOut ((name, value) :: rest) rules (⟨name, error⟩ :: rejected)

end BuildingRules.RuleDocument
