import BuildingRules.Pattern
import BuildingRules.Rule.Fault

/-!
# Rules and rule books

A rule names the classes of equipment it applies to and defines the variables that must be found.
A rule book is a sequence of rules with distinct names.
-/

set_option autoImplicit false

namespace BuildingRules

structure Definition where
  variableName : String
  pattern : Pattern
  deriving Repr, BEq

structure Rule where
  name : String
  applicability : List String
  definitions : List Definition
  deriving Repr, BEq

namespace Rule

def new (name : String) : Rule := ⟨name, [], []⟩

/-- The rule applied to one more class; a class is listed once, where it was first named. -/
def appliesTo (rule : Rule) (className : String) : Rule :=
  if rule.applicability.contains className then rule
  else { rule with applicability := rule.applicability ++ [className] }

/-- The definitions with one more: it takes the place of an earlier one of the same variable. -/
def replaceDefinition (definition : Definition) : List Definition → List Definition
  | [] => [definition]
  | first :: rest =>
    if first.variableName == definition.variableName then definition :: rest
    else first :: replaceDefinition definition rest

def define (rule : Rule) (variableName : String) (pattern : Pattern) : Rule :=
  { rule with definitions := replaceDefinition ⟨variableName, pattern⟩ rule.definitions }

def definition? (rule : Rule) (variableName : String) : Option Pattern :=
  (rule.definitions.find? (·.variableName == variableName)).map (·.pattern)

/-- The size of a complete binding: every variable and the equipment itself. -/
def expectedSize (rule : Rule) : Nat := rule.definitions.length + 1

end Rule

structure RuleBook where
  rules : List Rule
  deriving Repr, BEq

namespace RuleBook

def empty : RuleBook := ⟨[]⟩

def get? (book : RuleBook) (name : String) : Option Rule := book.rules.find? (·.name == name)

def size (book : RuleBook) : Nat := book.rules.length

def isEmpty (book : RuleBook) : Bool := book.rules.isEmpty

def insert (book : RuleBook) (rule : Rule) : Except Error RuleBook :=
  if (book.get? rule.name).isSome then
    .error (Fault.duplicateName.inRule rule.name)
  else .ok ⟨book.rules ++ [rule]⟩

def withRule (book : RuleBook) (rule : Rule) : RuleBook :=
  ⟨book.rules.filter (·.name != rule.name) ++ [rule]⟩

end RuleBook

end BuildingRules
