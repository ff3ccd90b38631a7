import BuildingRules.Error

/-!
# What can be wrong with the form of a rule book
-/

set_option autoImplicit false

namespace BuildingRules.RuleBook

inductive Fault
  /-- The text holds no value, for a reason that its reader tells. -/
  | notJson (reason : String)
  | documentNotObject
  | ruleNotObject
  | missingField
  | classesNotList
  | classNotString
  | definitionsNotObject
  | duplicateName
  deriving DecidableEq, Repr

def Fault.message : Fault → String
  | .notJson reason => reason
  | .documentNotObject => "expected an object mapping rule names to rules"
  | .ruleNotObject => "expected an object with `applicability` and `definitions`"
  | .missingField => "missing required field"
  | .classesNotList => "expected a list of class names"
  | .classNotString => "expected a class name"
  | .definitionsNotObject => "expected an object mapping variable names to patterns"
  | .duplicateName => "duplicate rule name"

def Fault.inField (fault : Fault) (ruleName field : String) : Error :=
  .of (.malformedRules (some ruleName) field fault.message)

def Fault.inRule (fault : Fault) (ruleName : String) : Error := fault.inField ruleName "<rule>"

def Fault.inDocument (fault : Fault) : Error :=
  .of (.malformedRules none "<document>" fault.message)

end BuildingRules.RuleBook
