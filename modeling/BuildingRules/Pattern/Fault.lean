import BuildingRules.Error

/-!
# What can be wrong with the form of a pattern
-/

set_option autoImplicit false

namespace BuildingRules.Pattern

inductive Fault
  | emptyObject
  | choiceNotList
  | choiceEmpty
  | noParts
  | wrongKind (kind : String)
  deriving DecidableEq, Repr

def Fault.message : Fault → String
  | .emptyObject => "empty pattern object"
  | .choiceNotList => "choice must be a list"
  | .choiceEmpty => "choice has no branches"
  | .noParts => "pattern object has no keys"
  | .wrongKind kind => "expected a class name or pattern object, found " ++ kind

def Fault.error (fault : Fault) (path : String) : Error := .of (.invalidPattern path fault.message)

end BuildingRules.Pattern
