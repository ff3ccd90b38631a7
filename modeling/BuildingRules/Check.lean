import BuildingRules.Evaluation

/-!
# Checking rules without a model

Every step of a document is compiled; refused rules and steps without a query are problems.
-/

set_option autoImplicit false

namespace BuildingRules

namespace RuleDocument

def steps (space : Namespace) (document : RuleDocument) : List (String × Step) :=
  document.book.rules.flatMap fun rule => (rule.steps space).map fun step => (rule.name, step)

end RuleDocument

structure Problem where
  ruleName : String
  message : String
  deriving DecidableEq, Repr

namespace Problem

def ofRejection (rejection : Rejection) : Problem :=
  ⟨rejection.ruleName, rejection.error.message⟩

def ofStep? (entry : String × Step) : Option Problem :=
  match entry.2.query with
  | .ok _ => none
  | .error error =>
    some ⟨entry.1, "class " ++ entry.2.className ++ ", variable " ++ entry.2.variableName ++ ": "
      ++ error.message⟩

end Problem

structure Summary where
  rules : Nat
  compiled : Nat
  problems : List Problem
  deriving DecidableEq, Repr

namespace Summary

def isOk (summary : Summary) : Bool := summary.problems.isEmpty

def ofDocument (space : Namespace) (document : RuleDocument) : Summary :=
  let steps := document.steps space
  { rules := document.book.size + document.rejected.length
    compiled := (steps.filterMap fun entry => entry.2.query.toOption).length
    problems := document.rejected.map .ofRejection ++ steps.filterMap Problem.ofStep? }

end Summary

end BuildingRules
