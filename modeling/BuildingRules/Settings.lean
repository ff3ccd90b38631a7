import BuildingRules.Vocabulary

/-!
# Settings

What a run can be told: the namespace of class and relation names, the beginning of rule IRIs, a
limit of time for each query, and how far a failed shape is followed outwards.
-/

set_option autoImplicit false

namespace BuildingRules

structure Settings where
  space : Namespace
  ruleBase : String
  /-- The time a query may take; none waits for ever. -/
  limit : Option Duration
  deriving DecidableEq, Repr

namespace Settings

def default : Settings := ⟨.brick, "urn:rules_manifest/", none⟩

def ruleIri (settings : Settings) (ruleName : String) : String := settings.ruleBase ++ ruleName

end Settings

namespace Depth

def default : Nat := 64

/-- How many steps it is followed among shapes known to be flat. -/
def shallow : Nat := 8

end Depth

end BuildingRules
