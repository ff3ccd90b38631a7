import BuildingRules.Identifier
import BuildingRules.Pattern.Fault
import BuildingRules.Pattern.Places

/-!
# Defects of a tree

A tree may name what is no class, and may hold choices and conjunctions of nothing. Such a defect
belongs to one node; its error tells the place of that node.
-/

set_option autoImplicit false

namespace BuildingRules

/-- A local name, which any namespace can complete, or an absolute IRI. -/
def Identifier.IsClass (identifier : String) : Prop :=
  isLocalName identifier = true ∨ isAbsoluteIri identifier = true

instance (identifier : String) : Decidable (Identifier.IsClass identifier) :=
  inferInstanceAs (Decidable (_ ∨ _))

namespace Pattern

/-- The class that a node itself names. -/
def className? : Pattern → Option String
  | .leaf className => some className
  | .constraint className _ => some className
  | _ => none

/-- What is wrong with a node itself, whatever is below it. -/
def Spot.defect? : Spot → Option Error
  | ⟨path, .leaf className⟩ =>
    if Identifier.IsClass className then none
    else some (.of (.malformedIdentifier className path))
  | ⟨path, .constraint className _⟩ =>
    if Identifier.IsClass className then none
    else some (.of (.malformedIdentifier className path))
  | ⟨_, .related ..⟩ => none
  | ⟨path, .choice branches⟩ =>
    if branches.isEmpty then some (Fault.choiceEmpty.error path) else none
  | ⟨path, .all parts⟩ => if parts.isEmpty then some (Fault.noParts.error path) else none

def Sound (spots : List Spot) : Prop := ∀ spot ∈ spots, spot.defect? = none

/-- The first of the nodes that is not in order has this error. -/
def FirstDefect (spots : List Spot) (error : Error) : Prop :=
  ∃ before spot after, spots = before ++ spot :: after ∧ Sound before ∧ spot.defect? = some error

end Pattern

end BuildingRules
