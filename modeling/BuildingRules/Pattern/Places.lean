import BuildingRules.Pattern

/-!
# Nodes and places of a tree

The nodes of a tree, each before those below it, and for each of them the place where it stands. A
place is named by what leads there: the class of a constraint, a relation with its quantifier, or
the number of a branch. The parts of a conjunction stand where the conjunction stands.
-/

set_option autoImplicit false

namespace BuildingRules.Pattern

mutual

def nodes : Pattern → List Pattern
  | .leaf className => [.leaf className]
  | .constraint className child => .constraint className child :: child.nodes
  | .related relation quantifier child => .related relation quantifier child :: child.nodes
  | .choice branches => .choice branches :: nodesIn branches
  | .all parts => .all parts :: nodesIn parts

def nodesIn : List Pattern → List Pattern
  | [] => []
  | first :: rest => first.nodes ++ nodesIn rest

end

/-- Whether a node leads to a further node on the way, not to the value itself. -/
def isPassage : Pattern → Bool
  | .related _ _ child => !child.isLeaf
  | _ => false

/-- A node of a tree, and the path of its place. -/
structure Spot where
  path : String
  node : Pattern
  deriving Repr, BEq

mutual

def spots (path : String) : Pattern → List Spot
  | .leaf className => [⟨path, .leaf className⟩]
  | .constraint className child =>
    ⟨path, .constraint className child⟩ :: child.spots (Path.key path className)
  | .related relation quantifier child =>
    ⟨path, .related relation quantifier child⟩ ::
      child.spots (Path.key path (relation.name ++ quantifier.mark))
  | .choice branches => ⟨path, .choice branches⟩ :: spotsOfBranches path 0 branches
  | .all parts => ⟨path, .all parts⟩ :: spotsOfParts path parts

def spotsOfBranches (path : String) (index : Nat) : List Pattern → List Spot
  | [] => []
  | branch :: rest =>
    branch.spots (Path.item (Path.key path "choice") index) ++
      spotsOfBranches path (index + 1) rest

def spotsOfParts (path : String) : List Pattern → List Spot
  | [] => []
  | part :: rest => part.spots path ++ spotsOfParts path rest

end

end BuildingRules.Pattern
