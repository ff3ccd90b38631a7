import BuildingRules.Identifier
import BuildingRules.Pattern.Places
import BuildingRules.Query

/-!
# Outlines of queries and of patterns

What clauses say when their variables are left out: the classes that they name, the links that
their edges go along, and how their unions nest. The outline of a pattern is read off its tree: the
classes in its order, a link for each relation and for each class that is to be a point, and a fork
for each choice.
-/

set_option autoImplicit false

namespace BuildingRules

/-- What an edge goes along. -/
structure Link where
  predicate : Iri
  quantifier : Quantifier
  deriving DecidableEq, Repr

/-- The classes and the links, those within unions included, and for each union the outlines of its
groups. -/
structure Outline where
  classes : List Iri
  links : List Link
  forks : List (List Outline)

/-! ## Clauses -/

namespace Clause

def className? : Clause → Option Iri
  | .hasType _ className => some className
  | .edge .. => none
  | .union _ => none

def link? : Clause → Option Link
  | .hasType .. => none
  | .edge _ predicate quantifier _ => some ⟨predicate, quantifier⟩
  | .union _ => none

def classes (group : List Clause) : List Iri := (triplesOfGroup group).filterMap className?

def links (group : List Clause) : List Link := (triplesOfGroup group).filterMap link?

mutual

def forks : Clause → List (List Outline)
  | .hasType .. => []
  | .edge .. => []
  | .union groups => [outlinesOfGroups groups]

def forksOfGroup : List Clause → List (List Outline)
  | [] => []
  | clause :: rest => clause.forks ++ forksOfGroup rest

def outlinesOfGroups : List (List Clause) → List Outline
  | [] => []
  | group :: rest => ⟨classes group, links group, forksOfGroup group⟩ :: outlinesOfGroups rest

end

end Clause

/-! ## Patterns -/

namespace Pattern

def isRelated : Pattern → Bool
  | .related .. => true
  | _ => false

/-- A node of a tree, and whether a relation stands directly above it. -/
structure Visit where
  isLedTo : Bool
  node : Pattern

mutual

/-- The nodes of a tree, each before those below it. -/
def visits (isLedTo : Bool) : Pattern → List Visit
  | .leaf className => [⟨isLedTo, .leaf className⟩]
  | .constraint className child => ⟨isLedTo, .constraint className child⟩ :: child.visits false
  | .related relation quantifier child =>
    ⟨isLedTo, .related relation quantifier child⟩ :: child.visits true
  | .choice branches => ⟨isLedTo, .choice branches⟩ :: visitsIn branches
  | .all parts => ⟨isLedTo, .all parts⟩ :: visitsIn parts

def visitsIn : List Pattern → List Visit
  | [] => []
  | first :: rest => first.visits false ++ visitsIn rest

end

/-- Whether the node is a class that no relation leads to, so that its value is to be a point. -/
def Visit.isPoint (visit : Visit) : Bool := !visit.isLedTo && visit.node.isLeaf

def Visit.link? (space : Namespace) (visit : Visit) : Option Link :=
  match visit.node with
  | .related relation quantifier _ => some ⟨space.iri relation.name, quantifier⟩
  | .leaf _ => if visit.isLedTo then none else some ⟨space.iri Relation.hasPoint.name, .one⟩
  | _ => none

def classes (space : Namespace) (pattern : Pattern) : List Iri :=
  pattern.classNames.filterMap (Identifier.classIri? space)

def links (space : Namespace) (isLedTo : Bool) (pattern : Pattern) : List Link :=
  (pattern.visits isLedTo).filterMap (Visit.link? space)

mutual

def forks (space : Namespace) : Pattern → List (List Outline)
  | .leaf _ => []
  | .constraint _ child => child.forks space
  | .related _ _ child => child.forks space
  | .choice branches => [outlines space branches]
  | .all parts => forksIn space parts

def forksIn (space : Namespace) : List Pattern → List (List Outline)
  | [] => []
  | first :: rest => first.forks space ++ forksIn space rest

def outlines (space : Namespace) : List Pattern → List Outline
  | [] => []
  | first :: rest =>
    ⟨first.classes space, first.links space false, first.forks space⟩ :: outlines space rest

end

end Pattern

end BuildingRules
