import BuildingRules.Graph
import BuildingRules.Identifier
import BuildingRules.Pattern
import Mathlib.Logic.Relation

/-!
# What a pattern says

`Pattern.Holds` reads a pattern directly off its tree, without a query: it says of a node and a
value of a graph that the pattern finds the value from the node. Quantifiers are read as the usual
closures of a relation.
-/

set_option autoImplicit false

namespace BuildingRules

def Graph.Edge (graph : Graph) (predicate : Iri) (subject object : Term) : Prop :=
  ⟨subject, predicate, object⟩ ∈ graph.triples

instance (graph : Graph) (predicate : Iri) (subject object : Term) :
    Decidable (graph.Edge predicate subject object) :=
  decidable_of_iff (graph.contains ⟨subject, predicate, object⟩ = true) Graph.contains_iff

/-- One node leads to another when a relation is followed as often as the quantifier allows. -/
def Quantifier.Follows {Node : Type} (quantifier : Quantifier) (edge : Node → Node → Prop) :
    Node → Node → Prop :=
  match quantifier with
  | .one => edge
  | .zeroOrOne => Relation.ReflGen edge
  | .zeroOrMore => Relation.ReflTransGen edge
  | .oneOrMore => Relation.TransGen edge

namespace Pattern

def OfClass (graph : Graph) (space : Namespace) (className : String) (node : Term) : Prop :=
  ∃ resolved, Identifier.classIri? space className = some resolved ∧
    Graph.typing node resolved ∈ graph.triples

/-- A relation, followed as often as the quantifier allows, leads from one node to the other. -/
def Leads (graph : Graph) (space : Namespace) (relation : Relation) (quantifier : Quantifier) :
    Term → Term → Prop :=
  quantifier.Follows (graph.Edge (space.iri relation.name))

mutual

/-- The pattern finds `value` from `node`. -/
def Holds (graph : Graph) (space : Namespace) : Pattern → (node value : Term) → Prop
  | .leaf className, node, value =>
    Leads graph space .hasPoint .one node value ∧ OfClass graph space className value
  | .constraint className child, node, value =>
    OfClass graph space className node ∧ child.Holds graph space node value
  | .related relation quantifier (.leaf className), node, value =>
    Leads graph space relation quantifier node value ∧ OfClass graph space className value
  | .related relation quantifier child, node, value =>
    ∃ middle, Leads graph space relation quantifier node middle ∧
      child.Holds graph space middle value
  | .choice branches, node, value => SomeHolds graph space branches node value
  | .all parts, node, value => EveryHolds graph space parts node value

def SomeHolds (graph : Graph) (space : Namespace) : List Pattern → (node value : Term) → Prop
  | [], _, _ => False
  | first :: rest, node, value =>
    first.Holds graph space node value ∨ SomeHolds graph space rest node value

def EveryHolds (graph : Graph) (space : Namespace) : List Pattern → (node value : Term) → Prop
  | [], _, _ => True
  | first :: rest, node, value =>
    first.Holds graph space node value ∧ EveryHolds graph space rest node value

end

end Pattern

end BuildingRules
