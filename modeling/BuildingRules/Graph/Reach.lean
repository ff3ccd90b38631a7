import BuildingRules.Graph
import BuildingRules.Pattern

/-!
# Following edges

`follow` finds everything that a set of arrows leads to. Each arrow is used once: when a node is
met, its arrows are taken out and their heads are added to the nodes to be met, so the search ends
when arrows and nodes are used up, whatever cycles there are. `Graph.reach` is the set of terms
that a predicate leads to under a quantifier, in either direction.
-/

set_option autoImplicit false

namespace BuildingRules

def headsFrom (node : Term) (arrows : List (Term × Term)) : List Term :=
  (arrows.filter fun arrow => arrow.1 == node).map (·.2)

def arrowsElsewhere (node : Term) (arrows : List (Term × Term)) : List (Term × Term) :=
  arrows.filter fun arrow => arrow.1 != node

theorem length_arrowsElsewhere_add_length_headsFrom (node : Term) (arrows : List (Term × Term)) :
    (arrowsElsewhere node arrows).length + (headsFrom node arrows).length = arrows.length := by
  induction arrows with
  | nil => rfl
  | cons arrow rest inductionHypothesis =>
    simp only [arrowsElsewhere, headsFrom, List.length_map] at inductionHypothesis ⊢
    by_cases same : arrow.1 = node <;> simp [same] <;> omega

/-- The nodes met from `pending` along `arrows`, the nodes of `pending` included. -/
def follow (arrows : List (Term × Term)) : (pending : List Term) → TermSet
  | [] => ∅
  | node :: pending =>
    (follow (arrowsElsewhere node arrows) (headsFrom node arrows ++ pending)).insert node
termination_by pending => arrows.length + pending.length
decreasing_by
  have split := length_arrowsElsewhere_add_length_headsFrom node arrows
  simp only [List.length_append, List.length_cons]
  omega

inductive Direction
  | forward
  | backward
  deriving DecidableEq, Repr

namespace Graph

/-- The edges of a predicate, each from the end the search starts at to the other. -/
def arrows (graph : Graph) (predicate : Iri) : Direction → List (Term × Term)
  | .forward => graph.pairs predicate
  | .backward => (graph.pairs predicate).map fun pair => (pair.2, pair.1)

def neighbours (graph : Graph) (predicate : Iri) : Direction → Term → List Term
  | .forward, start => graph.objects start predicate
  | .backward, start => graph.subjects predicate start

def reach (graph : Graph) (predicate : Iri) (quantifier : Quantifier) (direction : Direction)
    (start : Term) : TermSet :=
  let next := graph.neighbours predicate direction start
  let reached :=
    if quantifier.allowsMany then follow (graph.arrows predicate direction) next
    else Std.ExtTreeSet.ofList next compare
  if quantifier.allowsZero then reached.insert start else reached

end Graph

end BuildingRules
