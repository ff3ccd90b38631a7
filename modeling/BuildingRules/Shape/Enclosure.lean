import BuildingRules.Graph.Reach

/-!
# Shapes that enclose a shape

A shape is enclosed by the shapes that have it as a property or node shape, by those that compose
it, and by those that compose a shape that has it as a property shape or a list that it is a
member of.
-/

set_option autoImplicit false

namespace BuildingRules

namespace Vocabulary

def operators : List Iri := [shOr, shAnd, shXone]

end Vocabulary

namespace Graph

/-- The list cells from which `member` is come to: the cell it is the member of, and the cells
before that. -/
def listHeads (graph : Graph) (member : Term) : TermSet :=
  follow (graph.arrows Vocabulary.rdfRest .backward) (graph.subjects Vocabulary.rdfFirst member)

def composers (graph : Graph) (term : Term) : List Term :=
  Vocabulary.operators.flatMap fun operator => graph.subjects operator term

def enclosingShapes (graph : Graph) (shape : Term) : List Term :=
  let holders := graph.subjects Vocabulary.shProperty shape
  let found := holders ++ graph.subjects Vocabulary.shNode shape ++ graph.composers shape
    ++ holders.flatMap graph.composers ++ (graph.listHeads shape).toList.flatMap graph.composers
  (Std.ExtTreeSet.ofList found compare).toList

end Graph

end BuildingRules
