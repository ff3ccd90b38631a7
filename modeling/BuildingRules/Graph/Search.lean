import BuildingRules.Graph.Indices
import BuildingRules.Graph.Reach

/-!
# Searching turn by turn

How a graph in two indices is searched. In each turn of a search one node is taken from those that
wait. One that was met before is passed over; a new one is met, and its neighbours are put with
those that wait. The search for paths takes the node that has waited longest, the search for list
cells the one that came last.
-/

set_option autoImplicit false

namespace BuildingRules

/-- A loop from a state takes a number of turns, until no turn is left in the last state. -/
inductive Loop {State : Type} (turn : State → Option State) : State → Nat → State → Prop
  | done {state : State} : turn state = none → Loop turn state 0 state
  | again {state next last : State} {count : Nat} :
      turn state = some next → Loop turn next count last → Loop turn state (count + 1) last

/-! ## Paths -/

/-- What was reached counts apart from what was visited, since the node that a search starts at may
be reached without being visited. -/
structure PathSearch where
  visited : TermSet
  reached : TermSet
  queue : List Term

namespace PathSearch

def turn (neighbours : Term → List Term) (search : PathSearch) : Option PathSearch :=
  match search.queue with
  | [] => none
  | node :: rest =>
    if search.visited.contains node then some { search with queue := rest }
    else some ⟨search.visited.insert node, search.reached.insert node, rest ++ neighbours node⟩

/-- What is reached from a node without an edge. -/
def unmoved (quantifier : Quantifier) (node : Term) : TermSet :=
  if quantifier.allowsZero then (∅ : TermSet).insert node else ∅

/-- The search from a node, before its first turn. If one edge is all that is allowed, no node
waits. -/
def start (neighbours : Term → List Term) (quantifier : Quantifier) (node : Term) : PathSearch :=
  if quantifier.allowsMany then ⟨∅, unmoved quantifier node, neighbours node⟩
  else ⟨∅, (unmoved quantifier node).insertMany (neighbours node), []⟩

end PathSearch

namespace IndexedGraph

def neighbours (graph : IndexedGraph) (predicate : Iri) : Direction → Term → List Term
  | .forward, node => graph.objects node predicate
  | .backward, node => graph.subjects predicate node

/-- The search from a node ends after a number of turns, and this is what it has reached. -/
def Reaches (graph : IndexedGraph) (predicate : Iri) (quantifier : Quantifier)
    (direction : Direction) (node : Term) (turns : Nat) (reached : TermSet) : Prop :=
  let neighbours := graph.neighbours predicate direction
  ∃ last, Loop (PathSearch.turn neighbours) (PathSearch.start neighbours quantifier node)
      turns last ∧
    last.reached = reached

end IndexedGraph

/-! ## List cells -/

/-- The cell that is taken next comes first among those that wait. -/
structure CellSearch where
  cells : TermSet
  pending : List Term

namespace CellSearch

def turn (cellsBefore : Term → List Term) (search : CellSearch) : Option CellSearch :=
  match search.pending with
  | [] => none
  | cell :: rest =>
    if search.cells.contains cell then some { search with pending := rest }
    else some ⟨search.cells.insert cell, (cellsBefore cell).reverse ++ rest⟩

def start (holders : List Term) : CellSearch := ⟨∅, holders.reverse⟩

end CellSearch

/-- The search for the cells from which a member is come to ends after a number of turns, and these
are the cells that it has met. -/
def IndexedGraph.FindsCells (graph : IndexedGraph) (member : Term) (turns : Nat)
    (cells : TermSet) : Prop :=
  ∃ last, Loop (CellSearch.turn (graph.subjects Vocabulary.rdfRest))
      (CellSearch.start (graph.subjects Vocabulary.rdfFirst member)) turns last ∧
    last.cells = cells

end BuildingRules
