import BuildingRules.Graph
import Std.Data.ExtTreeMap

/-!
# Graphs in two indices

To be looked up from either end, triples are kept in two indices: from subjects to objects, and from
objects back to subjects, by predicate. The number of triples is counted as they come. An insertion
goes into the forward index first; what is found to be there already goes no further.
-/

set_option autoImplicit false

namespace BuildingRules

abbrev ByPredicate := Std.ExtTreeMap Iri TermSet compare

/-- For each node and predicate, the terms at the other ends. -/
abbrev Index := Std.ExtTreeMap Term ByPredicate compare

namespace Index

def ends (index : Index) (node : Term) (predicate : Iri) : TermSet :=
  (index[node]?.bind fun byPredicate => byPredicate[predicate]?).getD ∅

def add (index : Index) (node : Term) (predicate : Iri) (finish : Term) : Index :=
  let byPredicate := index[node]?.getD ∅
  index.insert node
    (byPredicate.insert predicate ((byPredicate[predicate]?.getD ∅).insert finish))

end Index

@[ext]
structure IndexedGraph where
  forward : Index
  backward : Index
  size : Nat

namespace IndexedGraph

def empty : IndexedGraph := ⟨∅, ∅, 0⟩

/-! ## Insertions -/

/-- The answer says whether the triple was new. A literal cannot be a subject. -/
def insert (graph : IndexedGraph) (triple : Triple) : Except Error Bool × IndexedGraph :=
  if triple.subject.isResource then
    let isOld := (graph.forward.ends triple.subject triple.predicate).contains triple.object
    let forward := graph.forward.add triple.subject triple.predicate triple.object
    if isOld then (.ok false, { graph with forward := forward })
    else
      (.ok true,
        ⟨forward, graph.backward.add triple.object triple.predicate triple.subject,
          graph.size + 1⟩)
  else (.error (.of (.malformedIdentifier triple.subject.display "triple subject")), graph)

def insertType (graph : IndexedGraph) (subject : Term) (className : Iri) :
    Except Error Bool × IndexedGraph :=
  graph.insert (Graph.typing subject className)

/-! ## Questions -/

def contains (graph : IndexedGraph) (triple : Triple) : Bool :=
  (graph.forward.ends triple.subject triple.predicate).contains triple.object

def objects (graph : IndexedGraph) (subject : Term) (predicate : Iri) : List Term :=
  (graph.forward.ends subject predicate).toList

def subjects (graph : IndexedGraph) (predicate : Iri) (object : Term) : List Term :=
  (graph.backward.ends object predicate).toList

def pairs (graph : IndexedGraph) (predicate : Iri) : List (Term × Term) :=
  graph.forward.toList.flatMap fun entry =>
    (entry.2[predicate]?.getD ∅).toList.map fun object => (entry.1, object)

def instancesOf (graph : IndexedGraph) (className : Iri) : List Term :=
  graph.subjects Vocabulary.rdfType (.iri className)

def hasType (graph : IndexedGraph) (subject : Term) (className : Iri) : Bool :=
  graph.contains (Graph.typing subject className)

def nodes (graph : IndexedGraph) : List Term :=
  (Std.ExtTreeSet.ofList (graph.forward.keys ++ graph.backward.keys) compare).toList

def isEmpty (graph : IndexedGraph) : Bool := graph.size == 0

end IndexedGraph

/-! ## Sequences of insertions -/

inductive Insertion
  | triple (whole : Triple)
  | typing (subject : Term) (className : Iri)
  deriving DecidableEq, Repr

namespace Insertion

def toTriple : Insertion → Triple
  | .triple whole => whole
  | .typing subject className => Graph.typing subject className

def perform (graph : IndexedGraph) : Insertion → Except Error Bool × IndexedGraph
  | .triple whole => graph.insert whole
  | .typing subject className => graph.insertType subject className

/-- The answers to insertions that are made one after the other, each with its triple, and the graph
that they lead to. -/
def performAll (graph : IndexedGraph) :
    List Insertion → List (Triple × Except Error Bool) × IndexedGraph
  | [] => ([], graph)
  | insertion :: rest =>
    let (answer, next) := insertion.perform graph
    let (answers, last) := performAll next rest
    ((insertion.toTriple, answer) :: answers, last)

end Insertion

end BuildingRules
