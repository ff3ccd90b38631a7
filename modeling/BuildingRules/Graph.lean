import BuildingRules.Vocabulary
import Std.Data.ExtTreeSet

/-!
# Graphs

A graph is a finite set of triples, kept in the order of their subjects, then predicates, then
objects. Every question to a graph is a reading of that one set: the listings run through it in
order and pick what they ask for, so they come out ascending and without repetition.
-/

set_option autoImplicit false

namespace BuildingRules

/-! ## Order -/

instance : Ord Iri := ⟨compareOn Iri.text⟩

instance : Std.TransOrd Iri := inferInstanceAs (Std.TransCmp (compareOn Iri.text))

instance : Std.LawfulEqOrd Iri where
  eq_of_compare {left right} same := by
    have sameText : left.text = right.text :=
      Std.LawfulEqCmp.eq_of_compare (show compareOn Iri.text left right = .eq from same)
    exact Iri.ext sameText

@[ext]
structure Triple where
  subject : Term
  predicate : Iri
  object : Term
  deriving DecidableEq, Repr

namespace Triple

instance : Ord Triple :=
  ⟨compareLex (compareOn subject) (compareLex (compareOn predicate) (compareOn object))⟩

instance : Std.TransOrd Triple :=
  inferInstanceAs (Std.TransCmp
    (compareLex (compareOn subject) (compareLex (compareOn predicate) (compareOn object))))

instance : Std.LawfulEqOrd Triple where
  eq_of_compare {left right} same := by
    have both := compareLex_eq_eq.1 (show compareLex _ _ left right = .eq from same)
    have rest := compareLex_eq_eq.1 both.2
    exact Triple.ext (Std.LawfulEqCmp.eq_of_compare both.1)
      (Std.LawfulEqCmp.eq_of_compare rest.1) (Std.LawfulEqCmp.eq_of_compare rest.2)

end Triple

abbrev TermSet := Std.ExtTreeSet Term compare

/-! ## The set of triples -/

@[ext]
structure Graph where
  triples : Std.ExtTreeSet Triple compare

namespace Graph

def empty : Graph := ⟨∅⟩

def toList (graph : Graph) : List Triple := graph.triples.toList

@[simp]
theorem mem_toList {graph : Graph} {triple : Triple} :
    triple ∈ graph.toList ↔ triple ∈ graph.triples :=
  Std.ExtTreeSet.mem_toList

theorem ext_mem {left right : Graph}
    (same : ∀ triple, triple ∈ left.triples ↔ triple ∈ right.triples) : left = right :=
  Graph.ext (Std.ExtTreeSet.ext_mem same)

def size (graph : Graph) : Nat := graph.triples.size

def isEmpty (graph : Graph) : Bool := graph.triples.isEmpty

def contains (graph : Graph) (triple : Triple) : Bool := graph.triples.contains triple

@[simp]
theorem contains_iff {graph : Graph} {triple : Triple} :
    graph.contains triple = true ↔ triple ∈ graph.triples :=
  Std.ExtTreeSet.contains_iff_mem

/-- The graph with one more triple, and whether the triple was new. A literal cannot be a
subject. -/
def insert (graph : Graph) (triple : Triple) : Except Error (Graph × Bool) :=
  if triple.subject.isResource then
    .ok (⟨graph.triples.insert triple⟩, !graph.contains triple)
  else
    .error (.of (.malformedIdentifier triple.subject.display "triple subject"))

def typing (subject : Term) (className : Iri) : Triple :=
  ⟨subject, Vocabulary.rdfType, .iri className⟩

def ofList (triples : List Triple) : Except Error Graph :=
  triples.foldlM (fun graph triple => (graph.insert triple).map (·.1)) empty

/-! ## Questions -/

def objects (graph : Graph) (subject : Term) (predicate : Iri) : List Term :=
  (graph.toList.filter fun t => t.subject == subject && t.predicate == predicate).map (·.object)

def subjects (graph : Graph) (predicate : Iri) (object : Term) : List Term :=
  (graph.toList.filter fun t => t.predicate == predicate && t.object == object).map (·.subject)

@[simp]
theorem mem_objects {graph : Graph} {subject object : Term} {predicate : Iri} :
    object ∈ graph.objects subject predicate ↔ ⟨subject, predicate, object⟩ ∈ graph.triples := by
  simp only [objects, List.mem_map, List.mem_filter, mem_toList, Bool.and_eq_true, beq_iff_eq]
  constructor
  · rintro ⟨triple, ⟨member, rfl, rfl⟩, rfl⟩
    exact member
  · intro member
    exact ⟨_, ⟨member, rfl, rfl⟩, rfl⟩

@[simp]
theorem mem_subjects {graph : Graph} {subject object : Term} {predicate : Iri} :
    subject ∈ graph.subjects predicate object ↔ ⟨subject, predicate, object⟩ ∈ graph.triples := by
  simp only [subjects, List.mem_map, List.mem_filter, mem_toList, Bool.and_eq_true, beq_iff_eq]
  constructor
  · rintro ⟨triple, ⟨member, rfl, rfl⟩, rfl⟩
    exact member
  · intro member
    exact ⟨_, ⟨member, rfl, rfl⟩, rfl⟩

def pairs (graph : Graph) (predicate : Iri) : List (Term × Term) :=
  (graph.toList.filter fun t => t.predicate == predicate).map fun t => (t.subject, t.object)

@[simp]
theorem mem_pairs {graph : Graph} {predicate : Iri} {pair : Term × Term} :
    pair ∈ graph.pairs predicate ↔ ⟨pair.1, predicate, pair.2⟩ ∈ graph.triples := by
  simp only [pairs, List.mem_map, List.mem_filter, mem_toList, beq_iff_eq]
  constructor
  · rintro ⟨triple, ⟨member, rfl⟩, rfl⟩
    exact member
  · intro member
    exact ⟨_, ⟨member, rfl⟩, rfl⟩

def hasType (graph : Graph) (subject : Term) (className : Iri) : Bool :=
  graph.contains (typing subject className)

@[simp]
theorem hasType_iff {graph : Graph} {subject : Term} {className : Iri} :
    graph.hasType subject className = true ↔ typing subject className ∈ graph.triples :=
  contains_iff

def instancesOf (graph : Graph) (className : Iri) : List Term :=
  graph.subjects Vocabulary.rdfType (.iri className)

@[simp]
theorem mem_instancesOf {graph : Graph} {subject : Term} {className : Iri} :
    subject ∈ graph.instancesOf className ↔ typing subject className ∈ graph.triples :=
  mem_subjects

def nodes (graph : Graph) : List Term :=
  (Std.ExtTreeSet.ofList (graph.toList.flatMap fun t => [t.subject, t.object]) compare).toList

@[simp]
theorem mem_nodes {graph : Graph} {term : Term} :
    term ∈ graph.nodes ↔
      ∃ triple ∈ graph.triples, term = triple.subject ∨ term = triple.object := by
  simp [nodes, Std.ExtTreeSet.mem_ofList]

end Graph

end BuildingRules
