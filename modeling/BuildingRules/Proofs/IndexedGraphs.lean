import BuildingRules.Graph.Indices
import BuildingRules.Proofs.GraphListings

/-!
# Two indices of one set of triples

An insertion keeps both indices and the count in step with the set of triples that were accepted,
and changes nothing unless the triple is new: `insert_cases`. So after any sequence of insertions
every question is answered from that set, by whatever index it is looked up in, and the set is all
that matters of the sequence: `indicesAgree`.
-/

set_option autoImplicit false

namespace BuildingRules

/-! ## One index -/

namespace Index

/-- The index leads from a node by a predicate to the terms that are related to it in this way, and
has no entry that leads nowhere. -/
structure Keeps (index : Index) (related : Term → Iri → Term → Prop) : Prop where
  mem_ends : ∀ node predicate finish,
    finish ∈ index.ends node predicate ↔ related node predicate finish
  predicates : ∀ (node : Term) (byPredicate : ByPredicate), index[node]? = some byPredicate →
    ∃ predicate, predicate ∈ byPredicate
  finishes : ∀ (node : Term) (byPredicate : ByPredicate) (predicate : Iri) (finishes : TermSet),
    index[node]? = some byPredicate → byPredicate[predicate]? = some finishes →
    ∃ finish, finish ∈ finishes

theorem getElem?_add (index : Index) (node other : Term) (predicate : Iri) (finish : Term) :
    (index.add node predicate finish)[other]? =
      if node = other then
        some ((index[node]?.getD ∅).insert predicate
          (((index[node]?.getD ∅)[predicate]?.getD ∅).insert finish))
      else index[other]? := by
  simp [add, Std.ExtTreeMap.getElem?_insert, Std.LawfulEqCmp.compare_eq_iff_eq]

theorem ends_eq (index : Index) (node : Term) (predicate : Iri) :
    index.ends node predicate = ((index[node]?.getD ∅)[predicate]?).getD ∅ := by
  unfold ends
  cases index[node]? <;> simp

theorem ends_add (index : Index) (node other : Term) (predicate otherPredicate : Iri)
    (finish : Term) :
    (index.add node predicate finish).ends other otherPredicate =
      if node = other ∧ predicate = otherPredicate then (index.ends node predicate).insert finish
      else index.ends other otherPredicate := by
  simp only [ends_eq, getElem?_add]
  by_cases sameNode : node = other
  · subst sameNode
    by_cases samePredicate : predicate = otherPredicate
    · subst samePredicate
      simp
    · simp [samePredicate, Std.ExtTreeMap.getElem?_insert, Std.LawfulEqCmp.compare_eq_iff_eq]
  · simp [sameNode]

theorem mem_ends_iff {index : Index} {node : Term} {predicate : Iri} {finish : Term} :
    finish ∈ index.ends node predicate ↔ ∃ byPredicate : ByPredicate,
      index[node]? = some byPredicate ∧ finish ∈ byPredicate[predicate]?.getD ∅ := by
  unfold ends
  cases index[node]? <;> simp

theorem keeps_empty : Keeps ∅ fun _ _ _ => False := by
  constructor <;> simp [ends]

namespace Keeps

variable {index left right : Index} {related : Term → Iri → Term → Prop}

theorem of_iff {others : Term → Iri → Term → Prop} (keeps : index.Keeps related)
    (same : ∀ node predicate finish,
      related node predicate finish ↔ others node predicate finish) : index.Keeps others where
  mem_ends node predicate finish :=
    (keeps.mem_ends node predicate finish).trans (same node predicate finish)
  predicates := keeps.predicates
  finishes := keeps.finishes

theorem add (keeps : index.Keeps related) (node : Term) (predicate : Iri) (finish : Term) :
    (index.add node predicate finish).Keeps fun other otherPredicate last =>
      (node = other ∧ predicate = otherPredicate ∧ finish = last) ∨
        related other otherPredicate last where
  mem_ends other otherPredicate last := by
    rw [ends_add]
    split
    next same =>
      obtain ⟨rfl, rfl⟩ := same
      simp [Std.LawfulEqCmp.compare_eq_iff_eq, keeps.mem_ends]
    next different =>
      rw [keeps.mem_ends]
      constructor
      · exact .inr
      · intro found
        rcases found with ⟨sameNode, samePredicate, _⟩ | isRelated
        · exact absurd ⟨sameNode, samePredicate⟩ different
        · exact isRelated
  predicates other byPredicate has := by
    rw [getElem?_add] at has
    split at has
    next =>
      obtain rfl := Option.some.inj has
      exact ⟨predicate, by simp⟩
    next => exact keeps.predicates other byPredicate has
  finishes other byPredicate otherPredicate finishes has hasEnds := by
    rw [getElem?_add] at has
    split at has
    next sameNode =>
      obtain rfl := Option.some.inj has
      rw [Std.ExtTreeMap.getElem?_insert] at hasEnds
      split at hasEnds
      next =>
        obtain rfl := Option.some.inj hasEnds
        exact ⟨finish, by simp⟩
      next =>
        -- an entry besides the one that is set was there before
        cases hadEntry : index[node]? with
        | none => simp [hadEntry] at hasEnds
        | some earlier =>
            rw [hadEntry, Option.getD_some] at hasEnds
            exact keeps.finishes node earlier otherPredicate finishes hadEntry hasEnds
    next => exact keeps.finishes other byPredicate otherPredicate finishes has hasEnds

theorem mem_finishes (keeps : index.Keeps related) {node : Term} {predicate : Iri}
    {byPredicate : ByPredicate} {finishes : TermSet}
    (has : index[node]? = some byPredicate) (hasEnds : byPredicate[predicate]? = some finishes)
    (finish : Term) : finish ∈ finishes ↔ related node predicate finish := by
  rw [← keeps.mem_ends, ends_eq, has, Option.getD_some, hasEnds, Option.getD_some]

theorem exists_of_related (keeps : index.Keeps related) {node : Term} {predicate : Iri}
    {finish : Term} (isRelated : related node predicate finish) :
    ∃ byPredicate finishes, index[node]? = some byPredicate ∧
      byPredicate[predicate]? = some finishes := by
  have isEnd := (keeps.mem_ends node predicate finish).2 isRelated
  unfold ends at isEnd
  cases has : index[node]?.bind fun byPredicate => byPredicate[predicate]? with
  | none => simp [has] at isEnd
  | some finishes =>
      obtain ⟨byPredicate, hasNode, hasEnds⟩ := Option.bind_eq_some_iff.1 has
      exact ⟨byPredicate, finishes, hasNode, hasEnds⟩

/-- The nodes of the index are those that are related to something. -/
theorem mem_iff (keeps : index.Keeps related) (node : Term) :
    node ∈ index ↔ ∃ predicate finish, related node predicate finish := by
  rw [Std.ExtTreeMap.mem_iff_isSome_getElem?, Option.isSome_iff_exists]
  constructor
  · intro found
    obtain ⟨byPredicate, has⟩ := found
    obtain ⟨predicate, member⟩ := keeps.predicates node byPredicate has
    rw [Std.ExtTreeMap.mem_iff_isSome_getElem?, Option.isSome_iff_exists] at member
    obtain ⟨finishes, hasEnds⟩ := member
    obtain ⟨finish, isEnd⟩ := keeps.finishes node byPredicate predicate finishes has hasEnds
    exact ⟨predicate, finish, (keeps.mem_finishes has hasEnds finish).1 isEnd⟩
  · intro found
    obtain ⟨predicate, finish, isRelated⟩ := found
    obtain ⟨byPredicate, _, has, _⟩ := keeps.exists_of_related isRelated
    exact ⟨byPredicate, has⟩

/-- What an entry says of a predicate is decided by what the node is related to. -/
theorem finishes_of_keeps (keepsLeft : left.Keeps related) (keepsRight : right.Keeps related)
    {node : Term} {predicate : Iri} {leftEntry rightEntry : ByPredicate} {finishes : TermSet}
    (hasLeft : left[node]? = some leftEntry) (hasRight : right[node]? = some rightEntry)
    (hasEnds : leftEntry[predicate]? = some finishes) :
    rightEntry[predicate]? = some finishes := by
  obtain ⟨finish, isEnd⟩ := keepsLeft.finishes node leftEntry predicate finishes hasLeft hasEnds
  have isRelated := (keepsLeft.mem_finishes hasLeft hasEnds finish).1 isEnd
  obtain ⟨entry, others, hasEntry, hasOthers⟩ := keepsRight.exists_of_related isRelated
  obtain rfl : rightEntry = entry := Option.some.inj (hasRight.symm.trans hasEntry)
  have sameEnds : others = finishes := by
    apply Std.ExtTreeSet.ext_mem
    intro last
    rw [keepsRight.mem_finishes hasRight hasOthers, keepsLeft.mem_finishes hasLeft hasEnds]
  rw [hasOthers, sameEnds]

theorem getElem?_of_keeps (keepsLeft : left.Keeps related) (keepsRight : right.Keeps related)
    {node : Term} {byPredicate : ByPredicate} (has : left[node]? = some byPredicate) :
    right[node]? = some byPredicate := by
  have inLeft : node ∈ left :=
    Std.ExtTreeMap.mem_iff_isSome_getElem?.2 (Option.isSome_of_eq_some has)
  have inRight : node ∈ right := (keepsRight.mem_iff node).2 ((keepsLeft.mem_iff node).1 inLeft)
  obtain ⟨others, hasOthers⟩ :=
    Option.isSome_iff_exists.1 (Std.ExtTreeMap.mem_iff_isSome_getElem?.1 inRight)
  have sameEntry : others = byPredicate := by
    apply Std.ExtTreeMap.ext_getElem?
    intro predicate
    apply Option.ext
    intro finishes
    exact ⟨keepsRight.finishes_of_keeps keepsLeft hasOthers has,
      keepsLeft.finishes_of_keeps keepsRight has hasOthers⟩
  rw [hasOthers, sameEntry]

/-- An index is determined by what it keeps. -/
theorem unique (keepsLeft : left.Keeps related) (keepsRight : right.Keeps related) :
    left = right := by
  apply Std.ExtTreeMap.ext_getElem?
  intro node
  apply Option.ext
  intro byPredicate
  exact ⟨getElem?_of_keeps keepsLeft keepsRight, getElem?_of_keeps keepsRight keepsLeft⟩

/-- What the index leads to already can be added without a change. -/
theorem add_eq_self (keeps : index.Keeps related) {node : Term} {predicate : Iri} {finish : Term}
    (isRelated : related node predicate finish) : index.add node predicate finish = index := by
  refine unique ((keeps.add node predicate finish).of_iff ?_) keeps
  intro other otherPredicate last
  constructor
  · intro found
    rcases found with ⟨rfl, rfl, rfl⟩ | found
    · exact isRelated
    · exact found
  · exact .inr

end Keeps

end Index

/-! ## Both indices -/

namespace IndexedGraph

/-- Both indices keep the triples, one from either end, and the triples are counted. -/
structure Describes (graph : IndexedGraph) (triples : Set Triple) : Prop where
  forward : graph.forward.Keeps fun subject predicate object =>
    ⟨subject, predicate, object⟩ ∈ triples
  backward : graph.backward.Keeps fun object predicate subject =>
    ⟨subject, predicate, object⟩ ∈ triples
  size : triples.encard = graph.size
  resources : ∀ triple ∈ triples, triple.subject.isResource = true

theorem describes_empty : Describes .empty ∅ where
  forward := Index.keeps_empty
  backward := Index.keeps_empty
  size := by simp [empty]
  resources := nofun

variable {graph : IndexedGraph} {triples : Set Triple} {triple : Triple}

theorem contains_iff (describes : graph.Describes triples) :
    graph.contains triple = true ↔ triple ∈ triples := by
  rw [contains, Std.ExtTreeSet.contains_iff_mem, describes.forward.mem_ends]

/-! ## One insertion -/

theorem exists_insert_eq_ok (graph : IndexedGraph)
    (isResource : triple.subject.isResource = true) :
    ∃ isNew, (graph.insert triple).1 = .ok isNew := by
  rw [insert, if_pos isResource]
  dsimp only
  split
  · exact ⟨false, rfl⟩
  · exact ⟨true, rfl⟩

theorem insert_of_literal (graph : IndexedGraph)
    (isLiteral : ¬triple.subject.isResource = true) :
    graph.insert triple =
      (.error (.of (.malformedIdentifier triple.subject.display "triple subject")), graph) := by
  rw [insert, if_neg isLiteral]

/-- What one insertion does: it is refused, it finds the triple there, or it adds it. -/
inductive Inserts (graph : IndexedGraph) (triples : Set Triple) (triple : Triple) :
    Except Error Bool × IndexedGraph → Prop
  | refused : ¬triple.subject.isResource = true →
      Inserts graph triples triple
        (.error (.of (.malformedIdentifier triple.subject.display "triple subject")), graph)
  | found : triple ∈ triples → Inserts graph triples triple (.ok false, graph)
  | added {larger : IndexedGraph} : triple.subject.isResource = true → triple ∉ triples →
      larger.Describes (Insert.insert triple triples) →
      Inserts graph triples triple (.ok true, larger)

theorem describes_add (describes : graph.Describes triples)
    (isResource : triple.subject.isResource = true) (isNew : triple ∉ triples) :
    Describes
      ⟨graph.forward.add triple.subject triple.predicate triple.object,
        graph.backward.add triple.object triple.predicate triple.subject, graph.size + 1⟩
      (Insert.insert triple triples) where
  forward := by
    apply (describes.forward.add _ _ _).of_iff
    intro subject predicate object
    rw [Set.mem_insert_iff, Triple.ext_iff]
    grind
  backward := by
    apply (describes.backward.add _ _ _).of_iff
    intro object predicate subject
    rw [Set.mem_insert_iff, Triple.ext_iff]
    grind
  size := by
    rw [Set.encard_insert_of_notMem isNew, describes.size]
    rfl
  resources := by
    rintro other (rfl | isOld)
    · exact isResource
    · exact describes.resources other isOld

theorem insert_cases (describes : graph.Describes triples) (triple : Triple) :
    Inserts graph triples triple (graph.insert triple) := by
  unfold insert
  split
  next isResource =>
    dsimp only
    split
    next inForward =>
      have isOld : triple ∈ triples := (contains_iff describes).1 inForward
      rw [describes.forward.add_eq_self isOld]
      exact .found isOld
    next notInForward =>
      have isNew : triple ∉ triples := fun isOld => notInForward ((contains_iff describes).2 isOld)
      exact .added isResource isNew (describes_add describes isResource isNew)
  next isLiteral => exact .refused isLiteral

namespace Inserts

variable {result : Except Error Bool × IndexedGraph}

theorem isNew_iff (inserts : Inserts graph triples triple result) :
    result.1 = .ok true ↔ triple.subject.isResource = true ∧ triple ∉ triples := by
  cases inserts with
  | refused isLiteral => simp [isLiteral]
  | found isOld => simp [isOld]
  | added isResource isNew => simp [isResource, isNew]

theorem isOld_iff (inserts : Inserts graph triples triple result)
    (describes : graph.Describes triples) : result.1 = .ok false ↔ triple ∈ triples := by
  cases inserts with
  | refused isLiteral =>
      have isNew : triple ∉ triples := fun isOld => isLiteral (describes.resources triple isOld)
      simp [isNew]
  | found isOld => simp [isOld]
  | added _ isNew => simp [isNew]

theorem refused_iff (inserts : Inserts graph triples triple result)
    (describes : graph.Describes triples) {error : Error} :
    result.1 = .error error ↔ ¬triple.subject.isResource = true ∧
      error = .of (.malformedIdentifier triple.subject.display "triple subject") := by
  cases inserts with
  | refused isLiteral => simp [isLiteral, eq_comm]
  | found isOld => simp [describes.resources triple isOld]
  | added isResource => simp [isResource]

theorem unchanged (inserts : Inserts graph triples triple result) (notNew : result.1 ≠ .ok true) :
    result.2 = graph := by
  cases inserts with
  | refused => rfl
  | found => rfl
  | added => exact absurd rfl notNew

end Inserts

/-! ## Questions -/

theorem mem_objects (describes : graph.Describes triples) (subject : Term) (predicate : Iri)
    (object : Term) :
    object ∈ graph.objects subject predicate ↔ ⟨subject, predicate, object⟩ ∈ triples := by
  rw [objects, Std.ExtTreeSet.mem_toList, describes.forward.mem_ends]

theorem mem_subjects (describes : graph.Describes triples) (predicate : Iri) (object : Term)
    (subject : Term) :
    subject ∈ graph.subjects predicate object ↔ ⟨subject, predicate, object⟩ ∈ triples := by
  rw [subjects, Std.ExtTreeSet.mem_toList, describes.backward.mem_ends]

theorem mem_pairs (describes : graph.Describes triples) (predicate : Iri) (subject object : Term) :
    (subject, object) ∈ graph.pairs predicate ↔ ⟨subject, predicate, object⟩ ∈ triples := by
  rw [← describes.forward.mem_ends, Index.mem_ends_iff]
  simp only [pairs, List.mem_flatMap, List.mem_map, Std.ExtTreeSet.mem_toList, Prod.mk.injEq]
  constructor
  · intro found
    obtain ⟨⟨node, byPredicate⟩, inIndex, other, isEnd, rfl, rfl⟩ := found
    exact ⟨byPredicate, Std.ExtTreeMap.mem_toList_iff_getElem?_eq_some.1 inIndex, isEnd⟩
  · intro found
    obtain ⟨byPredicate, has, isEnd⟩ := found
    exact ⟨(subject, byPredicate), Std.ExtTreeMap.mem_toList_iff_getElem?_eq_some.2 has, object,
      isEnd, rfl, rfl⟩

theorem mem_nodes (describes : graph.Describes triples) (term : Term) :
    term ∈ graph.nodes ↔ ∃ triple ∈ triples, term = triple.subject ∨ term = triple.object := by
  simp only [nodes, Std.ExtTreeSet.mem_toList, Std.ExtTreeSet.mem_ofList, List.contains_iff_mem,
    List.mem_append, Std.ExtTreeMap.mem_keys, describes.forward.mem_iff, describes.backward.mem_iff]
  constructor
  · intro found
    rcases found with ⟨predicate, object, member⟩ | ⟨predicate, subject, member⟩
    · exact ⟨_, member, .inl rfl⟩
    · exact ⟨_, member, .inr rfl⟩
  · intro found
    obtain ⟨triple, member, isEnd⟩ := found
    rcases isEnd with rfl | rfl
    · exact .inl ⟨triple.predicate, triple.object, member⟩
    · exact .inr ⟨triple.predicate, triple.subject, member⟩

theorem isEmpty_iff (describes : graph.Describes triples) :
    graph.isEmpty = true ↔ triples = ∅ := by
  rw [isEmpty, beq_iff_eq, ← Set.encard_eq_zero, describes.size, Nat.cast_eq_zero]

theorem ascending_objects (graph : IndexedGraph) (subject : Term) (predicate : Iri) :
    Ascending compare (graph.objects subject predicate) :=
  Std.ExtTreeSet.ordered_toList

theorem ascending_subjects (graph : IndexedGraph) (predicate : Iri) (object : Term) :
    Ascending compare (graph.subjects predicate object) :=
  Std.ExtTreeSet.ordered_toList

theorem ascending_nodes (graph : IndexedGraph) : Ascending compare graph.nodes :=
  Std.ExtTreeSet.ordered_toList

theorem ascending_pairs (graph : IndexedGraph) (predicate : Iri) :
    Ascending pairOrder (graph.pairs predicate) := by
  refine List.pairwise_flatMap.2 ⟨?_, ?_⟩
  · intro entry _
    apply List.pairwise_map.2
    have ordered : Ascending compare (entry.2[predicate]?.getD ∅).toList :=
      Std.ExtTreeSet.ordered_toList
    apply ordered.imp
    intro earlier later isBefore
    simpa [pairOrder, compareLex, compareOn] using isBefore
  · have ordered : graph.forward.toList.Pairwise fun earlier later =>
        compare earlier.1 later.1 = .lt := Std.ExtTreeMap.ordered_keys_toList
    apply ordered.imp
    intro earlier later isBefore pair inEarlier other inLater
    obtain ⟨_, _, rfl⟩ := List.mem_map.1 inEarlier
    obtain ⟨_, _, rfl⟩ := List.mem_map.1 inLater
    simp [pairOrder, compareLex, compareOn, isBefore]

theorem Describes.unique {other : IndexedGraph} (describes : graph.Describes triples)
    (describesToo : other.Describes triples) : graph = other := by
  have sameSize : (graph.size : ℕ∞) = other.size := describes.size.symm.trans describesToo.size
  exact IndexedGraph.ext (describes.forward.unique describesToo.forward)
    (describes.backward.unique describesToo.backward) (by exact_mod_cast sameSize)

end IndexedGraph

/-! ## The same triples in one ordered set -/

/-- Both kinds of graph give the same answer to every question. -/
structure IndexedGraph.Matches (indexed : IndexedGraph) (graph : Graph) : Prop where
  contains : ∀ triple, indexed.contains triple = graph.contains triple
  hasType : ∀ subject className, indexed.hasType subject className = graph.hasType subject className
  objects : ∀ subject predicate, indexed.objects subject predicate = graph.objects subject predicate
  subjects : ∀ predicate object, indexed.subjects predicate object = graph.subjects predicate object
  pairs : ∀ predicate, indexed.pairs predicate = graph.pairs predicate
  instancesOf : ∀ className, indexed.instancesOf className = graph.instancesOf className
  nodes : indexed.nodes = graph.nodes
  size : indexed.size = graph.size
  isEmpty : indexed.isEmpty = graph.isEmpty

theorem IndexedGraph.Describes.matches {indexed : IndexedGraph} {graph : Graph}
    {triples : Set Triple} (describes : indexed.Describes triples)
    (same : ∀ triple, triple ∈ graph.triples ↔ triple ∈ triples) : indexed.Matches graph := by
  have contains : ∀ triple, indexed.contains triple = graph.contains triple := by
    intro triple
    rw [Bool.eq_iff_iff, contains_iff describes, Graph.contains_iff, same]
  have subjects : ∀ predicate object,
      indexed.subjects predicate object = graph.subjects predicate object := by
    intro predicate object
    apply eq_of_ascending (ascending_subjects indexed predicate object)
      (graph.ascending_subjects predicate object)
    intro subject
    rw [mem_subjects describes, Graph.mem_subjects, same]
  have size : indexed.size = graph.size := by
    have counted := graph.encard_triples
    simp only [same] at counted
    exact_mod_cast describes.size.symm.trans counted
  exact
    { contains := contains
      hasType := fun subject className => contains (Graph.typing subject className)
      objects := fun subject predicate => by
        apply eq_of_ascending (ascending_objects indexed subject predicate)
          (graph.ascending_objects subject predicate)
        intro object
        rw [mem_objects describes, Graph.mem_objects, same]
      subjects := subjects
      pairs := fun predicate => by
        apply eq_of_ascending (ascending_pairs indexed predicate) (graph.ascending_pairs predicate)
        intro pair
        rw [mem_pairs describes, Graph.mem_pairs, same]
      instancesOf := fun className => subjects Vocabulary.rdfType (.iri className)
      nodes := by
        apply eq_of_ascending (ascending_nodes indexed) graph.ascending_nodes
        intro term
        simp only [mem_nodes describes, Graph.mem_nodes, same]
      size := size
      isEmpty := by
        rw [isEmpty, size, Graph.isEmpty, Std.ExtTreeSet.isEmpty_eq_size_beq_zero, Graph.size] }

/-! ## Sequences of insertions -/

namespace Insertion

open IndexedGraph

/-- The triples whose insertion was answered without an error. -/
def accepted (answers : List (Triple × Except Error Bool)) : Set Triple :=
  {triple | ∃ isNew, (triple, .ok isNew) ∈ answers}

variable {graph : IndexedGraph} {triples : Set Triple} {triple : Triple}

theorem accepted_nil : accepted [] = ∅ := by
  simp [accepted]

theorem accepted_cons_ok (isNew : Bool) (rest : List (Triple × Except Error Bool)) :
    accepted ((triple, .ok isNew) :: rest) = {triple} ∪ accepted rest := by
  ext other
  simp only [accepted, List.mem_cons, Prod.mk.injEq, Except.ok.injEq, Set.mem_ofPred_eq,
    Set.mem_union, Set.mem_singleton_iff]
  grind

theorem accepted_cons_error (error : Error) (rest : List (Triple × Except Error Bool)) :
    accepted ((triple, .error error) :: rest) = accepted rest := by
  ext other
  simp [accepted]

theorem perform_eq (graph : IndexedGraph) (insertion : Insertion) :
    insertion.perform graph = graph.insert insertion.toTriple := by
  cases insertion <;> rfl

theorem performAll_cons (graph : IndexedGraph) (insertion : Insertion) (rest : List Insertion) :
    performAll graph (insertion :: rest) =
      ((insertion.toTriple, (graph.insert insertion.toTriple).1) ::
          (performAll (graph.insert insertion.toTriple).2 rest).1,
        (performAll (graph.insert insertion.toTriple).2 rest).2) := by
  rw [performAll, perform_eq]

/-- In step with the accepted triples before, the indices are in step with those after. -/
theorem describes_performAll (describes : graph.Describes triples) (insertions : List Insertion) :
    (performAll graph insertions).2.Describes
      (triples ∪ accepted (performAll graph insertions).1) := by
  induction insertions generalizing graph triples with
  | nil =>
      rw [performAll, accepted_nil, Set.union_empty]
      exact describes
  | cons insertion rest inductionHypothesis =>
      rw [performAll_cons]
      have inserts := insert_cases describes insertion.toTriple
      generalize graph.insert insertion.toTriple = result at inserts
      cases inserts with
      | refused =>
          rw [accepted_cons_error]
          exact inductionHypothesis describes
      | found isOld =>
          rw [accepted_cons_ok, ← Set.union_assoc, Set.union_singleton, Set.insert_eq_of_mem isOld]
          exact inductionHypothesis describes
      | added _ _ describesLarger =>
          rw [accepted_cons_ok, ← Set.union_assoc, Set.union_singleton]
          exact inductionHypothesis describesLarger

/-- All insertions are accepted but those with a literal for a subject. -/
theorem mem_accepted_performAll (graph : IndexedGraph) (insertions : List Insertion) :
    triple ∈ accepted (performAll graph insertions).1 ↔
      (∃ insertion ∈ insertions, insertion.toTriple = triple) ∧
        triple.subject.isResource = true := by
  induction insertions generalizing graph with
  | nil => simp [performAll, accepted]
  | cons insertion rest inductionHypothesis =>
      rw [performAll_cons]
      by_cases isResource : insertion.toTriple.subject.isResource = true
      · obtain ⟨isNew, answered⟩ := graph.exists_insert_eq_ok isResource
        rw [answered, accepted_cons_ok, Set.mem_union, inductionHypothesis, Set.mem_singleton_iff]
        grind
      · rw [graph.insert_of_literal isResource, accepted_cons_error, inductionHypothesis]
        grind

end Insertion

/-! ## Agreement -/

namespace Insertion

/-- The graph that a sequence of insertions builds up from nothing. -/
def built (insertions : List Insertion) : IndexedGraph := (performAll .empty insertions).2

/-- The triples that were accepted in the course of it. -/
def acceptedOf (insertions : List Insertion) : Set Triple :=
  accepted (performAll .empty insertions).1

theorem describes_built (insertions : List Insertion) :
    (built insertions).Describes (acceptedOf insertions) := by
  have describes := describes_performAll IndexedGraph.describes_empty insertions
  rwa [Set.empty_union] at describes

end Insertion

/-- What a graph that insertions build up answers, and what decides it. -/
structure IndicesAgree (insertions : List Insertion) : Prop where
  accepted : ∀ triple, triple ∈ Insertion.acceptedOf insertions ↔
    (∃ insertion ∈ insertions, insertion.toTriple = triple) ∧ triple.subject.isResource = true
  contains : ∀ triple, (Insertion.built insertions).contains triple = true ↔
    triple ∈ Insertion.acceptedOf insertions
  objects : ∀ subject predicate object,
    object ∈ (Insertion.built insertions).objects subject predicate ↔
      ⟨subject, predicate, object⟩ ∈ Insertion.acceptedOf insertions
  subjects : ∀ subject predicate object,
    subject ∈ (Insertion.built insertions).subjects predicate object ↔
      ⟨subject, predicate, object⟩ ∈ Insertion.acceptedOf insertions
  pairs : ∀ subject predicate object,
    (subject, object) ∈ (Insertion.built insertions).pairs predicate ↔
      ⟨subject, predicate, object⟩ ∈ Insertion.acceptedOf insertions
  hasType : ∀ subject className,
    (Insertion.built insertions).hasType subject className = true ↔
      Graph.typing subject className ∈ Insertion.acceptedOf insertions
  instancesOf : ∀ subject className,
    subject ∈ (Insertion.built insertions).instancesOf className ↔
      Graph.typing subject className ∈ Insertion.acceptedOf insertions
  nodes : ∀ term, term ∈ (Insertion.built insertions).nodes ↔
    ∃ triple ∈ Insertion.acceptedOf insertions, term = triple.subject ∨ term = triple.object
  /-- Every listing is strictly ascending, and so has each of its members once. -/
  ascending :
    (∀ subject predicate,
      Ascending compare ((Insertion.built insertions).objects subject predicate)) ∧
    (∀ predicate object,
      Ascending compare ((Insertion.built insertions).subjects predicate object)) ∧
    (∀ predicate, Ascending pairOrder ((Insertion.built insertions).pairs predicate)) ∧
    (∀ className, Ascending compare ((Insertion.built insertions).instancesOf className)) ∧
    Ascending compare (Insertion.built insertions).nodes
  size : (Insertion.acceptedOf insertions).encard = (Insertion.built insertions).size
  isEmpty : (Insertion.built insertions).isEmpty = true ↔ Insertion.acceptedOf insertions = ∅
  isNew : ∀ next : Insertion, (next.perform (Insertion.built insertions)).1 = .ok true ↔
    next.toTriple.subject.isResource = true ∧ next.toTriple ∉ Insertion.acceptedOf insertions
  isOld : ∀ next : Insertion, (next.perform (Insertion.built insertions)).1 = .ok false ↔
    next.toTriple ∈ Insertion.acceptedOf insertions
  refused : ∀ (next : Insertion) (error : Error),
    (next.perform (Insertion.built insertions)).1 = .error error ↔
      (∃ text, next.toTriple.subject = .literal text) ∧
      error = .of (.malformedIdentifier next.toTriple.subject.display "triple subject")
  /-- Whatever is not new leaves the graph as it was. -/
  unchanged : ∀ next : Insertion, (next.perform (Insertion.built insertions)).1 ≠ .ok true →
    (next.perform (Insertion.built insertions)).2 = Insertion.built insertions
  /-- Neither the order of the insertions nor their number matters. -/
  determined : ∀ others, Insertion.acceptedOf others = Insertion.acceptedOf insertions →
    Insertion.built others = Insertion.built insertions
  /-- The ordered set of the same triples, over which queries are answered, tells the same. -/
  matchesSet : ∀ graph : Graph,
    (∀ triple, triple ∈ graph.triples ↔ triple ∈ Insertion.acceptedOf insertions) →
    (Insertion.built insertions).Matches graph

theorem Term.isResource_eq_false_iff {term : Term} :
    ¬term.isResource = true ↔ ∃ text, term = .literal text := by
  cases term <;> simp [isResource]

theorem indicesAgree (insertions : List Insertion) : IndicesAgree insertions := by
  have describes := Insertion.describes_built insertions
  have inserts : ∀ next : Insertion, IndexedGraph.Inserts (Insertion.built insertions)
      (Insertion.acceptedOf insertions) next.toTriple
      (next.perform (Insertion.built insertions)) := by
    intro next
    rw [Insertion.perform_eq]
    exact IndexedGraph.insert_cases describes next.toTriple
  exact
    { accepted := fun triple => Insertion.mem_accepted_performAll .empty insertions
      contains := fun triple => IndexedGraph.contains_iff describes
      objects := fun subject predicate object =>
        IndexedGraph.mem_objects describes subject predicate object
      subjects := fun subject predicate object =>
        IndexedGraph.mem_subjects describes predicate object subject
      pairs := fun subject predicate object =>
        IndexedGraph.mem_pairs describes predicate subject object
      hasType := fun subject className => IndexedGraph.contains_iff describes
      instancesOf := fun subject className =>
        IndexedGraph.mem_subjects describes Vocabulary.rdfType (.iri className) subject
      nodes := IndexedGraph.mem_nodes describes
      ascending := ⟨IndexedGraph.ascending_objects _, IndexedGraph.ascending_subjects _,
        IndexedGraph.ascending_pairs _,
        fun className => IndexedGraph.ascending_subjects _ Vocabulary.rdfType (.iri className),
        IndexedGraph.ascending_nodes _⟩
      size := describes.size
      isEmpty := IndexedGraph.isEmpty_iff describes
      isNew := fun next => (inserts next).isNew_iff
      isOld := fun next => (inserts next).isOld_iff describes
      refused := fun next error => by
        rw [(inserts next).refused_iff describes, Term.isResource_eq_false_iff]
      unchanged := fun next => (inserts next).unchanged
      determined := fun others same =>
        (same ▸ Insertion.describes_built others).unique describes
      matchesSet := fun graph same => describes.matches same }

end BuildingRules
