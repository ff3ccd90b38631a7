import BuildingRules.Proofs.Searches

/-!
# Paths are found from either end

The search for paths visits what its first neighbours lead to, and has reached that and the nodes
it began with: `PathSearch.mem_reached`. In a graph that insertions build up it ends from every
node, in either direction, with exactly what the quantifier allows to be come to; so a node is
reached from another one forwards if and only if that one is reached from it backwards:
`searchesPaths`.
-/

set_option autoImplicit false

namespace BuildingRules

/-! ## Turns -/

namespace PathSearch

variable {neighbours : Term → List Term} {search next last : PathSearch}

theorem queue_eq_nil (isLast : search.turn neighbours = none) : search.queue = [] := by
  unfold turn at isLast
  split at isLast
  next empty => exact empty
  next => split at isLast <;> contradiction

/-- What a turn does: the first node of the queue was visited before, or is visited now. -/
theorem turn_cases (isNext : search.turn neighbours = some next) :
    ∃ node rest, search.queue = node :: rest ∧
      (node ∈ search.visited ∧ next = { search with queue := rest } ∨
        node ∉ search.visited ∧ next =
          ⟨search.visited.insert node, search.reached.insert node, rest ++ neighbours node⟩) := by
  unfold turn at isNext
  split at isNext
  next => contradiction
  next node rest isQueue =>
    refine ⟨node, rest, isQueue, ?_⟩
    split at isNext
    next isOld =>
      exact .inl ⟨Std.ExtTreeSet.contains_iff_mem.1 isOld, (Option.some.inj isNext).symm⟩
    next isNew =>
      refine .inr ⟨fun isOld => isNew ?_, (Option.some.inj isNext).symm⟩
      exact Std.ExtTreeSet.contains_iff_mem.2 isOld

theorem takes (isNext : search.turn neighbours = some next) :
    Takes neighbours search.visited search.queue next.visited next.queue := by
  obtain ⟨node, rest, isQueue, turned⟩ := turn_cases isNext
  rw [isQueue]
  rcases turned with ⟨isOld, rfl⟩ | ⟨isNew, rfl⟩
  · exact .skip isOld
  · exact .meet isNew (.refl _)

/-- The nodes that were visited or wait are tracked, and those reached are the first ones and those
visited. -/
structure Explores (neighbours : Term → List Term) (starts : List Term) (first : TermSet)
    (search : PathSearch) : Prop where
  tracks : Tracks neighbours starts search.visited search.queue
  mem_reached : ∀ node, node ∈ search.reached ↔ node ∈ first ∨ node ∈ search.visited

theorem Explores.turn {starts : List Term} {first : TermSet}
    (isNext : search.turn neighbours = some next)
    (explores : search.Explores neighbours starts first) :
    next.Explores neighbours starts first := by
  refine ⟨explores.tracks.turn (takes isNext), fun other => ?_⟩
  obtain ⟨node, rest, -, turned⟩ := turn_cases isNext
  rcases turned with ⟨_, rfl⟩ | ⟨_, rfl⟩
  · exact explores.mem_reached other
  · simp only [Std.ExtTreeSet.mem_insert, explores.mem_reached]
    exact or_left_comm

/-! ## What is reached -/

section Reached

variable {quantifier : Quantifier} {node : Term} {turns : Nat}

theorem mem_unmoved {finish : Term} :
    finish ∈ unmoved quantifier node ↔ quantifier.allowsZero = true ∧ finish = node := by
  unfold unmoved
  split
  next allowed =>
    rw [Std.ExtTreeSet.mem_insert, Std.LawfulEqCmp.compare_eq_iff_eq]
    simp [allowed, eq_comm]
  next refused => simp [refused]

theorem mem_reached_of_many (allowsMany : quantifier.allowsMany = true)
    (loop : Loop (turn neighbours) (start neighbours quantifier node) turns last)
    (finish : Term) :
    finish ∈ last.reached ↔ finish ∈ unmoved quantifier node ∨
      Relation.TransGen (fun tail head => head ∈ neighbours tail) node finish := by
  rw [start, if_pos allowsMany] at loop
  have explores := loop.invariant (fun _ _ => Explores.turn)
    ⟨Tracks.initial fun _ => Iff.rfl, fun _ => (or_iff_left Std.ExtTreeSet.not_mem_empty).symm⟩
  have tracks := explores.tracks
  rw [queue_eq_nil loop.turn_last] at tracks
  rw [explores.mem_reached, tracks.mem_iff, Relation.TransGen.head'_iff]

theorem mem_reached_of_not_many (notMany : quantifier.allowsMany = false)
    (loop : Loop (turn neighbours) (start neighbours quantifier node) turns last)
    (finish : Term) :
    finish ∈ last.reached ↔ finish ∈ unmoved quantifier node ∨ finish ∈ neighbours node := by
  rw [start, if_neg (Bool.eq_false_iff.1 notMany)] at loop
  obtain ⟨-, rfl⟩ := loop.unique (.done rfl)
  rw [Std.ExtTreeSet.mem_insertMany_list, List.contains_iff_mem]

/-- A search that ends has reached what its quantifier allows to be come to. -/
theorem mem_reached (loop : Loop (turn neighbours) (start neighbours quantifier node) turns last)
    (finish : Term) :
    finish ∈ last.reached ↔
      quantifier.Follows (fun tail head => head ∈ neighbours tail) node finish := by
  cases quantifier with
  | one =>
    rw [mem_reached_of_not_many rfl loop, mem_unmoved]
    simp [Quantifier.allowsZero, Quantifier.Follows]
  | zeroOrOne =>
    rw [mem_reached_of_not_many rfl loop, mem_unmoved]
    simp [Quantifier.allowsZero, Quantifier.Follows, Relation.reflGen_iff]
  | zeroOrMore =>
    rw [mem_reached_of_many rfl loop, mem_unmoved]
    simp [Quantifier.allowsZero, Quantifier.Follows, Relation.reflTransGen_iff_eq_or_transGen]
  | oneOrMore =>
    rw [mem_reached_of_many rfl loop, mem_unmoved]
    simp [Quantifier.allowsZero, Quantifier.Follows]

end Reached

end PathSearch

/-! ## Graphs that insertions build up -/

namespace IndexedGraph

variable {graph : IndexedGraph} {triples : Set Triple} {predicate : Iri} {quantifier : Quantifier}
  {direction : Direction} {node : Term} {turns : Nat} {reached : TermSet}

/-- The search takes a turn at most for each neighbour of its node and for each edge. -/
theorem exists_reaches (describes : graph.Describes triples) (predicate : Iri)
    (quantifier : Quantifier) (direction : Direction) (node : Term) :
    ∃ count ≤ (graph.neighbours predicate direction node).length +
        (graph.pairs predicate).length,
      ∃ reached, ∀ turns result,
        graph.Reaches predicate quantifier direction node turns result ↔
          turns = count ∧ result = reached := by
  obtain ⟨count, bound, last, loop⟩ := Loop.exists_of_measure
    (fun _ _ isNext => (PathSearch.takes isNext).turnsLeft_eq
      (length_headsFrom describes direction))
    (PathSearch.start (graph.neighbours predicate direction) quantifier node)
  refine ⟨count, Nat.le_trans bound ?_, last.reached, loop.exists_last_iff PathSearch.reached⟩
  have waiting : (PathSearch.start (graph.neighbours predicate direction) quantifier
      node).queue.length ≤ (graph.neighbours predicate direction node).length := by
    unfold PathSearch.start
    split
    · exact Nat.le_refl _
    · exact Nat.zero_le _
  rw [← length_arrows graph predicate direction]
  exact Nat.le_trans (turnsLeft_le ..) (Nat.add_le_add_right waiting _)

theorem Reaches.mem_forward (describes : graph.Describes triples)
    (reaches : graph.Reaches predicate quantifier .forward node turns reached) (finish : Term) :
    finish ∈ reached ↔ quantifier.Follows (graph.Edge predicate) node finish := by
  obtain ⟨last, loop, rfl⟩ := reaches
  rw [PathSearch.mem_reached loop]
  simp only [neighbours, leadsForward describes]

theorem Reaches.mem_backward (describes : graph.Describes triples)
    (reaches : graph.Reaches predicate quantifier .backward node turns reached) (finish : Term) :
    finish ∈ reached ↔ quantifier.Follows (graph.Edge predicate) finish node := by
  obtain ⟨last, loop, rfl⟩ := reaches
  rw [PathSearch.mem_reached loop]
  simp only [neighbours, leadsBackward describes]
  exact follows_swap quantifier (graph.Edge predicate) node finish

end IndexedGraph

/-- What searches for paths over a predicate come to. -/
structure SearchesPaths (graph : IndexedGraph) (predicate : Iri) : Prop where
  /-- Every search ends, in one way only. -/
  ends : ∀ quantifier direction node,
    ∃ count ≤ (graph.neighbours predicate direction node).length +
        (graph.pairs predicate).length,
      ∃ reached, ∀ turns result,
        graph.Reaches predicate quantifier direction node turns result ↔
          turns = count ∧ result = reached
  forward : ∀ quantifier node turns reached,
    graph.Reaches predicate quantifier .forward node turns reached →
    ∀ finish, finish ∈ reached ↔ quantifier.Follows (graph.Edge predicate) node finish
  backward : ∀ quantifier node turns reached,
    graph.Reaches predicate quantifier .backward node turns reached →
    ∀ finish, finish ∈ reached ↔ quantifier.Follows (graph.Edge predicate) finish node
  /-- With one edge or more, a node is reached from itself if and only if it lies on a cycle. -/
  onCycle : ∀ direction node turns reached,
    graph.Reaches predicate .oneOrMore direction node turns reached →
    (node ∈ reached ↔ ∃ next, graph.Edge predicate node next ∧
      Relation.ReflTransGen (graph.Edge predicate) next node)
  eitherWay : ∀ quantifier left right turns others fromLeft fromRight,
    graph.Reaches predicate quantifier .forward left turns fromLeft →
    graph.Reaches predicate quantifier .backward right others fromRight →
    (right ∈ fromLeft ↔ left ∈ fromRight)
  /-- Over the ordered set of the same triples, queries are answered from the same paths. -/
  answersQueries : ∀ set : Graph,
    (∀ triple, triple ∈ set.triples ↔ graph.contains triple = true) →
    ∀ quantifier direction node turns reached,
      graph.Reaches predicate quantifier direction node turns reached →
      reached = set.reach predicate quantifier direction node

theorem searchesPaths (insertions : List Insertion) (predicate : Iri) :
    SearchesPaths (Insertion.built insertions) predicate := by
  have describes := Insertion.describes_built insertions
  exact
    { ends := IndexedGraph.exists_reaches describes predicate
      forward := fun _ _ _ _ reaches => reaches.mem_forward describes
      backward := fun _ _ _ _ reaches => reaches.mem_backward describes
      onCycle := by
        intro direction node turns reached reaches
        rw [← Relation.TransGen.head'_iff]
        cases direction with
        | forward => exact reaches.mem_forward describes node
        | backward => exact reaches.mem_backward describes node
      eitherWay := by
        intro quantifier left right turns others fromLeft fromRight reachesLeft reachesRight
        rw [reachesLeft.mem_forward describes, reachesRight.mem_backward describes]
      answersQueries := by
        intro set same quantifier direction node turns reached reaches
        have sameEdges := IndexedGraph.edge_eq same predicate
        apply Std.ExtTreeSet.ext_mem
        intro finish
        cases direction with
        | forward => rw [reaches.mem_forward describes, mem_reach_forward, sameEdges]
        | backward => rw [reaches.mem_backward describes, mem_reach_backward, sameEdges] }

end BuildingRules
