import BuildingRules.Graph.Search
import BuildingRules.Proofs.IndexedGraphs
import BuildingRules.Proofs.Reachability

/-!
# Searches come to an end

Each turn of a search takes a node away from those that wait, and puts the neighbours of a node
there only when it is met for the first time. So as many turns are left as nodes wait and arrows
lead from nodes that are not met: `turnsLeft`. In whatever order nodes are taken, those that were
met or wait stay within reach of the first ones, and nothing within reach is lost: `Tracks`. When
no node waits, the nodes that were met are therefore exactly those within reach.
-/

set_option autoImplicit false

namespace BuildingRules

/-! ## Loops -/

namespace Loop

variable {State : Type} {turn : State → Option State} {state last : State} {count : Nat}

theorem turn_last (loop : Loop turn state count last) : turn last = none := by
  induction loop with
  | done isLast => exact isLast
  | again _ _ inductionHypothesis => exact inductionHypothesis

theorem invariant {Holds : State → Prop}
    (kept : ∀ state next, turn state = some next → Holds state → Holds next)
    (loop : Loop turn state count last) (holds : Holds state) : Holds last := by
  induction loop with
  | done => exact holds
  | again isNext _ inductionHypothesis => exact inductionHypothesis (kept _ _ isNext holds)

/-- There is only one way for a loop to go. -/
theorem unique {other : Nat} {result : State} (loop : Loop turn state count last)
    (loopToo : Loop turn state other result) : other = count ∧ result = last := by
  induction loop generalizing other result with
  | done isLast =>
    cases loopToo with
    | done => exact ⟨rfl, rfl⟩
    | again isNext => exact absurd (isLast.symm.trans isNext) nofun
  | again isNext _ inductionHypothesis =>
    cases loopToo with
    | done isLast => exact absurd (isLast.symm.trans isNext) nofun
    | again isNextToo rest =>
      obtain rfl := Option.some.inj (isNext.symm.trans isNextToo)
      obtain ⟨rfl, rfl⟩ := inductionHypothesis rest
      exact ⟨rfl, rfl⟩

/-- So what is told of the last state is told in one way only. -/
theorem exists_last_iff {Result : Type} (result : State → Result)
    (loop : Loop turn state count last) (turns : Nat) (told : Result) :
    (∃ final, Loop turn state turns final ∧ result final = told) ↔
      turns = count ∧ told = result last := by
  constructor
  · intro found
    obtain ⟨final, finalLoop, rfl⟩ := found
    obtain ⟨rfl, rfl⟩ := loop.unique finalLoop
    exact ⟨rfl, rfl⟩
  · intro same
    obtain ⟨rfl, rfl⟩ := same
    exact ⟨last, loop, rfl⟩

/-- A loop whose turns each use up one of a number of things takes no more turns than there are
things. -/
theorem exists_of_measure {measure : State → Nat}
    (uses : ∀ state next, turn state = some next → measure next + 1 = measure state)
    (state : State) : ∃ count ≤ measure state, ∃ last, Loop turn state count last := by
  induction size : measure state generalizing state with
  | zero =>
    cases isNext : turn state with
    | none => exact ⟨0, Nat.le_refl 0, state, .done isNext⟩
    | some next =>
      have used := uses state next isNext
      omega
  | succ size inductionHypothesis =>
    cases isNext : turn state with
    | none => exact ⟨0, Nat.zero_le _, state, .done isNext⟩
    | some next =>
      have used := uses state next isNext
      obtain ⟨count, bound, last, loop⟩ := inductionHypothesis next (by omega)
      exact ⟨count + 1, Nat.succ_le_succ bound, last, .again isNext loop⟩

end Loop

/-! ## Turns -/

section Nodes

variable {neighbours : Term → List Term} {arrows : List (Term × Term)} {starts : List Term}
  {met metLater : TermSet} {node : Term} {pending rest later : List Term}

/-- What a turn does to the nodes that were met and to those that wait: the node that comes first is
passed over, or it is met and its neighbours join those that wait, in whatever order. -/
inductive Takes (neighbours : Term → List Term) (met : TermSet) :
    List Term → TermSet → List Term → Prop
  | skip {node : Term} {rest : List Term} :
      node ∈ met → Takes neighbours met (node :: rest) met rest
  | meet {node : Term} {rest later : List Term} :
      node ∉ met → later.Perm (rest ++ neighbours node) →
      Takes neighbours met (node :: rest) (met.insert node) later

/-! ## Turns that are left -/

/-- A turn for every node that waits, and for every arrow from a node that was not met. -/
def turnsLeft (arrows : List (Term × Term)) (met : TermSet) (pending : List Term) : Nat :=
  pending.length + (arrows.filter fun arrow => !met.contains arrow.1).length

theorem contains_insert_eq (met : TermSet) (node other : Term) :
    (met.insert node).contains other = (node == other || met.contains other) := by
  rw [Bool.eq_iff_iff]
  simp [Std.LawfulEqCmp.compare_eq_iff_eq]

/-- The arrows of a node that is met for the first time are exchanged for its neighbours. -/
theorem turnsLeft_insert (isNew : node ∉ met)
    (exchanged : later.length = rest.length + (headsFrom node arrows).length) :
    turnsLeft arrows (met.insert node) later + 1 = turnsLeft arrows met (node :: rest) := by
  have others : arrows.filter (fun arrow => !(met.insert node).contains arrow.1) =
      arrowsElsewhere node (arrows.filter fun arrow => !met.contains arrow.1) := by
    rw [arrowsElsewhere, List.filter_filter]
    apply List.filter_congr
    intro arrow _
    rw [contains_insert_eq, Bool.not_or, bne, Bool.beq_comm]
  have own : headsFrom node (arrows.filter fun arrow => !met.contains arrow.1) =
      headsFrom node arrows := by
    rw [headsFrom, List.filter_filter]
    congr 1
    apply List.filter_congr
    intro arrow _
    cases same : arrow.1 == node with
    | false => rfl
    | true =>
      rw [beq_iff_eq.1 same, Bool.true_and, Bool.not_eq_true']
      exact Bool.eq_false_iff.2 fun isMet => isNew (Std.ExtTreeSet.contains_iff_mem.1 isMet)
  have parts := length_arrowsElsewhere_add_length_headsFrom node
    (arrows.filter fun arrow => !met.contains arrow.1)
  rw [own] at parts
  rw [turnsLeft, turnsLeft, others, exchanged, List.length_cons]
  omega

/-- If every node has as many arrows as neighbours, a turn leaves one turn less. -/
theorem Takes.turnsLeft_eq (takes : Takes neighbours met pending metLater later)
    (counted : ∀ node, (headsFrom node arrows).length = (neighbours node).length) :
    turnsLeft arrows metLater later + 1 = turnsLeft arrows met pending := by
  cases takes with
  | skip =>
    simp only [turnsLeft, List.length_cons]
    omega
  | meet isNew joined =>
    apply turnsLeft_insert isNew
    rw [joined.length_eq, List.length_append, counted]

theorem turnsLeft_le (arrows : List (Term × Term)) (met : TermSet) (pending : List Term) :
    turnsLeft arrows met pending ≤ pending.length + arrows.length :=
  Nat.add_le_add_left (List.length_filter_le ..) pending.length

/-! ## What is within reach -/

/-- From a list of nodes, the nodes that were met or wait are all within reach, and include every
node that one step leads to from those that were met. -/
structure Tracks (neighbours : Term → List Term) (starts : List Term) (met : TermSet)
    (pending : List Term) : Prop where
  sound : ∀ node, node ∈ met ∨ node ∈ pending →
    ∃ start ∈ starts, Relation.ReflTransGen (fun tail head => head ∈ neighbours tail) start node
  begun : ∀ start ∈ starts, start ∈ met ∨ start ∈ pending
  closed : ∀ node ∈ met, ∀ next ∈ neighbours node, next ∈ met ∨ next ∈ pending

namespace Tracks

theorem initial (same : ∀ node, node ∈ pending ↔ node ∈ starts) :
    Tracks neighbours starts ∅ pending where
  sound node found := by
    rcases found with isMet | waits
    · exact absurd isMet Std.ExtTreeSet.not_mem_empty
    · exact ⟨node, (same node).1 waits, .refl⟩
  begun start listed := .inr ((same start).2 listed)
  closed node isMet := absurd isMet Std.ExtTreeSet.not_mem_empty

theorem skip (tracks : Tracks neighbours starts met (node :: rest)) (isMet : node ∈ met) :
    Tracks neighbours starts met rest := by
  have stays : ∀ other, other ∈ met ∨ other ∈ node :: rest → other ∈ met ∨ other ∈ rest := by
    intro other found
    rcases found with isMetToo | waits
    · exact .inl isMetToo
    · rcases List.mem_cons.1 waits with same | waitsToo
      · exact .inl (same ▸ isMet)
      · exact .inr waitsToo
  exact
    { sound := fun other found =>
        tracks.sound other (found.imp_right (List.mem_cons_of_mem node))
      begun := fun start listed => stays start (tracks.begun start listed)
      closed := fun other isMetToo next isNext =>
        stays next (tracks.closed other isMetToo next isNext) }

theorem meet (tracks : Tracks neighbours starts met (node :: rest))
    (joined : ∀ other, other ∈ later ↔ other ∈ rest ∨ other ∈ neighbours node) :
    Tracks neighbours starts (met.insert node) later := by
  have mem_insert : ∀ other, other ∈ met.insert node ↔ node = other ∨ other ∈ met := by
    intro other
    rw [Std.ExtTreeSet.mem_insert, Std.LawfulEqCmp.compare_eq_iff_eq]
  have stays : ∀ other, other ∈ met ∨ other ∈ node :: rest →
      other ∈ met.insert node ∨ other ∈ later := by
    intro other found
    rw [mem_insert, joined]
    rcases found with isMet | waits
    · exact .inl (.inr isMet)
    · rcases List.mem_cons.1 waits with same | waitsToo
      · exact .inl (.inl same.symm)
      · exact .inr (.inl waitsToo)
  have nodeReached := tracks.sound node (.inr (List.mem_cons_self ..))
  exact
    { sound := by
        intro other found
        rw [mem_insert, joined] at found
        rcases found with (same | isMet) | waits | isNext
        · exact same ▸ nodeReached
        · exact tracks.sound other (.inl isMet)
        · exact tracks.sound other (.inr (List.mem_cons_of_mem node waits))
        · obtain ⟨start, listed, chain⟩ := nodeReached
          exact ⟨start, listed, chain.tail isNext⟩
      begun := fun start listed => stays start (tracks.begun start listed)
      closed := by
        intro other isMet next isNext
        rcases (mem_insert other).1 isMet with same | isMetBefore
        · exact .inr ((joined next).2 (.inr (same ▸ isNext)))
        · exact stays next (tracks.closed other isMetBefore next isNext) }

theorem turn (tracks : Tracks neighbours starts met pending)
    (takes : Takes neighbours met pending metLater later) :
    Tracks neighbours starts metLater later := by
  cases takes with
  | skip isMet => exact tracks.skip isMet
  | meet _ joined => exact tracks.meet fun other => joined.mem_iff.trans List.mem_append

/-- When no node waits, exactly the nodes within reach were met. -/
theorem mem_iff (tracks : Tracks neighbours starts met []) (finish : Term) :
    finish ∈ met ↔ ∃ start ∈ starts,
      Relation.ReflTransGen (fun tail head => head ∈ neighbours tail) start finish := by
  have isMet : ∀ other, other ∈ met ∨ other ∈ [] → other ∈ met := by
    intro other found
    exact found.resolve_right List.not_mem_nil
  constructor
  · intro found
    exact tracks.sound finish (.inl found)
  · intro within
    obtain ⟨start, listed, chain⟩ := within
    induction chain with
    | refl => exact isMet start (tracks.begun start listed)
    | tail _ isNext inductionHypothesis =>
      exact isMet _ (tracks.closed _ inductionHypothesis _ isNext)

end Tracks

end Nodes

/-! ## Edges of a graph in two indices -/

namespace IndexedGraph

def Edge (graph : IndexedGraph) (predicate : Iri) (subject object : Term) : Prop :=
  graph.contains ⟨subject, predicate, object⟩ = true

variable {graph : IndexedGraph} {triples : Set Triple} {predicate : Iri}

theorem edge_iff (describes : graph.Describes triples) (subject object : Term) :
    graph.Edge predicate subject object ↔ ⟨subject, predicate, object⟩ ∈ triples :=
  contains_iff describes

theorem mem_subjects_iff_edge (describes : graph.Describes triples) (subject object : Term) :
    subject ∈ graph.subjects predicate object ↔ graph.Edge predicate subject object := by
  rw [mem_subjects describes, edge_iff describes]

theorem leadsForward (describes : graph.Describes triples) :
    (fun tail head => head ∈ graph.objects tail predicate) = graph.Edge predicate := by
  funext tail head
  rw [mem_objects describes, edge_iff describes]

theorem leadsBackward (describes : graph.Describes triples) :
    (fun tail head => head ∈ graph.subjects predicate tail) =
      Function.swap (graph.Edge predicate) := by
  funext tail head
  exact propext (mem_subjects_iff_edge describes head tail)

/-- In the ordered set of the same triples the edges are the same. -/
theorem edge_eq {set : Graph}
    (same : ∀ triple, triple ∈ set.triples ↔ graph.contains triple = true) (predicate : Iri) :
    graph.Edge predicate = set.Edge predicate := by
  funext subject object
  exact propext (same ⟨subject, predicate, object⟩).symm

/-- The edges of a predicate, each from the end the search starts at to the other. -/
def arrows (graph : IndexedGraph) (predicate : Iri) : Direction → List (Term × Term)
  | .forward => graph.pairs predicate
  | .backward => (graph.pairs predicate).map Prod.swap

theorem length_arrows (graph : IndexedGraph) (predicate : Iri) (direction : Direction) :
    (graph.arrows predicate direction).length = (graph.pairs predicate).length := by
  cases direction with
  | forward => rfl
  | backward => exact List.length_map Prod.swap

theorem nodup_arrows (graph : IndexedGraph) (predicate : Iri) (direction : Direction) :
    (graph.arrows predicate direction).Nodup := by
  have distinct := (ascending_pairs graph predicate).nodup
  cases direction with
  | forward => exact distinct
  | backward => exact distinct.map Prod.swap_injective

theorem mem_arrows (describes : graph.Describes triples) (direction : Direction)
    (node next : Term) :
    (node, next) ∈ graph.arrows predicate direction ↔
      next ∈ graph.neighbours predicate direction node := by
  cases direction with
  | forward => rw [arrows, neighbours, mem_pairs describes, mem_objects describes]
  | backward =>
    rw [arrows, neighbours, mem_subjects describes, ← mem_pairs describes]
    show Prod.swap (next, node) ∈ _ ↔ _
    rw [List.mem_map_of_injective Prod.swap_injective]

theorem nodup_neighbours (graph : IndexedGraph) (predicate : Iri) (direction : Direction)
    (node : Term) : (graph.neighbours predicate direction node).Nodup := by
  cases direction with
  | forward => exact (ascending_objects graph node predicate).nodup
  | backward => exact (ascending_subjects graph predicate node).nodup

/-- In either direction, a node has as many arrows as neighbours. -/
theorem length_headsFrom (describes : graph.Describes triples) (direction : Direction)
    (node : Term) :
    (headsFrom node (graph.arrows predicate direction)).length =
      (graph.neighbours predicate direction node).length := by
  have sameMembers : ∀ next, next ∈ headsFrom node (graph.arrows predicate direction) ↔
      next ∈ graph.neighbours predicate direction node := by
    intro next
    rw [mem_headsFrom, Arrow, mem_arrows describes]
  have distinct : (headsFrom node (graph.arrows predicate direction)).Nodup := by
    refine ((nodup_arrows graph predicate direction).filter _).map_on ?_
    intro arrow listed other listedToo sameHead
    have tail := beq_iff_eq.1 (List.mem_filter.1 listed).2
    have tailToo := beq_iff_eq.1 (List.mem_filter.1 listedToo).2
    exact Prod.ext (tail.trans tailToo.symm) sameHead
  exact ((List.perm_ext_iff_of_nodup distinct
    (nodup_neighbours graph predicate direction node)).2 sameMembers).length_eq

end IndexedGraph

end BuildingRules
