import BuildingRules.Proofs.EnclosingShapes
import BuildingRules.Proofs.Searches

/-!
# List cells are found on every graph

The search for list cells meets what rests lead back to from the cells that hold a member:
`CellSearch.mem_cells`. Nothing is asked of the lists. In a graph that insertions build up the
search ends, whether rests run in a circle, branch or are shared, with exactly the cells from which
the member is come to: `findsListCells`.
-/

set_option autoImplicit false

namespace BuildingRules

/-! ## Turns -/

namespace CellSearch

variable {cellsBefore : Term → List Term} {search next last : CellSearch} {holders : List Term}

theorem pending_eq_nil (isLast : search.turn cellsBefore = none) : search.pending = [] := by
  unfold turn at isLast
  split at isLast
  next empty => exact empty
  next => split at isLast <;> contradiction

theorem takes (isNext : search.turn cellsBefore = some next) :
    Takes cellsBefore search.cells search.pending next.cells next.pending := by
  unfold turn at isNext
  split at isNext
  next => contradiction
  next cell rest isPending =>
    rw [isPending]
    split at isNext
    next isOld =>
      obtain rfl := Option.some.inj isNext
      exact .skip (Std.ExtTreeSet.contains_iff_mem.1 isOld)
    next isNew =>
      obtain rfl := Option.some.inj isNext
      refine .meet (fun isOld => isNew (Std.ExtTreeSet.contains_iff_mem.2 isOld)) ?_
      exact List.perm_append_comm.trans (List.Perm.append_left rest (List.reverse_perm _))

/-! ## What is met -/

/-- A search that ends has met the cells that its first ones are come to from. -/
theorem mem_cells {turns : Nat} (loop : Loop (turn cellsBefore) (start holders) turns last)
    (cell : Term) :
    cell ∈ last.cells ↔ ∃ holder ∈ holders,
      Relation.ReflTransGen (fun tail head => head ∈ cellsBefore tail) holder cell := by
  have kept : ∀ search next : CellSearch, search.turn cellsBefore = some next →
      Tracks cellsBefore holders search.cells search.pending →
      Tracks cellsBefore holders next.cells next.pending :=
    fun _ _ isNext tracks => tracks.turn (takes isNext)
  have tracks := loop.invariant kept (Tracks.initial fun _ => List.mem_reverse)
  rw [pending_eq_nil loop.turn_last] at tracks
  exact tracks.mem_iff cell

end CellSearch

/-! ## Graphs that insertions build up -/

namespace IndexedGraph

variable {graph : IndexedGraph} {triples : Set Triple} {member : Term} {turns : Nat}
  {cells : TermSet}

/-- A chain of rests, also of none, leads from the first cell to one that holds the member. -/
def ListMember (graph : IndexedGraph) (list member : Term) : Prop :=
  ∃ cell, Relation.ReflTransGen (graph.Edge Vocabulary.rdfRest) list cell ∧
    graph.Edge Vocabulary.rdfFirst cell member

theorem FindsCells.mem_iff (describes : graph.Describes triples)
    (finds : graph.FindsCells member turns cells) (cell : Term) :
    cell ∈ cells ↔ graph.ListMember cell member := by
  obtain ⟨last, loop, rfl⟩ := finds
  rw [CellSearch.mem_cells loop, leadsBackward describes]
  simp only [mem_subjects_iff_edge describes, Relation.reflTransGen_swap]
  constructor
  · intro found
    obtain ⟨holder, holds, rests⟩ := found
    exact ⟨holder, rests, holds⟩
  · intro found
    obtain ⟨holder, rests, holds⟩ := found
    exact ⟨holder, holds, rests⟩

/-- The search takes a turn at most for each cell that holds the member and for each rest. -/
theorem exists_findsCells (describes : graph.Describes triples) (member : Term) :
    ∃ count ≤ (graph.subjects Vocabulary.rdfFirst member).length +
        (graph.pairs Vocabulary.rdfRest).length,
      ∃ cells, ∀ turns result,
        graph.FindsCells member turns result ↔ turns = count ∧ result = cells := by
  obtain ⟨count, bound, last, loop⟩ := Loop.exists_of_measure
    (fun _ _ isNext => (CellSearch.takes isNext).turnsLeft_eq
      (length_headsFrom describes .backward))
    (CellSearch.start (graph.subjects Vocabulary.rdfFirst member))
  refine ⟨count, Nat.le_trans bound ?_, last.cells, loop.exists_last_iff CellSearch.cells⟩
  have waiting : (CellSearch.start (graph.subjects Vocabulary.rdfFirst member)).pending.length =
      (graph.subjects Vocabulary.rdfFirst member).length := List.length_reverse
  rw [← length_arrows graph Vocabulary.rdfRest .backward, ← waiting]
  exact turnsLeft_le ..

end IndexedGraph

/-- The search for the cells from which a member is come to ends, in one way only, and has found
exactly these cells. Over the ordered set of the same triples, enclosing shapes are found from
them. -/
theorem findsListCells (insertions : List Insertion) (member : Term) :
    let graph := Insertion.built insertions
    ∃ count ≤ (graph.subjects Vocabulary.rdfFirst member).length +
        (graph.pairs Vocabulary.rdfRest).length,
      ∃ cells,
        (∀ turns result, graph.FindsCells member turns result ↔ turns = count ∧ result = cells) ∧
        (∀ cell, cell ∈ cells ↔ graph.ListMember cell member) ∧
        ∀ set : Graph, (∀ triple, triple ∈ set.triples ↔ graph.contains triple = true) →
          cells = set.listHeads member := by
  intro graph
  have describes : graph.Describes _ := Insertion.describes_built insertions
  obtain ⟨count, bound, cells, ends⟩ := IndexedGraph.exists_findsCells describes member
  have finds : graph.FindsCells member count cells := (ends count cells).2 ⟨rfl, rfl⟩
  refine ⟨count, bound, cells, ends, finds.mem_iff describes, fun set same => ?_⟩
  have sameEdges := IndexedGraph.edge_eq same
  apply Std.ExtTreeSet.ext_mem
  intro cell
  rw [finds.mem_iff describes, Graph.mem_listHeads, IndexedGraph.ListMember, Graph.ListMember,
    sameEdges, sameEdges]

end BuildingRules
