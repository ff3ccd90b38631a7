import BuildingRules.Proofs.Reachability
import BuildingRules.Shape.Enclosure

/-!
# Which shapes enclose a shape

`Graph.Encloses` says when one shape encloses another. `enclosingShapes` lists, in ascending order,
the shapes that name the other one in some way, and misses those that compose a list with a member
whose node shape it is. So it lists exactly the shapes that enclose the other one if and only if
each of the missed shapes names it as well: `mem_enclosingShapes_iff_encloses_iff`.
-/

set_option autoImplicit false

namespace BuildingRules

namespace Graph

/-! ## Enclosure -/

/-- A cell that rests lead to from the first one of the list holds the member. -/
def ListMember (graph : Graph) (list member : Term) : Prop :=
  ∃ cell, Relation.ReflTransGen (graph.Edge Vocabulary.rdfRest) list cell ∧
    graph.Edge Vocabulary.rdfFirst cell member

def Composes (graph : Graph) (outer inner : Term) : Prop :=
  ∃ operator ∈ Vocabulary.operators, graph.Edge operator outer inner

/-- The outer shape names the other one, as a shape of its own, as one that it composes or as a
property shape of one that it composes. -/
inductive EnclosesByName (graph : Graph) (outer shape : Term) : Prop
  | property (named : graph.Edge Vocabulary.shProperty outer shape)
  | node (named : graph.Edge Vocabulary.shNode outer shape)
  | composed (composes : graph.Composes outer shape)
  | listed {list : Term} (composes : graph.Composes outer list)
      (member : graph.ListMember list shape)
  | composedProperty {holder : Term} (composes : graph.Composes outer holder)
      (named : graph.Edge Vocabulary.shProperty holder shape)

/-- The outer shape composes a list with a member that has the other one as a node shape. -/
def EnclosesByMember (graph : Graph) (outer shape : Term) : Prop :=
  ∃ list member, graph.Composes outer list ∧ graph.ListMember list member ∧
    graph.Edge Vocabulary.shNode member shape

def Encloses (graph : Graph) (outer shape : Term) : Prop :=
  graph.EnclosesByName outer shape ∨ graph.EnclosesByMember outer shape

/-! ## What is found -/

variable {graph : Graph} {outer shape : Term}

theorem mem_composers {term : Term} : outer ∈ graph.composers term ↔ graph.Composes outer term := by
  simp only [composers, List.mem_flatMap, mem_subjects, Composes, Edge]

/-- The cells that are come to backwards from a member are those of the lists that it is in. -/
theorem mem_listHeads {list member : Term} :
    list ∈ graph.listHeads member ↔ graph.ListMember list member := by
  rw [listHeads, mem_follow, arrow_arrows_backward]
  simp only [mem_subjects, Relation.reflTransGen_swap]
  constructor
  · intro found
    obtain ⟨cell, holds, rests⟩ := found
    exact ⟨cell, rests, holds⟩
  · intro found
    obtain ⟨cell, rests, holds⟩ := found
    exact ⟨cell, holds, rests⟩

theorem mem_enclosingShapes :
    outer ∈ graph.enclosingShapes shape ↔ graph.EnclosesByName outer shape := by
  simp only [enclosingShapes, Std.ExtTreeSet.mem_toList, Std.ExtTreeSet.mem_ofList,
    List.contains_iff_mem, List.mem_append, List.mem_flatMap, mem_subjects, mem_composers,
    mem_listHeads]
  constructor
  · intro found
    rcases found with (((named | named) | composes) | ⟨holder, named, composes⟩) |
      ⟨list, member, composes⟩
    · exact .property named
    · exact .node named
    · exact .composed composes
    · exact .composedProperty composes named
    · exact .listed composes member
  · intro encloses
    cases encloses with
    | property named => exact .inl (.inl (.inl (.inl named)))
    | node named => exact .inl (.inl (.inl (.inr named)))
    | composed composes => exact .inl (.inl (.inr composes))
    | composedProperty composes named => exact .inl (.inr ⟨_, named, composes⟩)
    | listed composes member => exact .inr ⟨_, member, composes⟩

theorem ascending_enclosingShapes (graph : Graph) (shape : Term) :
    (graph.enclosingShapes shape).Pairwise fun earlier later => compare earlier later = .lt :=
  Std.ExtTreeSet.ordered_toList

/-- The shapes listed are in ascending order and name the shape. They are exactly those that
enclose it if and only if no other shape composes a list with a member whose node shape it is. -/
theorem mem_enclosingShapes_iff_encloses_iff (graph : Graph) (shape : Term) :
    ((graph.enclosingShapes shape).Pairwise fun earlier later => compare earlier later = .lt) ∧
    (∀ outer, outer ∈ graph.enclosingShapes shape ↔ graph.EnclosesByName outer shape) ∧
    ((∀ outer, outer ∈ graph.enclosingShapes shape ↔ graph.Encloses outer shape) ↔
      ∀ outer, graph.EnclosesByMember outer shape → graph.EnclosesByName outer shape) := by
  refine ⟨ascending_enclosingShapes graph shape, fun _ => mem_enclosingShapes, ?_⟩
  constructor
  · intro exact outer byMember
    have listed : outer ∈ graph.enclosingShapes shape := (exact outer).2 (.inr byMember)
    exact mem_enclosingShapes.1 listed
  · intro named outer
    rw [mem_enclosingShapes]
    constructor
    · exact .inl
    · intro encloses
      rcases encloses with byName | byMember
      · exact byName
      · exact named outer byMember

/-- One shape composes a list of one member, which has another as its node shape. -/
def listedNode : Graph :=
  ⟨.ofList
    [⟨.iri ⟨"urn:shape/S"⟩, ⟨"http://www.w3.org/ns/shacl#or"⟩, .blank "cell"⟩,
      ⟨.blank "cell", ⟨"http://www.w3.org/1999/02/22-rdf-syntax-ns#first"⟩,
        .iri ⟨"urn:shape/M"⟩⟩,
      ⟨.blank "cell", ⟨"http://www.w3.org/1999/02/22-rdf-syntax-ns#rest"⟩,
        .iri ⟨"http://www.w3.org/1999/02/22-rdf-syntax-ns#nil"⟩⟩,
      ⟨.iri ⟨"urn:shape/M"⟩, ⟨"http://www.w3.org/ns/shacl#node"⟩, .iri ⟨"urn:shape/X"⟩⟩]
    compare⟩

/-- The shape that composes the list encloses the node shape, and only the member is listed. -/
theorem enclosingShapes_listedNode :
    listedNode.Encloses (.iri ⟨"urn:shape/S"⟩) (.iri ⟨"urn:shape/X"⟩) ∧
    listedNode.enclosingShapes (.iri ⟨"urn:shape/X"⟩) = [.iri ⟨"urn:shape/M"⟩] := by
  refine ⟨.inr ⟨.blank "cell", .iri ⟨"urn:shape/M"⟩, ?_, ?_, ?_⟩, by decide +kernel⟩
  · exact ⟨Vocabulary.shOr, by decide, by decide +kernel⟩
  · exact ⟨.blank "cell", .refl, by decide +kernel⟩
  · decide +kernel

end Graph

end BuildingRules
