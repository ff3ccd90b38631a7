import BuildingRules.Graph
import Mathlib.Data.List.Sort
import Mathlib.Data.Set.Card

/-!
# What determines a listing

The listings of a graph are in strictly ascending order, so each of them is determined by its
members: `eq_of_ascending`. What a graph lists for a predicate is therefore determined by its
triples of that predicate: `Graph.SameEdges`.
-/

set_option autoImplicit false

namespace BuildingRules

/-! ## Ascending lists -/

/-- Each element of the list comes before all that follow it. -/
def Ascending {Element : Type} (order : Element → Element → Ordering) (list : List Element) :
    Prop :=
  list.Pairwise fun earlier later => order earlier later = .lt

/-- By first component, and then by the second. -/
def pairOrder (left right : Term × Term) : Ordering :=
  compareLex (compareOn Prod.fst) (compareOn Prod.snd) left right

instance : Std.TransCmp pairOrder :=
  inferInstanceAs (Std.TransCmp (compareLex (compareOn Prod.fst) (compareOn Prod.snd)))

theorem eq_of_ascending {Element : Type} {order : Element → Element → Ordering}
    [Std.TransCmp order] {left right : List Element} (leftAscending : Ascending order left)
    (rightAscending : Ascending order right)
    (sameMembers : ∀ element, element ∈ left ↔ element ∈ right) : left = right := by
  have irreflexive : Std.Irrefl fun earlier later => order earlier later = .lt := by
    constructor
    intro element isBefore
    exact Std.OrientedCmp.not_lt_of_lt isBefore isBefore
  have antisymmetric : Std.Antisymm fun earlier later => order earlier later = .lt := by
    constructor
    intro first second isBefore isAfter
    exact absurd isAfter (Std.OrientedCmp.not_lt_of_lt isBefore)
  exact leftAscending.eq_of_mem_iff rightAscending sameMembers

theorem Ascending.nodup {Element : Type} {order : Element → Element → Ordering}
    [Std.TransCmp order] {list : List Element} (ascending : Ascending order list) : list.Nodup := by
  apply ascending.imp
  rintro earlier later isBefore rfl
  exact Std.OrientedCmp.not_lt_of_lt isBefore isBefore

theorem nodup_toList_set {Element : Type} [Ord Element] [Std.TransOrd Element]
    (set : Std.ExtTreeSet Element compare) : set.toList.Nodup :=
  Ascending.nodup Std.ExtTreeSet.ordered_toList

namespace Graph

theorem compare_triple (left right : Triple) :
    compare left right = (compare left.subject right.subject).then
      ((compare left.predicate right.predicate).then (compare left.object right.object)) := rfl

theorem ascending_toList (graph : Graph) : Ascending compare graph.toList :=
  Std.ExtTreeSet.ordered_toList

/-- What is picked from the triples in their order is ascending if it follows that order. -/
theorem ascending_map_filter {Element : Type} {order : Element → Element → Ordering}
    (graph : Graph) {isPicked : Triple → Bool} {pick : Triple → Element}
    (follows : ∀ earlier later, isPicked earlier = true → isPicked later = true →
      compare earlier later = .lt → order (pick earlier) (pick later) = .lt) :
    Ascending order ((graph.toList.filter isPicked).map pick) := by
  refine List.pairwise_map.2 ((graph.ascending_toList.filter isPicked).imp_of_mem ?_)
  intro earlier later inEarlier inLater isBefore
  exact follows earlier later (List.mem_filter.1 inEarlier).2 (List.mem_filter.1 inLater).2 isBefore

theorem ascending_objects (graph : Graph) (subject : Term) (predicate : Iri) :
    Ascending compare (graph.objects subject predicate) := by
  apply ascending_map_filter
  intro earlier later picked pickedToo isBefore
  simp only [Bool.and_eq_true, beq_iff_eq] at picked pickedToo
  simpa [compare_triple, picked, pickedToo] using isBefore

theorem ascending_subjects (graph : Graph) (predicate : Iri) (object : Term) :
    Ascending compare (graph.subjects predicate object) := by
  apply ascending_map_filter
  intro earlier later picked pickedToo isBefore
  simp only [Bool.and_eq_true, beq_iff_eq] at picked pickedToo
  simpa [compare_triple, picked, pickedToo] using isBefore

theorem ascending_pairs (graph : Graph) (predicate : Iri) :
    Ascending pairOrder (graph.pairs predicate) := by
  apply ascending_map_filter
  intro earlier later picked pickedToo isBefore
  simp only [beq_iff_eq] at picked pickedToo
  simpa [compare_triple, pairOrder, compareLex, compareOn, picked, pickedToo] using isBefore

theorem ascending_nodes (graph : Graph) : Ascending compare graph.nodes :=
  Std.ExtTreeSet.ordered_toList

theorem encard_triples (graph : Graph) : {triple | triple ∈ graph.triples}.encard = graph.size := by
  have listed : {triple | triple ∈ graph.triples} = (graph.toList.toFinset : Set Triple) := by
    ext triple
    simp
  rw [listed, Set.encard_coe_eq_coe_finsetCard,
    List.toFinset_card_of_nodup graph.ascending_toList.nodup, toList,
    Std.ExtTreeSet.length_toList, size]

/-! ## Edges of a predicate -/

/-- The two graphs have the same triples of the predicate. -/
def SameEdges (left right : Graph) (predicate : Iri) : Prop :=
  ∀ subject object,
    ⟨subject, predicate, object⟩ ∈ left.triples ↔ ⟨subject, predicate, object⟩ ∈ right.triples

variable {left right : Graph} {predicate : Iri}

theorem SameEdges.objects (same : SameEdges left right predicate) (subject : Term) :
    left.objects subject predicate = right.objects subject predicate :=
  eq_of_ascending (left.ascending_objects subject predicate)
    (right.ascending_objects subject predicate) fun object => by simpa using same subject object

theorem SameEdges.subjects (same : SameEdges left right predicate) (object : Term) :
    left.subjects predicate object = right.subjects predicate object :=
  eq_of_ascending (left.ascending_subjects predicate object)
    (right.ascending_subjects predicate object) fun subject => by simpa using same subject object

theorem SameEdges.pairs (same : SameEdges left right predicate) :
    left.pairs predicate = right.pairs predicate :=
  eq_of_ascending (left.ascending_pairs predicate) (right.ascending_pairs predicate)
    fun pair => by simpa using same pair.1 pair.2

end Graph

end BuildingRules
