import BuildingRules.Graph.Reach
import BuildingRules.Pattern.Meaning

/-!
# Following edges finds what is connected

The search that uses each arrow once meets exactly the nodes to which a chain of arrows leads:
`mem_follow`. Hence `Graph.reach` is the closure that its quantifier stands for, searched from
either end: `mem_reach_forward` and `mem_reach_backward`.
-/

set_option autoImplicit false

namespace BuildingRules

/-! ## Chains of arrows -/

def Arrow (arrows : List (Term × Term)) (tail head : Term) : Prop := (tail, head) ∈ arrows

theorem mem_headsFrom {arrows : List (Term × Term)} {node head : Term} :
    head ∈ headsFrom node arrows ↔ Arrow arrows node head := by
  simp [headsFrom, Arrow]

theorem arrow_arrowsElsewhere {arrows : List (Term × Term)} {node tail head : Term} :
    Arrow (arrowsElsewhere node arrows) tail head ↔ Arrow arrows tail head ∧ tail ≠ node := by
  simp [arrowsElsewhere, Arrow]

/-- Without the arrows of one node there are no more chains than with them. -/
theorem reflTransGen_of_arrowsElsewhere {arrows : List (Term × Term)} {node start finish : Term}
    (chain : Relation.ReflTransGen (Arrow (arrowsElsewhere node arrows)) start finish) :
    Relation.ReflTransGen (Arrow arrows) start finish :=
  chain.lift id fun _ _ arrow => (arrow_arrowsElsewhere.1 arrow).1

/-- A chain either never uses an arrow of `node`, or from its last use on it starts at the head of
such an arrow. -/
theorem avoids_or_restarts {arrows : List (Term × Term)} {start finish : Term} (node : Term)
    (chain : Relation.ReflTransGen (Arrow arrows) start finish) :
    Relation.ReflTransGen (Arrow (arrowsElsewhere node arrows)) start finish ∨
      ∃ head ∈ headsFrom node arrows,
        Relation.ReflTransGen (Arrow (arrowsElsewhere node arrows)) head finish := by
  induction chain using Relation.ReflTransGen.head_induction_on with
  | refl => exact Or.inl Relation.ReflTransGen.refl
  | @head tail head first rest inductionHypothesis =>
      rcases inductionHypothesis with avoiding | restarting
      · by_cases same : tail = node
        · subst same
          exact Or.inr ⟨head, mem_headsFrom.2 first, avoiding⟩
        · exact Or.inl (avoiding.head (arrow_arrowsElsewhere.2 ⟨first, same⟩))
      · exact Or.inr restarting

/-- The search meets exactly the nodes to which a chain of arrows leads from a pending node. -/
theorem mem_follow {arrows : List (Term × Term)} {pending : List Term} {finish : Term} :
    finish ∈ follow arrows pending ↔
      ∃ start ∈ pending, Relation.ReflTransGen (Arrow arrows) start finish := by
  fun_induction follow arrows pending with
  | case1 => simp
  | case2 arrows node pending inductionHypothesis =>
      rw [Std.ExtTreeSet.mem_insert, Std.LawfulEqCmp.compare_eq_iff_eq, inductionHypothesis]
      constructor
      · rintro (rfl | ⟨start, member, chain⟩)
        · exact ⟨node, List.mem_cons_self, Relation.ReflTransGen.refl⟩
        · have whole := reflTransGen_of_arrowsElsewhere chain
          rcases List.mem_append.1 member with fromNode | waiting
          · exact ⟨node, List.mem_cons_self, whole.head (mem_headsFrom.1 fromNode)⟩
          · exact ⟨start, List.mem_cons_of_mem _ waiting, whole⟩
      · intro found
        obtain ⟨start, member, chain⟩ := found
        rcases avoids_or_restarts node chain with avoiding | ⟨head, fromNode, restarting⟩
        · rcases List.mem_cons.1 member with rfl | waiting
          · rcases avoiding.cases_head with same | ⟨head, arrow, _⟩
            · exact Or.inl same
            · exact absurd rfl (arrow_arrowsElsewhere.1 arrow).2
          · exact Or.inr ⟨start, List.mem_append_right _ waiting, avoiding⟩
        · exact Or.inr ⟨head, List.mem_append_left _ fromNode, restarting⟩

/-! ## Reaching over a predicate -/

theorem mem_neighbours_forward {graph : Graph} {predicate : Iri} {start finish : Term} :
    finish ∈ graph.neighbours predicate .forward start ↔ graph.Edge predicate start finish :=
  Graph.mem_objects

theorem mem_neighbours_backward {graph : Graph} {predicate : Iri} {start finish : Term} :
    start ∈ graph.neighbours predicate .backward finish ↔ graph.Edge predicate start finish :=
  Graph.mem_subjects

theorem arrow_arrows_forward {graph : Graph} {predicate : Iri} :
    Arrow (graph.arrows predicate .forward) = graph.Edge predicate := by
  funext tail head
  simp [Arrow, Graph.arrows, Graph.Edge]

theorem arrow_arrows_backward {graph : Graph} {predicate : Iri} :
    Arrow (graph.arrows predicate .backward) = Function.swap (graph.Edge predicate) := by
  funext tail head
  simp only [Arrow, Graph.arrows, List.mem_map, Graph.mem_pairs, Graph.Edge, Function.swap,
    Prod.mk.injEq, eq_iff_iff]
  constructor
  · intro found
    obtain ⟨pair, member, rfl, rfl⟩ := found
    exact member
  · intro member
    exact ⟨(head, tail), member, rfl, rfl⟩

/-- What is reached in some direction is what the quantifier's closure of the arrows leads to, if
one edge in that direction is one arrow. -/
theorem mem_reach {graph : Graph} {predicate : Iri} {quantifier : Quantifier}
    {direction : Direction} {start finish : Term}
    (oneEdge : ∀ {tail head : Term}, head ∈ graph.neighbours predicate direction tail ↔
      Arrow (graph.arrows predicate direction) tail head) :
    finish ∈ graph.reach predicate quantifier direction start ↔
      quantifier.Follows (Arrow (graph.arrows predicate direction)) start finish := by
  have met : finish ∈ follow (graph.arrows predicate direction)
      (graph.neighbours predicate direction start) ↔
        Relation.TransGen (Arrow (graph.arrows predicate direction)) start finish := by
    simp only [mem_follow, oneEdge, Relation.TransGen.head'_iff]
  have next : finish ∈ (Std.ExtTreeSet.ofList (graph.neighbours predicate direction start) compare :
      TermSet) ↔ Arrow (graph.arrows predicate direction) start finish := by
    rw [Std.ExtTreeSet.mem_ofList, List.contains_iff_mem, oneEdge]
  cases quantifier
  · simp [Graph.reach, Quantifier.Follows, Quantifier.allowsMany, Quantifier.allowsZero, next]
  · simp [Graph.reach, Quantifier.Follows, Quantifier.allowsMany, Quantifier.allowsZero, next,
      Std.LawfulEqCmp.compare_eq_iff_eq, Relation.reflGen_iff, eq_comm (a := start)]
  · simp [Graph.reach, Quantifier.Follows, Quantifier.allowsMany, Quantifier.allowsZero, met,
      Std.LawfulEqCmp.compare_eq_iff_eq, Relation.reflTransGen_iff_eq_or_transGen,
      eq_comm (a := start)]
  · simp [Graph.reach, Quantifier.Follows, Quantifier.allowsMany, Quantifier.allowsZero, met]

theorem follows_swap {Node : Type} (quantifier : Quantifier) (edge : Node → Node → Prop)
    (start finish : Node) :
    quantifier.Follows (Function.swap edge) start finish ↔ quantifier.Follows edge finish start := by
  cases quantifier
  · rfl
  · simp [Quantifier.Follows, Relation.reflGen_iff, Function.swap, eq_comm]
  · exact Relation.reflTransGen_swap
  · exact Relation.transGen_swap

theorem mem_reach_forward {graph : Graph} {predicate : Iri} {quantifier : Quantifier}
    {start finish : Term} :
    finish ∈ graph.reach predicate quantifier .forward start ↔
      quantifier.Follows (graph.Edge predicate) start finish := by
  rw [mem_reach (fun {_ _} => by rw [mem_neighbours_forward, arrow_arrows_forward]),
    arrow_arrows_forward]

theorem mem_reach_backward {graph : Graph} {predicate : Iri} {quantifier : Quantifier}
    {start finish : Term} :
    start ∈ graph.reach predicate quantifier .backward finish ↔
      quantifier.Follows (graph.Edge predicate) start finish := by
  rw [mem_reach (fun {_ _} => by rw [mem_neighbours_backward, arrow_arrows_backward]),
    arrow_arrows_backward, follows_swap]

end BuildingRules
