import BuildingRules.Proofs.JoinOrder
import BuildingRules.Proofs.RuleOrder

/-!
# Larger graphs

Whatever a clause finds over a graph it finds over every graph that has the same triples and more,
whichever of its variables have values: `Graph.Within.mem_clauseRows`. A binding that is complete
cannot lose a value when more rows are merged, and there is no room in it for another variable, so
equipment that satisfies a rule goes on to satisfy it: `keepsFound`.
-/

set_option autoImplicit false

namespace BuildingRules

/-! ## Rows over a larger graph -/

theorem Quantifier.follows_mono {Node : Type} {quantifier : Quantifier}
    {edge wider : Node → Node → Prop}
    (within : ∀ start finish, edge start finish → wider start finish) {start finish : Node}
    (follows : quantifier.Follows edge start finish) :
    quantifier.Follows wider start finish := by
  cases quantifier with
  | one => exact within start finish follows
  | zeroOrOne => exact follows.mono within
  | zeroOrMore => exact Relation.ReflTransGen.mono within start finish follows
  | oneOrMore => exact Relation.TransGen.mono within start finish follows

/-- A group finds more if each of its clauses does. -/
theorem Graph.mem_groupRows_of_each {graph larger : Graph} {group : List Clause}
    (each : ∀ clause ∈ group, ∀ row result : Row, result ∈ graph.clauseRows row clause →
      result ∈ larger.clauseRows row clause)
    {row result : Row} (member : result ∈ graph.groupRows [row] group) :
    result ∈ larger.groupRows [row] group := by
  induction group generalizing row with
  | nil => exact member
  | cons clause rest inductionHypothesis =>
    obtain ⟨first, others⟩ := List.forall_mem_cons.1 each
    rw [groupRows_cons] at member ⊢
    obtain ⟨middle, inClause, inRest⟩ := List.mem_flatMap.1 member
    exact List.mem_flatMap.2
      ⟨middle, first row middle inClause, inductionHypothesis others inRest⟩

/-- The larger graph has all triples of the graph. -/
def Graph.Within (graph larger : Graph) : Prop :=
  ∀ triple ∈ graph.triples, triple ∈ larger.triples

namespace Graph.Within

variable {graph larger : Graph} (within : graph.Within larger) {row result : Row}

include within

theorem follows {predicate : Iri} {quantifier : Quantifier} {start finish : Term}
    (leads : quantifier.Follows (graph.Edge predicate) start finish) :
    quantifier.Follows (larger.Edge predicate) start finish :=
  Quantifier.follows_mono (fun _ _ edge => within _ edge) leads

theorem mem_nodes {term : Term} (isNode : term ∈ graph.nodes) : term ∈ larger.nodes := by
  obtain ⟨triple, member, isEnd⟩ := Graph.mem_nodes.1 isNode
  exact Graph.mem_nodes.2 ⟨triple, within triple member, isEnd⟩

theorem mem_typeRows {subject : String} {className : Iri}
    (member : result ∈ graph.typeRows row subject className) :
    result ∈ larger.typeRows row subject className := by
  obtain ⟨node, allowed, typed, same⟩ := Graph.mem_typeRows.1 member
  exact Graph.mem_typeRows.2 ⟨node, allowed, within _ typed, same⟩

/-- An edge is looked for in another way for each of its ends that has no value yet. -/
theorem mem_edgeRows {subject object : String} {predicate : Iri} {quantifier : Quantifier}
    (member : result ∈ graph.edgeRows row subject predicate quantifier object) :
    result ∈ larger.edgeRows row subject predicate quantifier object := by
  cases hasSubject : row[subject]? with
  | some start =>
    obtain ⟨finish, allowed, leads, same⟩ := (mem_edgeRows_of_bound hasSubject).1 member
    exact (mem_edgeRows_of_bound hasSubject).2 ⟨finish, allowed, within.follows leads, same⟩
  | none =>
    cases hasObject : row[object]? with
    | some finish =>
      obtain ⟨start, leads, same⟩ := (mem_edgeRows_of_object hasSubject hasObject).1 member
      exact (mem_edgeRows_of_object hasSubject hasObject).2 ⟨start, within.follows leads, same⟩
    | none =>
      obtain ⟨start, finish, agree, isNode, leads, same⟩ :=
        (mem_edgeRows_of_free hasSubject hasObject).1 member
      exact (mem_edgeRows_of_free hasSubject hasObject).2
        ⟨start, finish, agree, within.mem_nodes isNode, within.follows leads, same⟩

theorem mem_clauseRows (clause : Clause) : ∀ row result : Row,
    result ∈ graph.clauseRows row clause → result ∈ larger.clauseRows row clause := by
  induction clause using Clause.clauseInduction with
  | hasType subject className =>
    intro row result member
    rw [clauseRows] at member ⊢
    exact within.mem_typeRows member
  | edge subject predicate quantifier object =>
    intro row result member
    rw [clauseRows] at member ⊢
    exact within.mem_edgeRows member
  | union groups inductionHypothesis =>
    intro row result member
    rw [clauseRows, unionRows_eq_flatMap] at member ⊢
    obtain ⟨group, inGroups, inGroup⟩ := List.mem_flatMap.1 member
    exact List.mem_flatMap.2
      ⟨group, inGroups, mem_groupRows_of_each (inductionHypothesis group inGroups) inGroup⟩

theorem mem_solutions (query : Query) (member : row ∈ graph.solutions query) :
    row ∈ larger.solutions query := by
  obtain ⟨wider, inGroup, rfl⟩ := List.mem_map.1 member
  exact List.mem_map.2
    ⟨wider, mem_groupRows_of_each (fun clause _ => within.mem_clauseRows clause) inGroup, rfl⟩

end Graph.Within

/-! ## Bindings over a larger graph -/

theorem Binding.size_le_length {binding : Binding} {names : List String}
    (only : ∀ name ∈ binding.values, name ∈ names) : binding.size ≤ names.length := by
  have distinct : binding.values.keys.Nodup := Std.ExtTreeMap.nodup_keys
  rw [Binding.size, ← Std.ExtTreeMap.length_keys]
  exact distinct.length_le_of_subset fun name member =>
    only name (Std.ExtTreeMap.mem_keys.1 member)

namespace Rule

/-- The binding is of the equipment, and what it has for each variable some step finds of it. -/
def Solves (settings : Settings) (store : Store) (rule : Rule) (equipment : Term)
    (binding : Binding) : Prop :=
  binding.root? = some equipment ∧
  ∀ definition ∈ rule.definitions, ∃ value,
    binding.get? definition.variableName = some value ∧
    ∃ className ∈ rule.applicability, ∃ row : Row,
      definition.Finds settings store className row ∧
      row[Query.root]? = some equipment ∧ row[definition.variableName]? = some value

variable {settings : Settings} {graph larger : Graph} {rule : Rule} {equipment : Term}
  {binding : Binding}

theorem solves_of_instance (unlimited : settings.limit = none)
    (isInstance : (rule.outcome settings graph.store).instances[equipment]? = some binding) :
    rule.Solves settings graph.store equipment binding := by
  obtain ⟨someRow, rfl, complete⟩ := getElem?_instances_eq_some.1 isInstance
  have keeps := keepsToProjection_store unlimited graph
  have distinct := distinct_of_complete unlimited complete
  have hasRoot := root?_merged someRow
  have sizeIs : rule.expectedSize = rule.variableNames.length + 1 := by
    rw [variableNames, List.length_map, expectedSize]
  obtain ⟨rootFree, allBound⟩ := (Binding.size_eq_iff distinct
    (Binding.mem_values_iff.2 ⟨equipment, hasRoot⟩)
    fun _ => eq_root_or_variable_of_merged keeps).1 (complete.trans sizeIs)
  refine ⟨hasRoot, fun definition member => ?_⟩
  have listed : definition.variableName ∈ rule.variableNames := List.mem_map_of_mem member
  obtain ⟨value, has⟩ := Binding.mem_values_iff.1 (allBound _ listed)
  obtain ⟨row, about, inRow⟩ := Binding.exists_row_of_get?_merged has
  obtain ⟨inRows, isRoot⟩ := mem_rowsAbout.1 about
  obtain ⟨className, classMember, other, otherMember, found⟩ := mem_rows_iff_finds.1 inRows
  have bound : definition.variableName ∈ row := Row.mem_iff_exists.2 ⟨value, inRow⟩
  -- the row is of this very definition, since no other has the variable
  have same : definition.variableName = other.variableName :=
    (found.eq_root_or_variable keeps bound).resolve_left fun named => rootFree (named ▸ listed)
  obtain rfl : definition = other :=
    List.inj_on_of_nodup_map distinct member otherMember same
  exact ⟨value, has, className, classMember, row, found, isRoot, inRow⟩

theorem size_merged_le_expectedSize (unlimited : settings.limit = none) (graph : Graph)
    (rule : Rule) (equipment : Term) :
    (rule.merged settings graph.store equipment).size ≤ rule.expectedSize := by
  have only : ∀ name ∈ (rule.merged settings graph.store equipment).values,
      name ∈ Query.root :: rule.variableNames :=
    fun _ bound => List.mem_cons.2 (mem_values_of_merged unlimited bound)
  have atMost := Binding.size_le_length only
  rwa [List.length_cons, variableNames, List.length_map] at atMost

end Rule

namespace Graph.Within

variable {settings : Settings} {graph larger : Graph} (within : graph.Within larger)
  (unlimited : settings.limit = none)

include within unlimited

theorem finds {definition : Definition} {className : String} {row : Row}
    (found : definition.Finds settings graph.store className row) :
    definition.Finds settings larger.store className row := by
  obtain ⟨query, rows, compiled, answered, member⟩ := found
  rw [unlimited] at answered
  obtain rfl : graph.solutions query = rows := Except.ok.inj answered
  refine ⟨query, larger.solutions query, compiled, ?_, within.mem_solutions query member⟩
  rw [unlimited]
  rfl

theorem mem_rowsAbout {rule : Rule} {equipment : Term} {row : Row}
    (about : row ∈ rowsAbout equipment (rule.rows settings graph.store)) :
    row ∈ rowsAbout equipment (rule.rows settings larger.store) := by
  obtain ⟨inRows, isRoot⟩ := BuildingRules.mem_rowsAbout.1 about
  obtain ⟨className, classMember, definition, member, found⟩ := Rule.mem_rows_iff_finds.1 inRows
  exact BuildingRules.mem_rowsAbout.2 ⟨Rule.mem_rows_iff_finds.2
    ⟨className, classMember, definition, member, within.finds unlimited found⟩, isRoot⟩

/-- A binding that is complete is as large as a binding can be, and over the larger graph it is no
smaller. -/
theorem mem_instances {rule : Rule} {equipment : Term}
    (isInstance : equipment ∈ (rule.outcome settings graph.store).instances) :
    equipment ∈ (rule.outcome settings larger.store).instances := by
  rw [Std.ExtTreeMap.mem_iff_isSome_getElem?, Option.isSome_iff_exists] at isInstance ⊢
  obtain ⟨binding, isInstance⟩ := isInstance
  obtain ⟨someRow, rfl, complete⟩ := Rule.getElem?_instances_eq_some.1 isInstance
  refine ⟨_, Rule.getElem?_instances_eq_some.2 ⟨?_, rfl, ?_⟩⟩
  · obtain ⟨row, about⟩ := List.exists_mem_of_ne_nil _ someRow
    exact List.ne_nil_of_mem (within.mem_rowsAbout unlimited about)
  · have only : ∀ name ∈ (rule.merged settings graph.store equipment).values,
        name ∈ (rule.merged settings larger.store equipment).values.keys := by
      intro name bound
      obtain ⟨row, about, inRow⟩ := Rule.mem_values_merged_iff.1 bound
      exact Std.ExtTreeMap.mem_keys.2 (Rule.mem_values_merged_iff.2
        ⟨row, within.mem_rowsAbout unlimited about, inRow⟩)
    have atLeast := Binding.size_le_length only
    rw [Std.ExtTreeMap.length_keys] at atLeast
    have atMost := Rule.size_merged_le_expectedSize unlimited larger rule equipment
    have sizeIs : (rule.merged settings larger.store equipment).size =
        (rule.merged settings larger.store equipment).values.size := rfl
    omega

end Graph.Within

/-! ## Evaluations over a larger graph -/

/-- What is found over the graph is found over the larger one too. -/
structure KeepsFound (settings : Settings) (graph larger : Graph) : Prop where
  rows : ∀ query : Query, ∃ found more, graph.answer settings.limit query = .ok found ∧
    larger.answer settings.limit query = .ok more ∧ ∀ row ∈ found, row ∈ more
  successes : ∀ book : RuleBook, List.Forall₂
    (fun outcome later => later.ruleName = outcome.ruleName ∧
      ∀ equipment, outcome.succeeded equipment = true → later.succeeded equipment = true)
    (Evaluation.ofBook settings graph.store book).outcomes
    (Evaluation.ofBook settings larger.store book).outcomes
  /-- The values may not be those that are found over the larger graph, but they could be. -/
  bindings : ∀ book : RuleBook, List.Forall₂
    (fun rule outcome => ∀ equipment binding, outcome.binding? equipment = some binding →
      rule.Solves settings larger.store equipment binding)
    book.rules (Evaluation.ofBook settings graph.store book).outcomes

theorem keepsFound {settings : Settings} (unlimited : settings.limit = none)
    {graph larger : Graph} (within : graph.Within larger) : KeepsFound settings graph larger where
  rows query := by
    rw [unlimited]
    exact ⟨_, _, rfl, rfl, fun _ => within.mem_solutions query⟩
  successes book := by
    simp only [Evaluation.ofBook, List.forall₂_map_left_iff, List.forall₂_map_right_iff]
    refine List.forall₂_same.2 fun rule _ => ⟨rfl, fun equipment succeeded => ?_⟩
    rw [Outcome.succeeded, ← Std.ExtTreeMap.mem_iff_contains] at succeeded ⊢
    exact within.mem_instances unlimited succeeded
  bindings book := by
    simp only [Evaluation.ofBook, List.forall₂_map_right_iff]
    refine List.forall₂_same.2 fun rule _ equipment binding isInstance => ?_
    obtain ⟨isRoot, solved⟩ := Rule.solves_of_instance unlimited isInstance
    refine ⟨isRoot, fun definition member => ?_⟩
    obtain ⟨value, has, className, classMember, row, found, tells⟩ := solved definition member
    exact ⟨value, has, className, classMember, row, within.finds unlimited found, tells⟩

/-- The graph of two sensors without the second one. -/
def oneSensorGraph : Graph :=
  ⟨.ofList [Graph.typing (.blank "v") (Namespace.brick.iri "VAV"),
    ⟨.blank "v", Namespace.brick.iri "hasPoint", .blank "a"⟩,
    Graph.typing (.blank "a") (Namespace.brick.iri "Sensor")] compare⟩

theorem oneSensorGraph_within : oneSensorGraph.Within Rule.twofoldGraph := by
  intro triple member
  rw [oneSensorGraph, Std.ExtTreeSet.mem_ofList, List.contains_iff_mem] at member
  rw [Rule.twofoldGraph, Std.ExtTreeSet.mem_ofList, List.contains_iff_mem]
  simp only [List.mem_cons, List.not_mem_nil, or_false] at member ⊢
  rcases member with rfl | rfl | rfl <;> simp

/-- With the second sensor the value of the rule's variable is another one. -/
theorem keepsFound_of_oneSensorGraph :
    ((Rule.twofoldRule.outcome .default oneSensorGraph.store).binding? (.blank "v")).bind
        (·.get? "point") = some (.blank "a") ∧
    ((Rule.twofoldRule.outcome .default Rule.twofoldGraph.store).binding? (.blank "v")).bind
        (·.get? "point") = some (.blank "b") ∧
    KeepsFound .default oneSensorGraph Rule.twofoldGraph :=
  ⟨by decide +kernel, by decide +kernel, keepsFound rfl oneSensorGraph_within⟩

end BuildingRules
