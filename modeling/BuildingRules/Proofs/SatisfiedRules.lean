import BuildingRules.Proofs.AnyStore
import BuildingRules.Proofs.PatternQueries

/-!
# Which equipment satisfies a rule

Over a graph, the steps of a rule find one row for each equipment of a well-formed class and each
value that a pattern finds from it: `mem_rows_iff`. So an equipment satisfies a built rule exactly
when it is of one of the classes and every definition compiles and finds a value from it, and its
binding holds such values: `mem_instances_iff`.
-/

set_option autoImplicit false

namespace BuildingRules

/-- The definition can be made into a query, for some class and hence for every well-formed one. -/
def Definition.Compiles (space : Namespace) (definition : Definition) : Prop :=
  ∃ className query,
    Query.compile space className definition.variableName definition.pattern = .ok query

theorem Definition.Compiles.variable_ne_root {space : Namespace} {definition : Definition}
    (compiles : definition.Compiles space) : definition.variableName ≠ Query.root := by
  obtain ⟨className, query, compiled⟩ := compiles
  exact (Query.compile_eq_ok.1 compiled).1

/-- The class matters to the compiler only through the IRI it stands for. -/
theorem Definition.Compiles.forClass {space : Namespace} {definition : Definition}
    (compiles : definition.Compiles space) {className : String} {resolved : Iri}
    (identified : Identifier.classIri? space className = some resolved) :
    ∃ query,
      Query.compile space className definition.variableName definition.pattern = .ok query := by
  obtain ⟨otherClass, otherQuery, compiled⟩ := compiles
  obtain ⟨notRoot, isVariable, _, found, later, _, below, _⟩ := Query.compile_eq_ok.1 compiled
  exact ⟨_, Query.compile_eq_ok.2
    ⟨notRoot, isVariable, resolved, found, later, identified, below, rfl⟩⟩

namespace Rule

/-! ## The rows of a rule over a graph -/

theorem keepsToProjection_store {settings : Settings} (unlimited : settings.limit = none)
    (graph : Graph) : graph.store.KeepsToProjection settings.limit := by
  intro query rows answered row member name bound
  rw [unlimited] at answered
  obtain rfl : graph.solutions query = rows := Except.ok.inj answered
  obtain ⟨wider, _, rfl⟩ := List.mem_map.1 member
  rw [Std.ExtTreeMap.mem_iff_isSome_getElem?, Row.getElem?_restrict] at bound
  by_cases projected : name ∈ query.projection
  · exact projected
  · rw [if_neg projected] at bound
    contradiction

theorem mem_rows_iff {settings : Settings} (unlimited : settings.limit = none) (graph : Graph)
    (rule : Rule) (row : Row) :
    row ∈ rule.rows settings graph.store ↔
      ∃ className ∈ rule.applicability, ∃ definition ∈ rule.definitions, ∃ equipment value,
        definition.Compiles settings.space ∧
        Pattern.OfClass graph settings.space className equipment ∧
        definition.pattern.Holds graph settings.space equipment value ∧
        row = Query.pairRow definition.variableName equipment value := by
  have inStep : ∀ className variableName query,
      row ∈ Step.rows graph.store settings.limit ⟨className, variableName, query⟩ ↔
        ∃ compiled, query = .ok compiled ∧ row ∈ graph.solutions compiled := by
    intro className variableName query
    rw [unlimited]
    cases query with
    | error refused => simp [Step.rows, Step.answer, Except.bind]
    | ok compiled => simp [Step.rows, Step.answer, Except.bind, Graph.store, Graph.answer]
  simp only [rows, steps, List.mem_flatMap, List.mem_map]
  constructor
  · intro found
    obtain ⟨_, ⟨className, classMember, definition, member, rfl⟩, inRows⟩ := found
    obtain ⟨query, compiled, solved⟩ := (inStep _ _ _).1 inRows
    obtain ⟨equipment, value, typed, holds, rfl⟩ :=
      (Query.mem_solutions_iff compiled graph row).1 solved
    exact ⟨className, classMember, definition, member, equipment, value,
      ⟨className, query, compiled⟩, typed, holds, rfl⟩
  · intro found
    obtain ⟨className, classMember, definition, member, equipment, value, compiles, typed, holds,
      rfl⟩ := found
    obtain ⟨resolved, identified, isTyped⟩ := typed
    obtain ⟨query, compiled⟩ := compiles.forClass identified
    exact ⟨_, ⟨className, classMember, definition, member, rfl⟩, (inStep _ _ _).2 ⟨query, compiled,
      (Query.mem_solutions_iff compiled graph _).2
        ⟨equipment, value, ⟨resolved, identified, isTyped⟩, holds, rfl⟩⟩⟩

/-- What the rows about an equipment say of it: that it is of one of the classes, and that some
definition compiles and finds a value. -/
theorem mem_rowsAbout_iff {settings : Settings} (unlimited : settings.limit = none)
    (graph : Graph) (rule : Rule) (equipment : Term) (row : Row) :
    row ∈ rowsAbout equipment (rule.rows settings graph.store) ↔
      (∃ className ∈ rule.applicability,
        Pattern.OfClass graph settings.space className equipment) ∧
      ∃ definition ∈ rule.definitions, ∃ value, definition.Compiles settings.space ∧
        definition.pattern.Holds graph settings.space equipment value ∧
        row = Query.pairRow definition.variableName equipment value := by
  rw [mem_rowsAbout, mem_rows_iff unlimited]
  constructor
  · intro found
    obtain ⟨⟨className, classMember, definition, member, other, value, compiles, typed, holds,
      rfl⟩, hasRoot⟩ := found
    rw [Query.getElem?_pairRow compiles.variable_ne_root, if_pos rfl] at hasRoot
    obtain rfl := Option.some.inj hasRoot
    exact ⟨⟨className, classMember, typed⟩, definition, member, value, compiles, holds, rfl⟩
  · intro found
    obtain ⟨⟨className, classMember, typed⟩, definition, member, value, compiles, holds, rfl⟩ :=
      found
    refine ⟨⟨className, classMember, definition, member, equipment, value, compiles, typed, holds,
      rfl⟩, ?_⟩
    rw [Query.getElem?_pairRow compiles.variable_ne_root, if_pos rfl]

/-- In a built rule, what a row says about an equipment and one of the variables is what the
variable's own definition finds. -/
theorem holds_of_mem_rowsAbout {settings : Settings} (unlimited : settings.limit = none)
    {graph : Graph} {rule : Rule} (built : rule.Built) {equipment : Term} {row : Row}
    (about : row ∈ rowsAbout equipment (rule.rows settings graph.store))
    {definition : Definition} (member : definition ∈ rule.definitions)
    (notRoot : definition.variableName ≠ Query.root) {value : Term}
    (has : row[definition.variableName]? = some value) :
    definition.Compiles settings.space ∧
      definition.pattern.Holds graph settings.space equipment value := by
  obtain ⟨_, other, otherMember, found, compiles, holds, rfl⟩ :=
    (mem_rowsAbout_iff unlimited graph rule equipment row).1 about
  -- the row has one variable besides the equipment, and that variable has one definition
  have sameVariable : definition.variableName = other.variableName := by
    have bound := Std.ExtTreeMap.mem_iff_isSome_getElem?.2 (Option.isSome_of_eq_some has)
    rw [Query.mem_pairRow compiles.variable_ne_root] at bound
    exact bound.resolve_left notRoot
  obtain rfl := built.definition_unique member otherMember sameVariable
  rw [Query.getElem?_pairRow notRoot, if_neg notRoot, if_pos rfl] at has
  obtain rfl := Option.some.inj has
  exact ⟨compiles, holds⟩

/-! ## Rules and the equipment that satisfies them -/

/-- The equipment is of one of the rule's classes, and each of the definitions, of which there are
some, compiles and finds a value from it. -/
def SatisfiedBy (graph : Graph) (space : Namespace) (equipment : Term) (rule : Rule) : Prop :=
  (∃ className ∈ rule.applicability, Pattern.OfClass graph space className equipment) ∧
  rule.definitions ≠ [] ∧
  ∀ definition ∈ rule.definitions, definition.Compiles space ∧
    ∃ value, definition.pattern.Holds graph space equipment value

variable {settings : Settings} {graph : Graph} {rule : Rule} {equipment : Term}

/-- Rows about an equipment have values for it and for variables of the rule only. -/
theorem mem_values_of_merged (unlimited : settings.limit = none) {name : String}
    (bound : name ∈ (rule.merged settings graph.store equipment).values) :
    name = Query.root ∨ name ∈ rule.variableNames :=
  eq_root_or_variable_of_merged (keepsToProjection_store unlimited graph) bound

theorem size_merged_iff (unlimited : settings.limit = none) (built : rule.Built)
    (someRow : rowsAbout equipment (rule.rows settings graph.store) ≠ []) :
    (rule.merged settings graph.store equipment).size = rule.expectedSize ↔
      Query.root ∉ rule.variableNames ∧ ∀ name ∈ rule.variableNames,
        name ∈ (rule.merged settings graph.store equipment).values :=
  complete_merged_iff built (keepsToProjection_store unlimited graph) someRow

theorem holds_of_complete (unlimited : settings.limit = none) (built : rule.Built)
    (someRow : rowsAbout equipment (rule.rows settings graph.store) ≠ [])
    (complete : (rule.merged settings graph.store equipment).size = rule.expectedSize)
    {definition : Definition} (member : definition ∈ rule.definitions) :
    definition.Compiles settings.space ∧ ∃ value,
      (rule.merged settings graph.store equipment).get? definition.variableName = some value ∧
      definition.pattern.Holds graph settings.space equipment value := by
  obtain ⟨rootFree, allBound⟩ := (size_merged_iff unlimited built someRow).1 complete
  have isVariable : definition.variableName ∈ rule.variableNames := List.mem_map_of_mem member
  have notRoot : definition.variableName ≠ Query.root := by
    intro isRoot
    exact rootFree (isRoot ▸ isVariable)
  obtain ⟨value, has⟩ := Binding.mem_values_iff.1 (allBound _ isVariable)
  obtain ⟨row, about, inRow⟩ := Binding.exists_row_of_get?_merged has
  obtain ⟨compiles, holds⟩ := holds_of_mem_rowsAbout unlimited built about member notRoot inRow
  exact ⟨compiles, value, has, holds⟩

theorem satisfiedBy_of_complete (unlimited : settings.limit = none) (built : rule.Built)
    (someRow : rowsAbout equipment (rule.rows settings graph.store) ≠ [])
    (complete : (rule.merged settings graph.store equipment).size = rule.expectedSize) :
    rule.SatisfiedBy graph settings.space equipment := by
  obtain ⟨row, about⟩ := List.exists_mem_of_ne_nil _ someRow
  obtain ⟨typed, first, firstMember, _⟩ :=
    (mem_rowsAbout_iff unlimited graph rule equipment row).1 about
  refine ⟨typed, List.ne_nil_of_mem firstMember, ?_⟩
  intro definition member
  obtain ⟨compiles, value, _, holds⟩ :=
    holds_of_complete unlimited built someRow complete member
  exact ⟨compiles, value, holds⟩

theorem complete_of_satisfiedBy (unlimited : settings.limit = none) (built : rule.Built)
    (satisfied : rule.SatisfiedBy graph settings.space equipment) :
    rowsAbout equipment (rule.rows settings graph.store) ≠ [] ∧
      (rule.merged settings graph.store equipment).size = rule.expectedSize := by
  obtain ⟨typed, someDefinition, all⟩ := satisfied
  have rowOf : ∀ definition ∈ rule.definitions, ∃ value,
      Query.pairRow definition.variableName equipment value ∈
        rowsAbout equipment (rule.rows settings graph.store) := by
    intro definition member
    obtain ⟨compiles, value, holds⟩ := all definition member
    exact ⟨value, (mem_rowsAbout_iff unlimited graph rule equipment _).2
      ⟨typed, definition, member, value, compiles, holds, rfl⟩⟩
  obtain ⟨first, firstMember⟩ := List.exists_mem_of_ne_nil _ someDefinition
  obtain ⟨_, firstAbout⟩ := rowOf first firstMember
  have someRow := List.ne_nil_of_mem firstAbout
  refine ⟨someRow, (size_merged_iff unlimited built someRow).2 ⟨?_, ?_⟩⟩
  · intro rootListed
    obtain ⟨definition, member, isRoot⟩ := List.mem_map.1 rootListed
    exact (all definition member).1.variable_ne_root isRoot
  · intro name listed
    obtain ⟨definition, member, rfl⟩ := List.mem_map.1 listed
    obtain ⟨value, about⟩ := rowOf definition member
    have notRoot := (all definition member).1.variable_ne_root
    apply Binding.mem_values_merged about
    rw [Query.getElem?_pairRow notRoot, if_neg notRoot, if_pos rfl]

/-- Over a graph, and without a limit of time, an equipment satisfies a rule that is built or read
exactly when it is of one of the classes and every definition finds a value from it. Its binding
then has values for the equipment and the defined variables only, each found by its definition. -/
theorem mem_instances_iff (unlimited : settings.limit = none)
    (origin : rule.Built ∨ ∃ value document,
      RuleDocument.ofJson value = .ok document ∧ rule ∈ document.book.rules) :
    (equipment ∈ (rule.outcome settings graph.store).instances ↔
      rule.SatisfiedBy graph settings.space equipment) ∧
    ∀ binding, (rule.outcome settings graph.store).binding? equipment = some binding →
      binding.root? = some equipment ∧
      (∀ name, binding.contains name = true ↔ name = Query.root ∨ name ∈ rule.variableNames) ∧
      ∀ definition ∈ rule.definitions, ∃ value,
        binding.get? definition.variableName = some value ∧
        definition.pattern.Holds graph settings.space equipment value := by
  have built : rule.Built := by
    rcases origin with built | ⟨value, document, read, member⟩
    · exact built
    · exact RuleDocument.built_of_ofJson read rule member
  refine ⟨?_, ?_⟩
  · rw [Std.ExtTreeMap.mem_iff_isSome_getElem?, Option.isSome_iff_exists]
    constructor
    · intro found
      obtain ⟨_, isInstance⟩ := found
      obtain ⟨someRow, rfl, complete⟩ := getElem?_instances_eq_some.1 isInstance
      exact satisfiedBy_of_complete unlimited built someRow complete
    · intro satisfied
      obtain ⟨someRow, complete⟩ := complete_of_satisfiedBy unlimited built satisfied
      exact ⟨_, getElem?_instances_eq_some.2 ⟨someRow, rfl, complete⟩⟩
  · intro binding found
    obtain ⟨someRow, rfl, complete⟩ := getElem?_instances_eq_some.1 found
    have hasRoot := root?_merged someRow
    obtain ⟨_, allBound⟩ := (size_merged_iff unlimited built someRow).1 complete
    refine ⟨hasRoot, ?_, ?_⟩
    · intro name
      rw [Binding.contains, ← Std.ExtTreeMap.mem_iff_contains]
      constructor
      · exact mem_values_of_merged unlimited
      · intro listed
        rcases listed with rfl | listed
        · exact Binding.mem_values_iff.2 ⟨equipment, hasRoot⟩
        · exact allBound name listed
    · intro definition member
      exact (holds_of_complete unlimited built someRow complete member).2

/-- A rule that asks each unit for a sensor of a part; its other class is not one. -/
def loopRule : Rule :=
  (((new "looping").appliesTo "no name").appliesTo "VAV").define "point" Query.loopPattern

theorem mem_instances_of_loopRule :
    loopRule.Built ∧ loopRule.SatisfiedBy Query.loopGraph .brick (.blank "v") ∧
    ∀ binding,
      (loopRule.outcome .default Query.loopGraph.store).binding? (.blank "v") = some binding →
      binding.root? = some (.blank "v") ∧
      (∀ name, binding.contains name = true ↔ name = Query.root ∨ name ∈ loopRule.variableNames) ∧
      ∀ definition ∈ loopRule.definitions, ∃ value,
        binding.get? definition.variableName = some value ∧
        definition.pattern.Holds Query.loopGraph .brick (.blank "v") value := by
  have built : loopRule.Built := .define _ _ (.appliesTo _ (.appliesTo _ (.new _)))
  obtain ⟨satisfied, bindings⟩ :=
    @mem_instances_iff Settings.default Query.loopGraph loopRule (.blank "v") rfl (.inl built)
  exact ⟨built, satisfied.1 (Std.ExtTreeMap.mem_iff_contains.2 (by decide +kernel)), bindings⟩

end Rule

end BuildingRules
