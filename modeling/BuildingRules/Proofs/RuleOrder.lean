import BuildingRules.Proofs.AddedValues
import BuildingRules.Proofs.SatisfiedRules

/-!
# The order of classes and definitions

Over a graph, the rows of a step that are about an equipment do not depend on the class of the step,
as long as the equipment is of that class: `rowsAbout_step`. Merging them once more changes nothing,
and rows of different variables can be merged in either order, so neither the order of a rule's
classes nor that of its definitions matters: `orderFree`.
-/

set_option autoImplicit false

namespace BuildingRules

/-! ## The rows of a definition from an equipment -/

namespace Definition

/-- What the definition finds from the equipment, whatever class it is looked for in. -/
def rowsFrom (graph : Graph) (space : Namespace) (equipment : Term) (definition : Definition) :
    List Row :=
  let target := definition.variableName
  if target ≠ Query.root ∧ Identifier.isVariable target = true then
    match definition.pattern.clauses ⟨space, target⟩ (Path.definition target) Query.root
        (Query.names target) with
    | .ok (found, _) =>
      (graph.groupRows [Std.ExtTreeMap.insert ∅ Query.root equipment] found).map fun row =>
        Row.restrict row [Query.root, target]
    | .error _ => []
  else []

variable {graph : Graph} {space : Namespace} {definition : Definition} {equipment : Term}

theorem eq_pairRow_of_mem_rowsFrom {row : Row}
    (member : row ∈ definition.rowsFrom graph space equipment) :
    definition.variableName ≠ Query.root ∧
      ∃ value, row = Query.pairRow definition.variableName equipment value := by
  unfold rowsFrom at member
  dsimp only at member
  split at member
  next wellNamed =>
    refine ⟨wellNamed.1, ?_⟩
    split at member
    next found later compiled =>
      obtain ⟨full, inGroup, rfl⟩ := List.mem_map.1 member
      have answers : Answers definition.variableName later
          (Std.ExtTreeMap.insert ∅ Query.root equipment)
          (definition.pattern.Holds graph space equipment)
          (graph.groupRows [Std.ExtTreeMap.insert ∅ Query.root equipment] found) :=
        Pattern.faithful definition.pattern compiled (Query.anchored_root wellNamed.1 equipment)
      obtain ⟨value, hasTarget, -⟩ := answers.sound full inGroup
      have hasRoot := answers.keeps full inGroup Query.root equipment (by simp)
      exact ⟨value, Query.restrict_eq_pairRow wellNamed.1 hasRoot hasTarget⟩
    next => contradiction
  next => contradiction

theorem rowsAbout_rowsFrom_self :
    rowsAbout equipment (definition.rowsFrom graph space equipment) =
      definition.rowsFrom graph space equipment := by
  apply List.filter_eq_self.2
  intro row member
  obtain ⟨notRoot, value, rfl⟩ := eq_pairRow_of_mem_rowsFrom member
  simp [Query.getElem?_pairRow notRoot]

theorem rowsAbout_rowsFrom_of_ne {other : Term} (isOther : other ≠ equipment) :
    rowsAbout equipment (definition.rowsFrom graph space other) = [] := by
  apply List.filter_eq_nil_iff.2
  intro row member
  obtain ⟨notRoot, value, rfl⟩ := eq_pairRow_of_mem_rowsFrom member
  simp [Query.getElem?_pairRow notRoot, isOther]

theorem rowsFrom_eq_nil {className : String} {resolved : Iri}
    (identified : Identifier.classIri? space className = some resolved)
    (refused : ∀ query,
      Query.compile space className definition.variableName definition.pattern ≠ .ok query) :
    definition.rowsFrom graph space equipment = [] := by
  unfold rowsFrom
  dsimp only
  split
  next wellNamed =>
    split
    next found later below =>
      exact absurd (Query.compile_eq_ok.2
        ⟨wellNamed.1, wellNamed.2, resolved, found, later, identified, below, rfl⟩) (refused _)
    next => rfl
  next => rfl

theorem rows_step_eq_nil {className : String}
    (refused : ∀ query,
      Query.compile space className definition.variableName definition.pattern ≠ .ok query) :
    (definition.step space className).rows graph.store none = [] := by
  cases compiled :
      Query.compile space className definition.variableName definition.pattern with
  | error error => simp [step, Step.rows, Step.answer, compiled, Except.bind]
  | ok query => exact absurd compiled (refused query)

/-- A step goes through the equipment of its class, one after the other. -/
theorem rows_step_eq_flatMap {className : String} {resolved : Iri}
    (identified : Identifier.classIri? space className = some resolved) :
    (definition.step space className).rows graph.store none =
      (graph.instancesOf resolved).flatMap fun equipment =>
        definition.rowsFrom graph space equipment := by
  cases compiled :
      Query.compile space className definition.variableName definition.pattern with
  | error error =>
    have refused : ∀ query,
        Query.compile space className definition.variableName definition.pattern ≠ .ok query := by
      simp [compiled]
    simp [rows_step_eq_nil refused, rowsFrom_eq_nil identified refused]
  | ok query =>
    obtain ⟨notRoot, isVariable, other, found, later, otherIdentified, below, rfl⟩ :=
      Query.compile_eq_ok.1 compiled
    obtain rfl : resolved = other := Option.some.inj (identified.symm.trans otherIdentified)
    have findsRows : ∀ equipment, definition.rowsFrom graph space equipment =
        (graph.groupRows [Std.ExtTreeMap.insert ∅ Query.root equipment] found).map fun row =>
          Row.restrict row [Query.root, definition.variableName] := by
      intro equipment
      simp [rowsFrom, notRoot, isVariable, below]
    have started : graph.typeRows ∅ Query.root resolved =
        (graph.instancesOf resolved).map fun equipment =>
          Std.ExtTreeMap.insert ∅ Query.root equipment := by
      simp [Graph.typeRows]
    have answered : (definition.step space className).rows graph.store none =
        graph.solutions
          ⟨resolved, definition.variableName, .hasType Query.root resolved :: found⟩ := by
      simp [step, Step.rows, Step.answer, compiled, Except.bind, Graph.store, Graph.answer]
    simp only [answered, Graph.solutions, Graph.groupRows_cons, Graph.clauseRows, started,
      List.flatMap_map, List.map_flatMap, findsRows]
    rfl

/-- The rows about an equipment are found whole for each of its classes, and for no other. -/
theorem rowsAbout_step (graph : Graph) (space : Namespace) (className : String)
    (definition : Definition) (equipment : Term) :
    (Pattern.OfClass graph space className equipment →
      rowsAbout equipment ((definition.step space className).rows graph.store none) =
        definition.rowsFrom graph space equipment) ∧
    (¬Pattern.OfClass graph space className equipment →
      rowsAbout equipment ((definition.step space className).rows graph.store none) = []) := by
  have alone : ∀ other : Term, other ≠ equipment →
      rowsAbout equipment (definition.rowsFrom graph space other) = [] :=
    fun other => rowsAbout_rowsFrom_of_ne
  constructor
  · rintro ⟨resolved, identified, typed⟩
    rw [rows_step_eq_flatMap identified, rowsAbout, List.filter_flatMap]
    exact (flatMap_eq_of_alone (Graph.nodup_subjects graph _ _) (Graph.mem_instancesOf.2 typed)
      fun other _ isOther => alone other isOther).trans rowsAbout_rowsFrom_self
  · intro notTyped
    cases identified : Identifier.classIri? space className with
    | none =>
      rw [rows_step_eq_nil]
      · rfl
      · intro query compiled
        obtain ⟨_, _, resolved, _, _, isIdentified, _⟩ := Query.compile_eq_ok.1 compiled
        rw [identified] at isIdentified
        contradiction
    | some resolved =>
      rw [rows_step_eq_flatMap identified, rowsAbout, List.filter_flatMap,
        List.flatMap_eq_nil_iff]
      intro other member
      apply alone
      rintro rfl
      exact notTyped ⟨resolved, identified, Graph.mem_instancesOf.1 member⟩

end Definition

/-! ## Merging blocks of rows -/

namespace Binding

theorem foldl_mergeRow_twice (rows : List Row) (binding : Binding) :
    rows.foldl mergeRow (rows.foldl mergeRow binding) = rows.foldl mergeRow binding := by
  apply ext_get?
  intro name
  simp only [get?_foldl_mergeRow]
  cases rows.reverse.findSome? fun row => row[name]? <;> rfl

/-- Once the rows are merged, no number of copies of them changes anything. -/
theorem foldl_mergeRow_copies {Source : Type} {sources : List Source}
    {rowsOf : Source → List Row} {rows : List Row}
    (copies : ∀ source ∈ sources, rowsOf source = rows ∨ rowsOf source = [])
    {binding : Binding} (merged : rows.foldl mergeRow binding = binding) :
    (sources.flatMap rowsOf).foldl mergeRow binding = binding := by
  induction sources with
  | nil => rfl
  | cons source rest inductionHypothesis =>
    obtain ⟨isCopy, restCopies⟩ := List.forall_mem_cons.1 copies
    rw [List.flatMap_cons, List.foldl_append]
    rcases isCopy with isCopy | isEmpty
    · rw [isCopy, merged]
      exact inductionHypothesis restCopies
    · rw [isEmpty]
      exact inductionHypothesis restCopies

theorem foldl_mergeRow_of_copies {Source : Type} {sources : List Source}
    {rowsOf : Source → List Row} {rows : List Row}
    (copies : ∀ source ∈ sources, rowsOf source = rows ∨ rowsOf source = [])
    (someCopy : ∃ source ∈ sources, rowsOf source = rows) (binding : Binding) :
    (sources.flatMap rowsOf).foldl mergeRow binding = rows.foldl mergeRow binding := by
  induction sources with
  | nil =>
    obtain ⟨_, member, _⟩ := someCopy
    contradiction
  | cons source rest inductionHypothesis =>
    obtain ⟨isCopy, restCopies⟩ := List.forall_mem_cons.1 copies
    rw [List.flatMap_cons, List.foldl_append]
    by_cases isFirst : rowsOf source = rows
    · rw [isFirst]
      exact foldl_mergeRow_copies restCopies (foldl_mergeRow_twice rows binding)
    · have inRest : ∃ other ∈ rest, rowsOf other = rows := by
        obtain ⟨other, member, same⟩ := someCopy
        rcases List.mem_cons.1 member with rfl | member
        · exact absurd same isFirst
        · exact ⟨other, member, same⟩
      rw [isCopy.resolve_left isFirst]
      exact inductionHypothesis restCopies inRest

end Binding

namespace Definition

variable {graph : Graph} {space : Namespace} {equipment : Term}

/-- The rows of a definition tell of the equipment and of the definition's variable only. -/
theorem tells_of_rowsFrom {definition : Definition} {name : String} {value : Term}
    (told : ((definition.rowsFrom graph space equipment).reverse.findSome? fun row => row[name]?) =
      some value) :
    name = Query.root ∧ value = equipment ∨
      name ≠ Query.root ∧ name = definition.variableName := by
  obtain ⟨row, member, has⟩ := List.exists_of_findSome?_eq_some told
  obtain ⟨notRoot, other, rfl⟩ := eq_pairRow_of_mem_rowsFrom (List.mem_reverse.1 member)
  rw [Query.getElem?_pairRow notRoot] at has
  by_cases isRoot : name = Query.root
  · rw [if_pos isRoot] at has
    exact .inl ⟨isRoot, (Option.some.inj has).symm⟩
  · rw [if_neg isRoot] at has
    by_cases isVariable : name = definition.variableName
    · exact .inr ⟨isRoot, isVariable⟩
    · rw [if_neg isVariable] at has
      contradiction

/-- What definitions of different variables find from an equipment can be merged in either order. -/
theorem foldl_rowsFrom_comm {first second : Definition}
    (different : first.variableName ≠ second.variableName) (binding : Binding) :
    (second.rowsFrom graph space equipment).foldl Binding.mergeRow
        ((first.rowsFrom graph space equipment).foldl Binding.mergeRow binding) =
      (first.rowsFrom graph space equipment).foldl Binding.mergeRow
        ((second.rowsFrom graph space equipment).foldl Binding.mergeRow binding) := by
  apply Binding.ext_get?
  intro name
  simp only [Binding.get?_foldl_mergeRow]
  cases toldFirst :
      (first.rowsFrom graph space equipment).reverse.findSome? fun row => row[name]? with
  | none => simp
  | some value =>
    cases toldSecond :
        (second.rowsFrom graph space equipment).reverse.findSome? fun row => row[name]? with
    | none => simp
    | some other =>
      -- both tell of the equipment itself
      rcases tells_of_rowsFrom toldFirst with ⟨isRoot, rfl⟩ | ⟨notRoot, isFirst⟩
      · rcases tells_of_rowsFrom toldSecond with ⟨_, rfl⟩ | ⟨notRoot, _⟩
        · rfl
        · exact absurd isRoot notRoot
      · rcases tells_of_rowsFrom toldSecond with ⟨isRoot, _⟩ | ⟨_, isSecond⟩
        · exact absurd isRoot notRoot
        · exact absurd (isFirst.symm.trans isSecond) different

end Definition

namespace Rule

/-! ## What a rule finds of an equipment -/

def IsTyped (graph : Graph) (space : Namespace) (rule : Rule) (equipment : Term) : Prop :=
  ∃ className ∈ rule.applicability, Pattern.OfClass graph space className equipment

def rowsFrom (graph : Graph) (space : Namespace) (rule : Rule) (equipment : Term) : List Row :=
  rule.definitions.flatMap (Definition.rowsFrom graph space equipment)

section Rows

variable {settings : Settings} {graph : Graph} {rule : Rule} {equipment : Term}

/-- Each class that the equipment is of contributes the same rows. -/
theorem copies_rowsAbout (graph : Graph) (space : Namespace) (rule : Rule) (equipment : Term)
    (className : String) :
    (Pattern.OfClass graph space className equipment →
      rule.definitions.flatMap (fun definition =>
        rowsAbout equipment ((definition.step space className).rows graph.store none)) =
          rule.rowsFrom graph space equipment) ∧
    (¬Pattern.OfClass graph space className equipment →
      rule.definitions.flatMap (fun definition =>
        rowsAbout equipment ((definition.step space className).rows graph.store none)) = []) := by
  constructor
  · intro typed
    exact List.flatMap_congr fun definition _ =>
      (definition.rowsAbout_step graph space className equipment).1 typed
  · intro notTyped
    exact List.flatMap_eq_nil_iff.2 fun definition _ =>
      (definition.rowsAbout_step graph space className equipment).2 notTyped

theorem rowsAbout_rows (unlimited : settings.limit = none) :
    rowsAbout equipment (rule.rows settings graph.store) =
      rule.applicability.flatMap fun className => rule.definitions.flatMap fun definition =>
        rowsAbout equipment ((definition.step settings.space className).rows graph.store none) := by
  rw [rows_eq_flatMap, rowsAbout, List.filter_flatMap, unlimited]
  simp only [List.filter_flatMap]
  rfl

theorem rowsAbout_rows_ne_nil_iff (unlimited : settings.limit = none) :
    rowsAbout equipment (rule.rows settings graph.store) ≠ [] ↔
      rule.IsTyped graph settings.space equipment ∧
      rule.rowsFrom graph settings.space equipment ≠ [] := by
  rw [rowsAbout_rows unlimited, ne_eq, List.flatMap_eq_nil_iff]
  constructor
  · intro someRow
    push Not at someRow
    obtain ⟨className, member, notEmpty⟩ := someRow
    have copies := copies_rowsAbout graph settings.space rule equipment className
    have typed : Pattern.OfClass graph settings.space className equipment := by
      by_contra notTyped
      exact notEmpty (copies.2 notTyped)
    rw [copies.1 typed] at notEmpty
    exact ⟨⟨className, member, typed⟩, notEmpty⟩
  · rintro ⟨⟨className, member, typed⟩, notEmpty⟩ allEmpty
    have copies := copies_rowsAbout graph settings.space rule equipment className
    rw [← copies.1 typed] at notEmpty
    exact notEmpty (allEmpty className member)

theorem merged_eq_foldl (unlimited : settings.limit = none)
    (typed : rule.IsTyped graph settings.space equipment) :
    rule.merged settings graph.store equipment =
      (rule.rowsFrom graph settings.space equipment).foldl Binding.mergeRow .empty := by
  rw [merged, rowsAbout_rows unlimited]
  apply Binding.foldl_mergeRow_of_copies
  · intro className _
    have copies := copies_rowsAbout graph settings.space rule equipment className
    by_cases isTyped : Pattern.OfClass graph settings.space className equipment
    · exact .inl (copies.1 isTyped)
    · exact .inr (copies.2 isTyped)
  · obtain ⟨className, member, isTyped⟩ := typed
    exact ⟨className, member,
      (copies_rowsAbout graph settings.space rule equipment className).1 isTyped⟩

/-- The classes decide only whether the equipment is looked at, the definitions what is found. -/
theorem getElem?_instances_iff (unlimited : settings.limit = none) {binding : Binding} :
    (rule.outcome settings graph.store).instances[equipment]? = some binding ↔
      rule.IsTyped graph settings.space equipment ∧
      rule.rowsFrom graph settings.space equipment ≠ [] ∧
      binding = (rule.rowsFrom graph settings.space equipment).foldl Binding.mergeRow .empty ∧
      binding.size = rule.expectedSize := by
  rw [getElem?_instances_eq_some, rowsAbout_rows_ne_nil_iff unlimited, and_assoc]
  constructor
  · rintro ⟨typed, someRow, rfl, complete⟩
    rw [merged_eq_foldl unlimited typed] at complete ⊢
    exact ⟨typed, someRow, rfl, complete⟩
  · rintro ⟨typed, someRow, rfl, complete⟩
    rw [merged_eq_foldl unlimited typed]
    exact ⟨typed, someRow, rfl, complete⟩

/-- A binding cannot be complete unless the definitions are of distinct variables. -/
theorem distinct_of_complete (unlimited : settings.limit = none)
    (complete : (rule.merged settings graph.store equipment).size = rule.expectedSize) :
    rule.variableNames.Nodup := by
  have keysDistinct : (rule.merged settings graph.store equipment).values.keys.Nodup :=
    Std.ExtTreeMap.nodup_keys
  have within : (rule.merged settings graph.store equipment).values.keys ⊆
      Query.root :: rule.variableNames := by
    intro name member
    exact List.mem_cons.2
      (mem_values_of_merged unlimited (Std.ExtTreeMap.mem_keys.1 member))
  have asMany : (rule.merged settings graph.store equipment).values.keys.length =
      (Query.root :: rule.variableNames).length := by
    rw [Std.ExtTreeMap.length_keys, List.length_cons, variableNames, List.length_map]
    exact complete
  have allKeys := (keysDistinct.subperm within).perm_of_length_le asMany.ge
  exact (List.nodup_cons.1 (allKeys.nodup_iff.1 keysDistinct)).2

end Rows

/-! ## Rearranged rules -/

/-- The other rule has the same classes and definitions, in any order. -/
structure Rearranges (rule other : Rule) : Prop where
  name : other.name = rule.name
  applicability : other.applicability.Perm rule.applicability
  definitions : other.definitions.Perm rule.definitions

namespace Rearranges

variable {settings : Settings} {graph : Graph} {rule other : Rule} {equipment : Term}

theorem symm (rearranged : rule.Rearranges other) : other.Rearranges rule :=
  ⟨rearranged.name.symm, rearranged.applicability.symm, rearranged.definitions.symm⟩

theorem isTyped_iff (rearranged : rule.Rearranges other) (graph : Graph) (space : Namespace) :
    other.IsTyped graph space equipment ↔ rule.IsTyped graph space equipment := by
  simp only [IsTyped, rearranged.applicability.mem_iff]

theorem rowsFrom_perm (rearranged : rule.Rearranges other) (graph : Graph) (space : Namespace)
    (equipment : Term) :
    (other.rowsFrom graph space equipment).Perm (rule.rowsFrom graph space equipment) :=
  rearranged.definitions.flatMap fun _ _ => .refl _

theorem foldl_mergeRow_eq (rearranged : rule.Rearranges other)
    (distinct : other.variableNames.Nodup) (graph : Graph) (space : Namespace)
    (equipment : Term) (binding : Binding) :
    (other.rowsFrom graph space equipment).foldl Binding.mergeRow binding =
      (rule.rowsFrom graph space equipment).foldl Binding.mergeRow binding := by
  rw [rowsFrom, rowsFrom, List.foldl_flatMap, List.foldl_flatMap]
  apply rearranged.definitions.foldl_eq'
  intro first firstMember second secondMember merged
  by_cases same : first.variableName = second.variableName
  · rw [List.inj_on_of_nodup_map distinct firstMember secondMember same]
  · exact Definition.foldl_rowsFrom_comm same merged

theorem getElem?_instances (unlimited : settings.limit = none)
    (rearranged : rule.Rearranges other) {binding : Binding}
    (isInstance : (other.outcome settings graph.store).instances[equipment]? = some binding) :
    (rule.outcome settings graph.store).instances[equipment]? = some binding := by
  obtain ⟨typed, someRow, rfl, complete⟩ := (getElem?_instances_iff unlimited).1 isInstance
  have distinct : other.variableNames.Nodup := by
    rw [← merged_eq_foldl unlimited typed] at complete
    exact distinct_of_complete unlimited complete
  refine (getElem?_instances_iff unlimited).2
    ⟨(rearranged.isTyped_iff graph settings.space).1 typed, ?_, ?_, ?_⟩
  · intro isEmpty
    have sameRows := rearranged.rowsFrom_perm graph settings.space equipment
    rw [isEmpty] at sameRows
    exact someRow sameRows.eq_nil
  · exact rearranged.foldl_mergeRow_eq distinct graph settings.space equipment .empty
  · rw [complete, expectedSize, expectedSize, rearranged.definitions.length_eq]

theorem instances_eq (unlimited : settings.limit = none) (rearranged : rule.Rearranges other) :
    (other.outcome settings graph.store).instances =
      (rule.outcome settings graph.store).instances := by
  apply Std.ExtTreeMap.ext_getElem?
  intro equipment
  apply Option.ext
  intro binding
  exact ⟨rearranged.getElem?_instances unlimited, rearranged.symm.getElem?_instances unlimited⟩

theorem size_found (unlimited : settings.limit = none) (rearranged : rule.Rearranges other) :
    (other.found settings graph.store).size = (rule.found settings graph.store).size := by
  have sameKeys : ∀ equipment : Term, equipment ∈ other.found settings graph.store ↔
      equipment ∈ rule.found settings graph.store := by
    intro equipment
    have sameRows := rearranged.rowsFrom_perm graph settings.space equipment
    rw [mem_found_iff_sees, mem_found_iff_sees, sees_iff_rowsAbout_ne_nil,
      sees_iff_rowsAbout_ne_nil, rowsAbout_rows_ne_nil_iff unlimited,
      rowsAbout_rows_ne_nil_iff unlimited, rearranged.isTyped_iff, ← List.length_pos_iff,
      ← List.length_pos_iff, sameRows.length_eq]
  have sameNumber : ((other.found settings graph.store).size : ℕ∞) =
      (rule.found settings graph.store).size := by
    rw [← encard_found, ← encard_found]
    simp only [sameKeys]
  exact_mod_cast sameNumber

theorem outcome_eq (unlimited : settings.limit = none) (rearranged : rule.Rearranges other) :
    other.outcome settings graph.store = rule.outcome settings graph.store := by
  have sameInstances : (other.outcome settings graph.store).instances =
      (rule.outcome settings graph.store).instances := rearranged.instances_eq unlimited
  apply Outcome.ext
  · exact rearranged.name
  · exact congrArg settings.ruleIri rearranged.name
  · exact sameInstances
  · change _ - (other.outcome settings graph.store).instances.size =
      _ - (rule.outcome settings graph.store).instances.size
    rw [sameInstances, rearranged.size_found unlimited]

theorem failures_perm (rearranged : rule.Rearranges other) (settings : Settings) (store : Store) :
    (other.failures settings store).Perm (rule.failures settings store) := by
  rw [failures, failures, rearranged.name]
  apply List.Perm.filterMap
  exact rearranged.applicability.flatMap fun className _ => rearranged.definitions.map _

end Rearranges

/-! ## One class at a time -/

def forClass (rule : Rule) (className : String) : Rule :=
  { rule with applicability := [className] }

variable {settings : Settings} {graph : Graph} {rule : Rule}

theorem getElem?_instances_iff_forClass (unlimited : settings.limit = none) {equipment : Term}
    {binding : Binding} :
    (rule.outcome settings graph.store).instances[equipment]? = some binding ↔
      ∃ className ∈ rule.applicability,
        ((rule.forClass className).outcome settings graph.store).instances[equipment]? =
          some binding := by
  have typed : ∀ className, (rule.forClass className).IsTyped graph settings.space equipment ↔
      Pattern.OfClass graph settings.space className equipment := by
    simp [IsTyped, forClass]
  simp only [getElem?_instances_iff unlimited, typed]
  constructor
  · rintro ⟨⟨className, member, isTyped⟩, someRow, isMerged, complete⟩
    exact ⟨className, member, isTyped, someRow, isMerged, complete⟩
  · rintro ⟨className, member, isTyped, someRow, isMerged, complete⟩
    exact ⟨⟨className, member, isTyped⟩, someRow, isMerged, complete⟩

/-- What does not depend on the order of a rule's classes and definitions, and how the classes
share in what is found. -/
structure OrderFree (settings : Settings) (graph : Graph) (rule : Rule) : Prop where
  outcome : ∀ other, rule.Rearranges other →
    other.outcome settings graph.store = rule.outcome settings graph.store
  failures : ∀ other, rule.Rearranges other →
    (other.failures settings graph.store).Perm (rule.failures settings graph.store)
  /-- The instances are those for the single classes together. -/
  union : ∀ (equipment : Term) (binding : Binding),
    (rule.outcome settings graph.store).instances[equipment]? = some binding ↔
      ∃ className ∈ rule.applicability,
        ((rule.forClass className).outcome settings graph.store).instances[equipment]? =
          some binding
  agree : ∀ left ∈ rule.applicability, ∀ right ∈ rule.applicability,
    ∀ (equipment : Term) (binding other : Binding),
      ((rule.forClass left).outcome settings graph.store).instances[equipment]? = some binding →
      ((rule.forClass right).outcome settings graph.store).instances[equipment]? = some other →
      binding = other

theorem orderFree (unlimited : settings.limit = none) (graph : Graph) (rule : Rule) :
    OrderFree settings graph rule where
  outcome _ rearranged := rearranged.outcome_eq unlimited
  failures _ rearranged := rearranged.failures_perm settings graph.store
  union _ _ := getElem?_instances_iff_forClass unlimited
  agree left leftMember right rightMember equipment binding other isLeft isRight := by
    have isInstance := (getElem?_instances_iff_forClass unlimited).2 ⟨left, leftMember, isLeft⟩
    have isInstanceToo :=
      (getElem?_instances_iff_forClass unlimited).2 ⟨right, rightMember, isRight⟩
    exact Option.some.inj (isInstance.symm.trans isInstanceToo)

/-- A unit of two classes, with two sensors. -/
def twofoldGraph : Graph :=
  ⟨.ofList [Graph.typing (.blank "v") (Namespace.brick.iri "VAV"),
    Graph.typing (.blank "v") (Namespace.brick.iri "Terminal_Unit"),
    ⟨.blank "v", Namespace.brick.iri "hasPoint", .blank "a"⟩,
    ⟨.blank "v", Namespace.brick.iri "hasPoint", .blank "b"⟩,
    Graph.typing (.blank "a") (Namespace.brick.iri "Sensor"),
    Graph.typing (.blank "b") (Namespace.brick.iri "Sensor")] compare⟩

/-- Both classes lead to the unit, and both sensors can be the value. -/
def twofoldRule : Rule :=
  (((new "twofold").appliesTo "VAV").appliesTo "Terminal_Unit").define "point" (.leaf "Sensor")

theorem orderFree_of_twofoldRule :
    Settings.default.limit = none ∧
    (twofoldRule.outcome .default twofoldGraph.store).succeeded (.blank "v") = true ∧
    OrderFree .default twofoldGraph twofoldRule :=
  ⟨rfl, by decide +kernel, orderFree rfl twofoldGraph twofoldRule⟩

end Rule

end BuildingRules
