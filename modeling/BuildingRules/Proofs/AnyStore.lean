import BuildingRules.Proofs.BuiltRules
import BuildingRules.Proofs.Compilation
import BuildingRules.Proofs.RowMerging
import Mathlib.Data.List.ProdSigma
import Mathlib.Data.Set.Card

/-!
# Rules over any store

All that is asked of a store is that its rows keep to the variables of the query. Then a built rule
is evaluated exactly: its instances, their bindings, the number of the other equipment and the
failures are read off what the single steps find, and a step that fails does not keep the others
from counting: `evaluatesExactly`.
-/

set_option autoImplicit false

namespace BuildingRules

/-! ## Lists -/

section Lists

variable {Entry Value : Type}

theorem findSome?_eq_bind_find? (read : Entry → Option Value) (entries : List Entry) :
    entries.findSome? read = (entries.find? fun entry => (read entry).isSome).bind read := by
  induction entries with
  | nil => rfl
  | cons entry rest inductionHypothesis =>
      cases has : read entry with
      | none => simp [has, inductionHypothesis]
      | some value => simp [has]

theorem flatMap_eq_of_alone {valuesOf : Entry → List Value} {entries : List Entry} {entry : Entry}
    (distinct : entries.Nodup) (member : entry ∈ entries)
    (others : ∀ other ∈ entries, other ≠ entry → valuesOf other = []) :
    entries.flatMap valuesOf = valuesOf entry := by
  obtain ⟨before, after, rfl⟩ := List.append_of_mem member
  have notBefore : entry ∉ before := by grind
  have notAfter : entry ∉ after := by grind
  have nothingBefore : before.flatMap valuesOf = [] :=
    List.flatMap_eq_nil_iff.2 fun other listed => others other (by grind) (by grind)
  have nothingAfter : after.flatMap valuesOf = [] :=
    List.flatMap_eq_nil_iff.2 fun other listed => others other (by grind) (by grind)
  rw [List.flatMap_append, List.flatMap_cons, nothingBefore, nothingAfter, List.nil_append,
    List.append_nil]

theorem forall₂_filter_filterMap {related : Entry → Value → Prop} {holds : Entry → Prop}
    [DecidablePred holds] {read : Entry → Option Value}
    (skipped : ∀ entry, read entry = none → ¬ holds entry)
    (kept : ∀ entry value, read entry = some value → holds entry ∧ related entry value)
    (entries : List Entry) :
    List.Forall₂ related (entries.filter fun entry => holds entry) (entries.filterMap read) := by
  induction entries with
  | nil => exact .nil
  | cons entry rest inductionHypothesis =>
      cases has : read entry with
      | none =>
          rw [List.filter_cons_of_neg (by simpa using skipped entry has),
            List.filterMap_cons_none has]
          exact inductionHypothesis
      | some value =>
          obtain ⟨isKept, isRelated⟩ := kept entry value has
          rw [List.filter_cons_of_pos (by simpa using isKept), List.filterMap_cons_some has]
          exact .cons isRelated inductionHypothesis

end Lists

/-! ## Stores -/

namespace Store

/-- The rows of an answer have values for variables of the query's projection only. -/
def KeepsToProjection (store : Store) (limit : Option Duration) : Prop :=
  ∀ query rows, store.answer limit query = .ok rows →
    ∀ row ∈ rows, ∀ name : String, name ∈ row → name ∈ query.projection

/-- The store that finds no rows where the given one refuses to answer. -/
def forgiving (store : Store) : Store where
  answer limit query :=
    match store.answer limit query with
    | .ok rows => .ok rows
    | .error _ => .ok []

end Store

/-! ## What a step finds -/

namespace Definition

def step (space : Namespace) (className : String) (definition : Definition) : Step :=
  ⟨className, definition.variableName,
    Query.compile space className definition.variableName definition.pattern⟩

/-- For the class, the definition compiles to a query that is answered, with this row among
others. -/
def Finds (settings : Settings) (store : Store) (className : String) (definition : Definition)
    (row : Row) : Prop :=
  ∃ query rows,
    Query.compile settings.space className definition.variableName definition.pattern = .ok query ∧
    store.answer settings.limit query = .ok rows ∧ row ∈ rows

/-- For the class, the definition does not compile, or it compiles to a query that is refused. -/
def FailsWith (settings : Settings) (store : Store) (className : String) (definition : Definition)
    (error : Error) : Prop :=
  Query.compile settings.space className definition.variableName definition.pattern =
      .error error ∨
  ∃ query,
    Query.compile settings.space className definition.variableName definition.pattern = .ok query ∧
    store.answer settings.limit query = .error error

def Fails (settings : Settings) (store : Store) (className : String) (definition : Definition) :
    Prop :=
  ∃ error, definition.FailsWith settings store className error

/-- What the definition finds for the classes, one after the other. -/
def rows (settings : Settings) (store : Store) (classNames : List String)
    (definition : Definition) : List Row :=
  classNames.flatMap fun className =>
    (definition.step settings.space className).rows store settings.limit

section Steps

variable {settings : Settings} {store : Store} {className : String} {definition : Definition}

theorem answer_step_eq_ok {rows : List Row} :
    (definition.step settings.space className).answer store settings.limit = .ok rows ↔
      ∃ query,
        Query.compile settings.space className definition.variableName definition.pattern =
          .ok query ∧ store.answer settings.limit query = .ok rows :=
  bind_eq_ok

theorem answer_step_eq_error {error : Error} :
    (definition.step settings.space className).answer store settings.limit = .error error ↔
      definition.FailsWith settings store className error := by
  unfold FailsWith Step.answer step
  cases Query.compile settings.space className definition.variableName definition.pattern with
  | ok query => simp [Except.bind]
  | error refused => simp [Except.bind]

instance : Decidable (definition.Fails settings store className) :=
  decidable_of_iff
    (((definition.step settings.space className).answer store settings.limit).isOk = false) <| by
      simp only [Fails, ← answer_step_eq_error]
      cases (definition.step settings.space className).answer store settings.limit with
      | ok rows => simp [Except.isOk, Except.toBool]
      | error refused => simp [Except.isOk, Except.toBool]

theorem mem_rows_step {row : Row} :
    row ∈ (definition.step settings.space className).rows store settings.limit ↔
      definition.Finds settings store className row := by
  have asked : definition.Finds settings store className row ↔
      ∃ rows, (definition.step settings.space className).answer store settings.limit = .ok rows ∧
        row ∈ rows := by
    simp only [answer_step_eq_ok, Finds]
    grind
  rw [asked, Step.rows]
  cases (definition.step settings.space className).answer store settings.limit with
  | ok rows => simp
  | error refused => simp

theorem mem_rows {classNames : List String} {row : Row} :
    row ∈ definition.rows settings store classNames ↔
      ∃ className ∈ classNames, definition.Finds settings store className row := by
  simp only [rows, List.mem_flatMap, mem_rows_step]

theorem Finds.variable_ne_root {row : Row}
    (found : definition.Finds settings store className row) :
    definition.variableName ≠ Query.root := by
  obtain ⟨query, _, compiled, _⟩ := found
  exact (Query.compile_eq_ok.1 compiled).1

theorem Finds.eq_root_or_variable (keeps : store.KeepsToProjection settings.limit) {row : Row}
    (found : definition.Finds settings store className row) {name : String} (bound : name ∈ row) :
    name = Query.root ∨ name = definition.variableName := by
  obtain ⟨query, rows, compiled, answered, member⟩ := found
  obtain ⟨_, _, _, _, _, _, _, rfl⟩ := Query.compile_eq_ok.1 compiled
  have projected := keeps _ rows answered row member name bound
  simpa [Query.projection] using projected

end Steps

end Definition

/-! ## The last row that tells a value -/

/-- The rows about the equipment that have a value for the variable. -/
def rowsTelling (equipment : Term) (name : String) (rows : List Row) : List Row :=
  (rowsAbout equipment rows).filter (·.contains name)

theorem mem_rowsTelling {equipment : Term} {name : String} {rows : List Row} {row : Row} :
    row ∈ rowsTelling equipment name rows ↔
      row ∈ rows ∧ row[Query.root]? = some equipment ∧ name ∈ row := by
  rw [rowsTelling, List.mem_filter, mem_rowsAbout, Std.ExtTreeMap.mem_iff_contains, and_assoc]

theorem rowsTelling_flatMap {Source : Type} (equipment : Term) (name : String)
    (sources : List Source) (rowsOf : Source → List Row) :
    rowsTelling equipment name (sources.flatMap rowsOf) =
      sources.flatMap fun source => rowsTelling equipment name (rowsOf source) := by
  simp only [rowsTelling, rowsAbout, List.filter_flatMap]

theorem get?_merged_eq_last (equipment : Term) (name : String) (rows : List Row) :
    ((rowsAbout equipment rows).foldl Binding.mergeRow .empty).get? name =
      (rowsTelling equipment name rows).getLast?.bind (·[name]?) := by
  have tells : ∀ row : Row, (row[name]?).isSome = row.contains name :=
    fun row => Std.ExtTreeMap.isSome_getElem?_eq_contains
  rw [Binding.get?_foldl_mergeRow, show Binding.empty.get? name = none from rfl, Option.or_none,
    findSome?_eq_bind_find?, rowsTelling, List.getLast?_filter]
  simp only [tells]

namespace Rule

/-! ## The rows of a rule -/

/-- Some step finds a row about the equipment. -/
def Sees (settings : Settings) (store : Store) (rule : Rule) (equipment : Term) : Prop :=
  ∃ className ∈ rule.applicability, ∃ definition ∈ rule.definitions, ∃ row,
    definition.Finds settings store className row ∧ row[Query.root]? = some equipment

variable {settings : Settings} {store : Store} {rule : Rule} {equipment : Term}

theorem rows_eq_flatMap :
    rule.rows settings store = rule.applicability.flatMap fun className =>
      rule.definitions.flatMap fun definition =>
        (definition.step settings.space className).rows store settings.limit := by
  simp only [rows, steps, List.flatMap_assoc, List.flatMap_map, Definition.step]

theorem mem_rows_iff_finds {row : Row} :
    row ∈ rule.rows settings store ↔
      ∃ className ∈ rule.applicability, ∃ definition ∈ rule.definitions,
        definition.Finds settings store className row := by
  simp only [rows_eq_flatMap, List.mem_flatMap, Definition.mem_rows_step]

theorem sees_iff_rowsAbout_ne_nil :
    rule.Sees settings store equipment ↔ rowsAbout equipment (rule.rows settings store) ≠ [] := by
  constructor
  · intro seen
    obtain ⟨className, classMember, definition, member, row, found, about⟩ := seen
    exact List.ne_nil_of_mem (mem_rowsAbout.2
      ⟨mem_rows_iff_finds.2 ⟨className, classMember, definition, member, found⟩, about⟩)
  · intro someRow
    obtain ⟨row, listed⟩ := List.exists_mem_of_ne_nil _ someRow
    obtain ⟨inRows, about⟩ := mem_rowsAbout.1 listed
    obtain ⟨className, classMember, definition, member, found⟩ := mem_rows_iff_finds.1 inRows
    exact ⟨className, classMember, definition, member, row, found, about⟩

theorem rowsTelling_rows (built : rule.Built) (keeps : store.KeepsToProjection settings.limit)
    {definition : Definition} (member : definition ∈ rule.definitions)
    (notRoot : definition.variableName ≠ Query.root) :
    rowsTelling equipment definition.variableName (rule.rows settings store) =
      rowsTelling equipment definition.variableName
        (definition.rows settings store rule.applicability) := by
  rw [rows_eq_flatMap, Definition.rows, rowsTelling_flatMap, rowsTelling_flatMap]
  apply List.flatMap_congr
  intro className _
  rw [rowsTelling_flatMap]
  apply flatMap_eq_of_alone (List.Nodup.of_map _ built.distinct) member
  -- the rows of another definition have no value for this variable
  intro other otherMember isOther
  rw [List.eq_nil_iff_forall_not_mem]
  intro row told
  obtain ⟨found, _, bound⟩ := mem_rowsTelling.1 told
  rcases (Definition.mem_rows_step.1 found).eq_root_or_variable keeps bound with isRoot | same
  · exact notRoot isRoot
  · exact isOther (built.definition_unique otherMember member same.symm)

/-! ## Merged bindings -/

theorem root?_merged (someRow : rowsAbout equipment (rule.rows settings store) ≠ []) :
    (rule.merged settings store equipment).root? = some equipment := by
  obtain ⟨row, about⟩ := List.exists_mem_of_ne_nil _ someRow
  have bound := Binding.mem_values_merged about (mem_rowsAbout.1 about).2
  obtain ⟨value, has⟩ := Binding.mem_values_iff.1 bound
  obtain ⟨source, sourceAbout, inSource⟩ := Binding.exists_row_of_get?_merged has
  rw [(mem_rowsAbout.1 sourceAbout).2] at inSource
  rw [Binding.root?, merged, has, inSource]

theorem mem_values_merged_iff {name : String} :
    name ∈ (rule.merged settings store equipment).values ↔
      ∃ row ∈ rowsAbout equipment (rule.rows settings store), name ∈ row := by
  constructor
  · intro bound
    obtain ⟨value, has⟩ := Binding.mem_values_iff.1 bound
    obtain ⟨row, about, inRow⟩ := Binding.exists_row_of_get?_merged has
    exact ⟨row, about, Std.ExtTreeMap.mem_iff_isSome_getElem?.2 (Option.isSome_of_eq_some inRow)⟩
  · intro told
    obtain ⟨row, about, inRow⟩ := told
    rw [Std.ExtTreeMap.mem_iff_isSome_getElem?, Option.isSome_iff_exists] at inRow
    obtain ⟨value, has⟩ := inRow
    exact Binding.mem_values_merged about has

theorem eq_root_or_variable_of_merged (keeps : store.KeepsToProjection settings.limit)
    {name : String} (bound : name ∈ (rule.merged settings store equipment).values) :
    name = Query.root ∨ name ∈ rule.variableNames := by
  obtain ⟨row, about, inRow⟩ := mem_values_merged_iff.1 bound
  obtain ⟨_, _, definition, member, found⟩ := mem_rows_iff_finds.1 (mem_rowsAbout.1 about).1
  exact (found.eq_root_or_variable keeps inRow).imp_right
    fun same => List.mem_map.2 ⟨definition, member, same.symm⟩

/-- No variable is named like the equipment, and each has a value. -/
theorem complete_merged_iff (built : rule.Built) (keeps : store.KeepsToProjection settings.limit)
    (someRow : rowsAbout equipment (rule.rows settings store) ≠ []) :
    (rule.merged settings store equipment).size = rule.expectedSize ↔
      Query.root ∉ rule.variableNames ∧ ∀ name ∈ rule.variableNames,
        name ∈ (rule.merged settings store equipment).values := by
  have sizeIs : rule.expectedSize = rule.variableNames.length + 1 := by
    rw [variableNames, List.length_map, expectedSize]
  rw [sizeIs]
  exact Binding.size_eq_iff built.distinct
    (Binding.mem_values_iff.2 ⟨equipment, root?_merged someRow⟩)
    fun _ bound => eq_root_or_variable_of_merged keeps bound

theorem contains_merged_iff (built : rule.Built) (keeps : store.KeepsToProjection settings.limit)
    (someRow : rowsAbout equipment (rule.rows settings store) ≠ [])
    (complete : (rule.merged settings store equipment).size = rule.expectedSize) {name : String} :
    (rule.merged settings store equipment).contains name = true ↔
      name = Query.root ∨ name ∈ rule.variableNames := by
  obtain ⟨_, allBound⟩ := (complete_merged_iff built keeps someRow).1 complete
  rw [Binding.contains, ← Std.ExtTreeMap.mem_iff_contains]
  constructor
  · exact eq_root_or_variable_of_merged keeps
  · intro listed
    rcases listed with rfl | listed
    · exact Binding.mem_values_iff.2 ⟨equipment, root?_merged someRow⟩
    · exact allBound name listed

/-- Some row about the equipment has a value for the definition's variable. -/
def Tells (settings : Settings) (store : Store) (rule : Rule) (equipment : Term)
    (definition : Definition) : Prop :=
  ∃ className ∈ rule.applicability, ∃ row, definition.Finds settings store className row ∧
    row[Query.root]? = some equipment ∧ definition.variableName ∈ row

theorem tells_of_mem_merged (built : rule.Built) (keeps : store.KeepsToProjection settings.limit)
    {definition : Definition} (member : definition ∈ rule.definitions)
    (notRoot : definition.variableName ≠ Query.root)
    (bound : definition.variableName ∈ (rule.merged settings store equipment).values) :
    rule.Tells settings store equipment definition := by
  obtain ⟨row, listed, inRow⟩ := mem_values_merged_iff.1 bound
  obtain ⟨inRows, about⟩ := mem_rowsAbout.1 listed
  have told := mem_rowsTelling.2 ⟨inRows, about, inRow⟩
  rw [rowsTelling_rows built keeps member notRoot] at told
  obtain ⟨inOwn, _⟩ := mem_rowsTelling.1 told
  obtain ⟨className, classMember, found⟩ := Definition.mem_rows.1 inOwn
  exact ⟨className, classMember, row, found, about, inRow⟩

theorem Tells.variable_ne_root {definition : Definition}
    (tells : rule.Tells settings store equipment definition) :
    definition.variableName ≠ Query.root := by
  obtain ⟨_, _, _, found, _⟩ := tells
  exact found.variable_ne_root

theorem Tells.mem_merged {definition : Definition} (member : definition ∈ rule.definitions)
    (tells : rule.Tells settings store equipment definition) :
    definition.variableName ∈ (rule.merged settings store equipment).values := by
  obtain ⟨className, classMember, row, found, about, inRow⟩ := tells
  have inRows := mem_rows_iff_finds.2 ⟨className, classMember, definition, member, found⟩
  exact mem_values_merged_iff.2 ⟨row, mem_rowsAbout.2 ⟨inRows, about⟩, inRow⟩

/-! ## Instances -/

theorem mem_instances_iff_tells (built : rule.Built)
    (keeps : store.KeepsToProjection settings.limit) :
    equipment ∈ (rule.outcome settings store).instances ↔
      rule.Sees settings store equipment ∧
      ∀ definition ∈ rule.definitions, rule.Tells settings store equipment definition := by
  rw [Std.ExtTreeMap.mem_iff_isSome_getElem?, Option.isSome_iff_exists]
  constructor
  · intro found
    obtain ⟨_, isInstance⟩ := found
    obtain ⟨someRow, rfl, complete⟩ := getElem?_instances_eq_some.1 isInstance
    obtain ⟨rootFree, allBound⟩ := (complete_merged_iff built keeps someRow).1 complete
    refine ⟨sees_iff_rowsAbout_ne_nil.2 someRow, fun definition member => ?_⟩
    have listed : definition.variableName ∈ rule.variableNames := List.mem_map_of_mem member
    exact tells_of_mem_merged built keeps member (fun isRoot => rootFree (isRoot ▸ listed))
      (allBound _ listed)
  · intro found
    obtain ⟨seen, told⟩ := found
    have someRow := sees_iff_rowsAbout_ne_nil.1 seen
    refine ⟨_, getElem?_instances_eq_some.2
      ⟨someRow, rfl, (complete_merged_iff built keeps someRow).2 ⟨?_, ?_⟩⟩⟩
    · intro rootListed
      obtain ⟨definition, member, isRoot⟩ := List.mem_map.1 rootListed
      exact (told definition member).variable_ne_root isRoot
    · intro name listed
      obtain ⟨definition, member, rfl⟩ := List.mem_map.1 listed
      exact (told definition member).mem_merged member

theorem get?_merged_eq_last_of_tells (built : rule.Built)
    (keeps : store.KeepsToProjection settings.limit) {definition : Definition}
    (member : definition ∈ rule.definitions)
    (tells : rule.Tells settings store equipment definition) :
    ∃ row, (rowsTelling equipment definition.variableName
        (definition.rows settings store rule.applicability)).getLast? = some row ∧
      (rule.merged settings store equipment).get? definition.variableName =
        row[definition.variableName]? := by
  obtain ⟨className, classMember, row, found, about, inRow⟩ := id tells
  have told := mem_rowsTelling.2
    ⟨Definition.mem_rows.2 ⟨className, classMember, found⟩, about, inRow⟩
  refine ⟨_, List.getLast?_eq_some_getLast (List.ne_nil_of_mem told), ?_⟩
  rw [merged, get?_merged_eq_last, rowsTelling_rows built keeps member found.variable_ne_root,
    List.getLast?_eq_some_getLast (List.ne_nil_of_mem told), Option.bind_some]

/-! ## Equipment that is discarded -/

theorem encard_found (found : Found) : {equipment | equipment ∈ found}.encard = found.size := by
  have listed : {equipment | equipment ∈ found} = (found.keys.toFinset : Set Term) := by
    ext equipment
    simp [Std.ExtTreeMap.mem_keys]
  rw [listed, Set.encard_coe_eq_coe_finsetCard,
    List.toFinset_card_of_nodup Std.ExtTreeMap.nodup_keys, Std.ExtTreeMap.length_keys]

theorem mem_found_iff_sees :
    equipment ∈ rule.found settings store ↔ rule.Sees settings store equipment := by
  rw [Std.ExtTreeMap.mem_iff_isSome_getElem?, getElem?_found, sees_iff_rowsAbout_ne_nil]
  split
  next nothing => simp [nothing]
  next something => simp [something]

theorem size_instances_le :
    (rule.outcome settings store).instances.size ≤ (rule.found settings store).size :=
  Std.ExtTreeMap.size_filter_le_size

theorem encard_discarded :
    {equipment | rule.Sees settings store equipment ∧
      equipment ∉ (rule.outcome settings store).instances}.encard =
        (rule.outcome settings store).discarded := by
  have within : {equipment | equipment ∈ (rule.outcome settings store).instances} ⊆
      {equipment | equipment ∈ rule.found settings store} :=
    fun _ isInstance => Std.ExtTreeMap.mem_of_mem_filter isInstance
  have others : {equipment | rule.Sees settings store equipment ∧
      equipment ∉ (rule.outcome settings store).instances} =
        {equipment | equipment ∈ rule.found settings store} \
          {equipment | equipment ∈ (rule.outcome settings store).instances} := by
    ext equipment
    simp [mem_found_iff_sees]
  have counted := Set.encard_sdiff_add_encard_of_subset within
  rw [← others, encard_found, encard_found] at counted
  have subtracted : (rule.found settings store).size =
      (rule.outcome settings store).discarded + (rule.outcome settings store).instances.size :=
    (Nat.sub_add_cancel size_instances_le).symm
  rw [subtracted, Nat.cast_add] at counted
  exact ENat.add_left_injective_of_ne_top (ENat.natCast_ne_top _) counted

/-! ## Failures -/

/-- The steps that fail, class after class. -/
def failingSteps (settings : Settings) (store : Store) (rule : Rule) : List (String × Definition) :=
  (rule.applicability ×ˢ rule.definitions).filter fun step =>
    step.2.Fails settings store step.1

/-- The failure of a step is recorded under its rule, class and variable. Its error has the cause
that it had, and these for its place. -/
def failureAt (rule : Rule) (className : String) (definition : Definition) (error : Error) :
    Failure where
  ruleName := rule.name
  className := some className
  variableName := some definition.variableName
  error :=
    { cause := error.cause
      place := some
        { ruleName := some rule.name
          className := some className
          variableName := some definition.variableName } }

theorem failure?_step_eq_some {className : String} {definition : Definition} {failure : Failure} :
    (definition.step settings.space className).failure? store settings.limit rule.name =
        some failure ↔
      ∃ error, definition.FailsWith settings store className error ∧
        failure = rule.failureAt className definition error := by
  simp only [← Definition.answer_step_eq_error]
  unfold Step.failure?
  cases (definition.step settings.space className).answer store settings.limit with
  | ok rows => simp
  | error refused =>
      simp only [Except.error.injEq, exists_eq_left', Option.some.injEq]
      exact eq_comm

theorem failures_eq_filterMap :
    rule.failures settings store = (rule.applicability ×ˢ rule.definitions).filterMap fun step =>
      (step.2.step settings.space step.1).failure? store settings.limit rule.name := by
  simp only [failures, steps, SProd.sprod, List.product, List.filterMap_flatMap,
    List.filterMap_map, Function.comp_def, Definition.step]

theorem forall₂_failures :
    List.Forall₂
      (fun step failure => ∃ error, step.2.FailsWith settings store step.1 error ∧
        failure = rule.failureAt step.1 step.2 error)
      (rule.failingSteps settings store) (rule.failures settings store) := by
  rw [failures_eq_filterMap, failingSteps]
  apply forall₂_filter_filterMap
  · intro step isSkipped fails
    obtain ⟨error, failsWith⟩ := fails
    rw [failure?_step_eq_some.2 ⟨error, failsWith, rfl⟩] at isSkipped
    contradiction
  · intro step failure recorded
    obtain ⟨error, failsWith, isFailure⟩ := failure?_step_eq_some.1 recorded
    exact ⟨⟨error, failsWith⟩, error, failsWith, isFailure⟩

/-! ## Forgiving stores -/

theorem rows_forgiving (step : Step) (limit : Option Duration) :
    step.rows store.forgiving limit = step.rows store limit := by
  unfold Step.rows Step.answer
  cases step.query with
  | error refused => rfl
  | ok query =>
      simp only [Except.bind, Store.forgiving]
      cases store.answer limit query with
      | ok rows => rfl
      | error refused => rfl

theorem outcome_forgiving :
    rule.outcome settings store.forgiving = rule.outcome settings store := by
  have sameRows : Step.rows store.forgiving settings.limit = Step.rows store settings.limit :=
    funext fun step => rows_forgiving step settings.limit
  rw [outcome, outcome, found, found, sameRows]

/-! ## Evaluation -/

/-- The rule comes to what its steps find over the store, and fails where they fail. -/
structure EvaluatesExactly (settings : Settings) (store : Store) (rule : Rule) : Prop where
  /-- An instance is seen, and for every definition some class has a row that tells its value. -/
  instances : ∀ equipment,
    equipment ∈ (rule.outcome settings store).instances ↔
      rule.Sees settings store equipment ∧
      ∀ definition ∈ rule.definitions, rule.Tells settings store equipment definition
  names : ∀ equipment binding,
    (rule.outcome settings store).binding? equipment = some binding →
      ∀ name, binding.contains name = true ↔ name = Query.root ∨ name ∈ rule.variableNames
  root : ∀ equipment binding,
    (rule.outcome settings store).binding? equipment = some binding →
      binding.root? = some equipment
  /-- Of the rows that tell a value, class after class, the last one's is kept. -/
  values : ∀ equipment binding,
    (rule.outcome settings store).binding? equipment = some binding →
      ∀ definition ∈ rule.definitions, ∃ row,
        (rowsTelling equipment definition.variableName
          (definition.rows settings store rule.applicability)).getLast? = some row ∧
        binding.get? definition.variableName = row[definition.variableName]?
  /-- The subtraction that counts what is discarded loses nothing. -/
  counted : (rule.outcome settings store).instances.size ≤ (rule.found settings store).size
  discarded :
    {equipment | rule.Sees settings store equipment ∧
      equipment ∉ (rule.outcome settings store).instances}.encard =
        (rule.outcome settings store).discarded
  failures :
    List.Forall₂
      (fun step failure => ∃ error, step.2.FailsWith settings store step.1 error ∧
        failure = rule.failureAt step.1 step.2 error)
      (rule.failingSteps settings store) (rule.failures settings store)
  forgiving : rule.outcome settings store.forgiving = rule.outcome settings store

/-- A built rule is evaluated exactly over any store whose rows keep to the projection. -/
theorem evaluatesExactly (built : rule.Built) (keeps : store.KeepsToProjection settings.limit) :
    rule.EvaluatesExactly settings store where
  instances _ := mem_instances_iff_tells built keeps
  names equipment binding isInstance name := by
    obtain ⟨someRow, rfl, complete⟩ := getElem?_instances_eq_some.1 isInstance
    exact contains_merged_iff built keeps someRow complete
  root equipment binding isInstance := by
    obtain ⟨someRow, rfl, _⟩ := getElem?_instances_eq_some.1 isInstance
    exact root?_merged someRow
  values equipment binding isInstance definition member := by
    have bound := Std.ExtTreeMap.mem_iff_isSome_getElem?.2 (Option.isSome_of_eq_some isInstance)
    obtain ⟨_, told⟩ := (mem_instances_iff_tells built keeps).1 bound
    obtain ⟨_, rfl, _⟩ := getElem?_instances_eq_some.1 isInstance
    exact get?_merged_eq_last_of_tells built keeps member (told definition member)
  counted := size_instances_le
  discarded := encard_discarded
  failures := forall₂_failures
  forgiving := outcome_forgiving

/-- A store that refuses all queries for air handlers. For other classes one unit has two values, of
another no value is known, and one value belongs to no unit. -/
def patchyStore : Store where
  answer _ query :=
    if query.className = Namespace.brick.iri "AHU" then
      .error (.of (.queryRejected "store unavailable"))
    else
      let about (unit : String) : Row := (∅ : Row).insert Query.root (.blank unit)
      .ok [(about "a").insert query.target (.blank "first"), about "b",
        (about "a").insert query.target (.blank "last"),
        (∅ : Row).insert query.target (.blank "stray")]

theorem keepsToProjection_patchyStore (limit : Option Duration) :
    patchyStore.KeepsToProjection limit := by
  intro query rows answered row member name bound
  simp only [patchyStore] at answered
  split at answered
  next => contradiction
  next =>
    obtain rfl := Except.ok.inj answered
    simp only [List.mem_cons, List.not_mem_nil, or_false] at member
    have named : Query.root = name ∨ query.target = name := by
      rcases member with rfl | rfl | rfl | rfl <;>
        simp only [Std.ExtTreeMap.mem_insert, Std.LawfulEqCmp.compare_eq_iff_eq,
          Std.ExtTreeMap.not_mem_empty, or_false] at bound <;> grind
    rw [Query.projection, List.mem_cons, List.mem_singleton]
    exact named.imp Eq.symm Eq.symm

/-- Its first class has no well-formed name. -/
def sensorsRule : Rule :=
  ((((new "sensors").appliesTo "no name").appliesTo "AHU").appliesTo "VAV").define "flow"
    (.leaf "Air_Flow_Sensor") |>.define "temp" (.leaf "Temperature_Sensor")

theorem evaluatesExactly_of_patchyStore :
    sensorsRule.Built ∧ patchyStore.KeepsToProjection Settings.default.limit ∧
    (sensorsRule.outcome .default patchyStore).size = 1 ∧
    (sensorsRule.outcome .default patchyStore).discarded = 1 ∧
    (sensorsRule.failures .default patchyStore).map (·.error) =
      [⟨.malformedIdentifier "no name" "applicability",
          some ⟨some "sensors", some "no name", some "flow"⟩⟩,
        ⟨.malformedIdentifier "no name" "applicability",
          some ⟨some "sensors", some "no name", some "temp"⟩⟩,
        ⟨.queryRejected "store unavailable", some ⟨some "sensors", some "AHU", some "flow"⟩⟩,
        ⟨.queryRejected "store unavailable", some ⟨some "sensors", some "AHU", some "temp"⟩⟩] ∧
    sensorsRule.EvaluatesExactly .default patchyStore := by
  have built : sensorsRule.Built :=
    .define _ _ (.define _ _ (.appliesTo _ (.appliesTo _ (.appliesTo _ (.new _)))))
  have keeps := keepsToProjection_patchyStore Settings.default.limit
  refine ⟨built, keeps, ?_, ?_, ?_, evaluatesExactly built keeps⟩
  · decide +kernel
  · decide +kernel
  · decide +kernel

end Rule

end BuildingRules
