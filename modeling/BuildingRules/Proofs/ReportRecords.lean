import BuildingRules.Evaluation.Run
import BuildingRules.Proofs.AnyStore
import BuildingRules.Proofs.IndexedGroupings
import BuildingRules.Proofs.ReportSections

/-!
# Records of a report

The rules of a book have distinct names, so a report lists an equipment once for each rule that it
satisfies. If no two shapes are written alike, it lists a node once for each shape that it failed.
Then each rule and each shape has one heading, with all its records under it: `losesNothing`.
-/

set_option autoImplicit false

namespace BuildingRules

/-! ## Outcomes of a run -/

/-- What the outcome of a rule tells, whatever the store said. -/
structure Outcome.IsOf (settings : Settings) (rule : Rule) (outcome : Outcome) : Prop where
  ruleName : outcome.ruleName = rule.name
  ruleIri : outcome.ruleIri = settings.ruleIri rule.name
  complete : ∀ equipment binding, outcome.binding? equipment = some binding →
    binding.size = rule.expectedSize

theorem Rule.outcomeOf_isOf (settings : Settings) (rule : Rule) (found : Found) :
    (rule.outcomeOf settings found).IsOf settings rule where
  ruleName := rfl
  ruleIri := rfl
  complete equipment binding has := by
    rw [Outcome.binding?, outcomeOf, Std.ExtTreeMap.getElem?_filter',
      Option.filter_eq_some_iff] at has
    exact beq_iff_eq.1 has.2

namespace Run

variable {Memory : Type}

theorem exists_outcomes (settings : Settings) (service : Service Memory) (rules : List Rule)
    (state : List Outcome × Run Memory) :
    ∃ outcomes, (rules.foldl (takeRule settings service) state).1 = state.1 ++ outcomes ∧
      List.Forall₂ (Outcome.IsOf settings) rules outcomes := by
  induction rules generalizing state with
  | nil => exact ⟨[], (List.append_nil _).symm, .nil⟩
  | cons rule rest inductionHypothesis =>
    obtain ⟨outcomes, taken, areOf⟩ := inductionHypothesis (takeRule settings service state rule)
    rw [List.foldl_cons, taken, takeRule, List.append_assoc]
    exact ⟨_, rfl, .cons (rule.outcomeOf_isOf settings _) areOf⟩

/-- Each rule comes to one outcome, in the order of the rules. -/
theorem forall₂_outcomes (settings : Settings) (service : Service Memory) (memory : Memory)
    (document : RuleDocument) :
    List.Forall₂ (Outcome.IsOf settings) document.book.rules
      (ofDocument settings service memory document).outcomes := by
  obtain ⟨outcomes, taken, areOf⟩ :=
    exists_outcomes settings service document.book.rules ([], start memory)
  have isTaken : (ofDocument settings service memory document).outcomes = outcomes := taken
  rwa [isTaken]

end Run

theorem map_ruleIri {settings : Settings} {rules : List Rule} {outcomes : List Outcome}
    (areOf : List.Forall₂ (Outcome.IsOf settings) rules outcomes) :
    outcomes.map (·.ruleIri) = (rules.map (·.name)).map settings.ruleIri := by
  induction areOf with
  | nil => rfl
  | cons isOf _ inductionHypothesis =>
    rw [List.map_cons, isOf.ruleIri, inductionHypothesis, List.map_cons, List.map_cons]

theorem nodup_ruleIris (settings : Settings) {names : List String} (distinct : names.Nodup) :
    (names.map settings.ruleIri).Nodup :=
  distinct.map fun left right same => by simpa [Settings.ruleIri] using same

/-! ## Places of records -/

/-- By the place of the rule, and then by the node. -/
def Record.order (rules : List String) (left right : Record) : Ordering :=
  compareLex (compareOn fun record => rules.idxOf record.rule) (compareOn Record.focus) left right

theorem Record.order_eq_lt {rules : List String} {left right : Record} :
    Record.order rules left right = .lt ↔
      rules.idxOf left.rule < rules.idxOf right.rule ∨
        rules.idxOf left.rule = rules.idxOf right.rule ∧ compare left.focus right.focus = .lt := by
  simp only [Record.order, compareLex, compareOn, Ordering.then_eq_lt, Nat.compare_eq_lt,
    Nat.compare_eq_eq]

theorem pairwise_idxOf {names : List String} (distinct : names.Nodup) :
    names.Pairwise fun earlier later => names.idxOf earlier < names.idxOf later := by
  refine List.pairwise_iff_getElem.2 fun early late isEarly isLate isBefore => ?_
  rwa [distinct.idxOf_getElem, distinct.idxOf_getElem]

/-- The records are of one kind, of one rule or shape and about one node. -/
def Record.Coincides (left right : Record) : Prop :=
  left.isSuccess = right.isSuccess ∧ left.rule = right.rule ∧ left.focus = right.focus

namespace Report

/-! ## Successes -/

theorem mem_successesOf {outcome : Outcome} {record : Record} :
    record ∈ successesOf outcome ↔ ∃ binding, outcome.binding? record.focus = some binding ∧
      record = ⟨outcome.ruleIri, record.focus, .found binding⟩ := by
  simp only [successesOf, List.mem_map, Prod.exists,
    Std.ExtTreeMap.mem_toList_iff_getElem?_eq_some, Outcome.binding?]
  constructor
  · intro found
    obtain ⟨focus, binding, has, rfl⟩ := found
    exact ⟨binding, has, rfl⟩
  · intro found
    obtain ⟨binding, has, isRecord⟩ := found
    exact ⟨record.focus, binding, has, isRecord.symm⟩

theorem rule_of_mem_successesOf {outcome : Outcome} {record : Record}
    (listed : record ∈ successesOf outcome) : record.rule = outcome.ruleIri := by
  obtain ⟨_, _, isRecord⟩ := mem_successesOf.1 listed
  rw [isRecord]

theorem isSuccess_of_mem_successesOf {outcome : Outcome} {record : Record}
    (listed : record ∈ successesOf outcome) : record.isSuccess = true := by
  obtain ⟨_, _, isRecord⟩ := mem_successesOf.1 listed
  rw [isRecord]
  rfl

variable {outcomes : List Outcome} {grouping : Grouping}

theorem successes_build : (build outcomes grouping).successes = outcomes.flatMap successesOf := by
  have none : (grouping.groups.map failureOf).filter (·.isSuccess) = [] := by
    simp [Record.isSuccess, failureOf]
  rw [successes, build, List.filter_append, none, List.append_nil, List.filter_eq_self]
  intro record listed
  obtain ⟨_, _, inOutcome⟩ := List.mem_flatMap.1 listed
  exact isSuccess_of_mem_successesOf inOutcome

theorem failures_build : (build outcomes grouping).failures = grouping.groups.map failureOf := by
  have none : (outcomes.flatMap successesOf).filter (!·.isSuccess) = [] := by
    refine List.filter_eq_nil_iff.2 fun record listed => ?_
    obtain ⟨_, _, inOutcome⟩ := List.mem_flatMap.1 listed
    simp [isSuccess_of_mem_successesOf inOutcome]
  rw [failures, build, List.filter_append, none, List.nil_append, List.filter_eq_self]
  simp [Record.isSuccess, failureOf]

theorem clustered_successes (distinct : (outcomes.map (·.ruleIri)).Nodup) :
    Clustered ((outcomes.flatMap successesOf).map (·.rule)) := by
  rw [List.map_flatMap]
  refine clustered_flatMap distinct fun outcome _ rule listed => ?_
  obtain ⟨record, inOutcome, rfl⟩ := List.mem_map.1 listed
  exact rule_of_mem_successesOf inOutcome

theorem ascending_successes (distinct : (outcomes.map (·.ruleIri)).Nodup) :
    Ascending (Record.order (outcomes.map (·.ruleIri))) (outcomes.flatMap successesOf) := by
  refine List.pairwise_flatMap.2 ⟨fun outcome _ => ?_, ?_⟩
  · refine List.pairwise_map.2 (Std.ExtTreeMap.ordered_keys_toList.imp fun isBefore => ?_)
    exact Record.order_eq_lt.2 (.inr ⟨rfl, isBefore⟩)
  · refine (List.pairwise_map.1 (pairwise_idxOf distinct)).imp ?_
    intro earlier later isBefore left inEarlier right inLater
    rw [Record.order_eq_lt, rule_of_mem_successesOf inEarlier, rule_of_mem_successesOf inLater]
    exact .inl isBefore

/-! ## Failures -/

theorem clustered_failures (writtenApart : (grouping.shapes.map Term.display).Nodup) :
    Clustered ((grouping.groups.map failureOf).map (·.rule)) := by
  rw [Grouping.groups, List.map_flatMap, List.map_flatMap]
  refine clustered_flatMap writtenApart fun shape _ rule listed => ?_
  simp only [List.map_map, List.mem_map, Function.comp_apply, failureOf] at listed
  obtain ⟨_, _, isShape⟩ := listed
  exact isShape.symm

/-- The groups of the attributions: one for each shape and each node that failed it, with every
reason once. -/
structure ListsGroups (attributions : List Attribution) (groups : List Group) : Prop where
  ascending : Ascending Group.order groups
  listed : ∀ shape focus, (∃ group ∈ groups, group.shape = shape ∧ group.focus = focus) ↔
    ∃ reason, ⟨shape, focus, reason⟩ ∈ attributions
  reasons : ∀ group ∈ groups, Ascending compare group.reasons ∧
    ∀ reason, reason ∈ group.reasons ↔ ⟨group.shape, group.focus, reason⟩ ∈ attributions

variable {attributions : List Attribution}

theorem mem_toGrouping_ofList {attribution : Attribution} :
    attribution ∈ (IndexedGrouping.ofList attributions).toGrouping.attributions ↔
      attribution ∈ attributions := by
  rw [← (IndexedGrouping.noneEmpty_ofList attributions).describes_toGrouping.holds,
    IndexedGrouping.holds_ofList]

theorem listsGroups_ofList :
    ListsGroups attributions (IndexedGrouping.ofList attributions).toGrouping.groups where
  ascending := Grouping.ascending_groups _
  listed shape focus := by
    simp only [Grouping.mem_groups, mem_toGrouping_ofList]
    constructor
    · intro found
      obtain ⟨group, ⟨⟨attribution, member, sameShape, sameFocus⟩, _⟩, rfl, rfl⟩ := found
      rw [← sameShape, ← sameFocus]
      exact ⟨attribution.reason, member⟩
    · intro found
      obtain ⟨reason, member⟩ := found
      let group : Group :=
        ⟨shape, focus, (IndexedGrouping.ofList attributions).toGrouping.reasons shape focus⟩
      exact ⟨group, ⟨⟨_, member, rfl, rfl⟩, rfl⟩, rfl, rfl⟩
  reasons group inGroups := by
    obtain ⟨_, isReasons⟩ := Grouping.mem_groups.1 inGroups
    rw [isReasons]
    refine ⟨Grouping.ascending_reasons _ _ _, fun reason => ?_⟩
    rw [Grouping.mem_reasons, mem_toGrouping_ofList]

/-- No two shapes are written alike. -/
def WritesShapesApart (attributions : List Attribution) : Prop :=
  ∀ left ∈ attributions, ∀ right ∈ attributions, left.shape.display = right.shape.display →
    left.shape = right.shape

theorem WritesShapesApart.eq_of_mem_shapes (writesApart : WritesShapesApart attributions)
    {left right : Term} (isLeft : left ∈ (IndexedGrouping.ofList attributions).toGrouping.shapes)
    (isRight : right ∈ (IndexedGrouping.ofList attributions).toGrouping.shapes)
    (same : left.display = right.display) : left = right := by
  simp only [Grouping.mem_shapes, mem_toGrouping_ofList] at isLeft isRight
  obtain ⟨leftAttribution, inLeft, rfl⟩ := isLeft
  obtain ⟨rightAttribution, inRight, rfl⟩ := isRight
  exact writesApart _ inLeft _ inRight same

theorem WritesShapesApart.nodup_shapes (writesApart : WritesShapesApart attributions) :
    ((IndexedGrouping.ofList attributions).toGrouping.shapes.map Term.display).Nodup := by
  have ascending : Ascending compare (IndexedGrouping.ofList attributions).toGrouping.shapes :=
    Std.ExtTreeSet.ordered_toList
  exact List.Nodup.map_on (fun _ isLeft _ isRight => writesApart.eq_of_mem_shapes isLeft isRight)
    ascending.nodup

/-! ## No record twice -/

theorem pairwise_successes (distinct : (outcomes.map (·.ruleIri)).Nodup) :
    (outcomes.flatMap successesOf).Pairwise fun left right => ¬Record.Coincides left right := by
  refine (ascending_successes distinct).imp fun {left right} isBefore coincides => ?_
  obtain ⟨_, sameRule, sameFocus⟩ := coincides
  rw [Record.order_eq_lt, sameRule, sameFocus] at isBefore
  simp at isBefore

theorem pairwise_failures (writesApart : WritesShapesApart attributions) :
    ((IndexedGrouping.ofList attributions).toGrouping.groups.map failureOf).Pairwise
      fun left right => ¬Record.Coincides left right := by
  refine List.pairwise_map.2 (listsGroups_ofList.ascending.imp_of_mem ?_)
  intro left right inLeft inRight isBefore coincides
  obtain ⟨_, sameRule, sameFocus⟩ := coincides
  have sameShape : left.shape = right.shape :=
    writesApart.eq_of_mem_shapes (Grouping.shape_mem_of_mem_groups inLeft)
      (Grouping.shape_mem_of_mem_groups inRight) sameRule
  rw [Group.order_eq_lt, sameShape, show left.focus = right.focus from sameFocus] at isBefore
  simp at isBefore

theorem pairwise_records (distinct : (outcomes.map (·.ruleIri)).Nodup)
    (writesApart : WritesShapesApart attributions) :
    (build outcomes (IndexedGrouping.ofList attributions).toGrouping).records.Pairwise
      fun left right => ¬Record.Coincides left right := by
  refine List.pairwise_append.2
    ⟨pairwise_successes distinct, pairwise_failures writesApart, fun left inLeft right inRight => ?_⟩
  rintro ⟨sameKind, -, -⟩
  obtain ⟨_, _, inOutcome⟩ := List.mem_flatMap.1 inLeft
  obtain ⟨_, _, rfl⟩ := List.mem_map.1 inRight
  rw [isSuccess_of_mem_successesOf inOutcome] at sameKind
  exact Bool.noConfusion sameKind

/-! ## The whole report -/

/-- What a report says of the outcomes of rules and of the attributions of a grouping. -/
structure LosesNothing (settings : Settings) (rules : List Rule) (outcomes : List Outcome)
    (attributions : List Attribution) (report : Report) : Prop where
  /-- There is an outcome for each rule, in the order of the rules. -/
  ofRules : List.Forall₂ (Outcome.IsOf settings) rules outcomes
  records : report.records = report.successes ++ report.failures
  success : ∀ record, record ∈ report.successes ↔ ∃ outcome ∈ outcomes, ∃ binding,
    outcome.binding? record.focus = some binding ∧
      record = ⟨outcome.ruleIri, record.focus, .found binding⟩
  ascending : Ascending (Record.order ((rules.map (·.name)).map settings.ruleIri)) report.successes
  groups : ListsGroups attributions (IndexedGrouping.ofList attributions).groups
  failures : report.failures = (IndexedGrouping.ofList attributions).groups.map fun group =>
    ⟨group.shape.display, group.focus, .failed group.reasons⟩
  unrepeated : report.records.Pairwise fun left right => ¬Record.Coincides left right
  markdown : report.markdown = report.groupedMarkdown

theorem losesNothing (settings : Settings) {Memory : Type} (service : Service Memory)
    (memory : Memory) (document : RuleDocument) (built : document.book.Built)
    {attributions : List Attribution} (writesApart : WritesShapesApart attributions) :
    LosesNothing settings document.book.rules
      (Run.ofDocument settings service memory document).outcomes attributions
      (.build (Run.ofDocument settings service memory document).outcomes
        (IndexedGrouping.ofList attributions).toGrouping) := by
  have areOf := Run.forall₂_outcomes settings service memory document
  generalize (Run.ofDocument settings service memory document).outcomes = outcomes at areOf ⊢
  have sameGroups : (IndexedGrouping.ofList attributions).groups =
      (IndexedGrouping.ofList attributions).toGrouping.groups :=
    (IndexedGrouping.noneEmpty_ofList attributions).describes_toGrouping.groups_eq
  have isNodup := nodup_ruleIris settings built.distinct
  rw [← map_ruleIri areOf] at isNodup
  refine
    { ofRules := areOf
      records := by rw [successes_build, failures_build, build]
      success := fun record => by
        rw [successes_build, List.mem_flatMap]
        simp only [mem_successesOf]
      ascending := by
        rw [successes_build, ← map_ruleIri areOf]
        exact ascending_successes isNodup
      groups := by
        rw [sameGroups]
        exact listsGroups_ofList
      failures := by
        rw [failures_build, sameGroups]
        rfl
      unrepeated := pairwise_records isNodup writesApart
      markdown := markdown_of_clustered ?_ ?_ }
  · rw [successes_build]
    exact clustered_successes isNodup
  · rw [failures_build]
    exact clustered_failures writesApart.nodup_shapes

/-- Two rules that say the same under different names. -/
def sensorsDocument : RuleDocument where
  book := (RuleBook.empty.withRule Rule.sensorsRule).withRule { Rule.sensorsRule with name := "again" }
  rejected := []

/-- One node failed two shapes, one of them for two reasons, one of which is told twice; another
node failed that shape too. -/
def failedTwice : List Attribution :=
  [⟨.blank "shape", .blank "unit", "no sensor"⟩, ⟨.iri ⟨"urn:shape"⟩, .blank "unit", "no command"⟩,
    ⟨.blank "shape", .blank "unit", "no sensor"⟩, ⟨.blank "shape", .blank "unit", "no command"⟩,
    ⟨.blank "shape", .iri ⟨"urn:room"⟩, "no zone"⟩]

/-- The lines of the report on these rules and nodes. -/
def sensorsText : List String :=
  ["# Rule Application Report",
    "",
    "## Satisfied rules",
    "",
    "### urn:rules_manifest/sensors",
    "",
    "- `_:a`: \x7b?flow: _:last, ?root: _:a, ?temp: _:last\x7d",
    "",
    "### urn:rules_manifest/again",
    "",
    "- `_:a`: \x7b?flow: _:last, ?root: _:a, ?temp: _:last\x7d",
    "",
    "## Validation failures",
    "",
    "### urn:shape",
    "",
    "- `_:unit`",
    "  - no command",
    "",
    "### _:shape",
    "",
    "- `urn:room`",
    "  - no zone",
    "- `_:unit`",
    "  - no command",
    "  - no sensor"]

theorem losesNothing_of_sensorsDocument :
    sensorsDocument.book.Built ∧ WritesShapesApart failedTwice ∧
    LosesNothing .default sensorsDocument.book.rules
      (Run.ofDocument .default Rule.patchyStore.service () sensorsDocument).outcomes failedTwice
      (.build (Run.ofDocument .default Rule.patchyStore.service () sensorsDocument).outcomes
        (IndexedGrouping.ofList failedTwice).toGrouping) ∧
    (build (Run.ofDocument .default Rule.patchyStore.service () sensorsDocument).outcomes
      (IndexedGrouping.ofList failedTwice).toGrouping).markdown =
        String.join (sensorsText.map (· ++ "\n")) := by
  have built : sensorsDocument.book.Built := .withRule _ (.withRule _ .empty)
  have writesApart : WritesShapesApart failedTwice := by
    unfold WritesShapesApart
    decide +kernel
  refine ⟨built, writesApart, ?_, ?_⟩
  · exact losesNothing .default Rule.patchyStore.service () sensorsDocument built writesApart
  · decide +kernel

end Report

end BuildingRules
