import BuildingRules.Rule.Document
import Mathlib.Data.List.Induction
import Mathlib.Data.List.Nodup

/-!
# Rules that are built

A rule is built from one that defines nothing by naming classes and defining variables. Its
variables are distinct, since a definition takes the place of an earlier one: `Built.distinct`.
The rules of a document are built: `built_of_ofJson`. The rules of a book have distinct names,
however it was built: `RuleBook.Built.distinct`.
-/

set_option autoImplicit false

namespace BuildingRules

namespace Rule

def variableNames (rule : Rule) : List String := rule.definitions.map (·.variableName)

/-- The rule was made by naming classes and defining variables one after the other. -/
inductive Built : Rule → Prop
  | new (name : String) : Built (.new name)
  | appliesTo {rule : Rule} (className : String) : Built rule → Built (rule.appliesTo className)
  | define {rule : Rule} (variableName : String) (pattern : Pattern) :
      Built rule → Built (rule.define variableName pattern)

theorem definitions_appliesTo (rule : Rule) (className : String) :
    (rule.appliesTo className).definitions = rule.definitions := by
  unfold appliesTo
  split <;> rfl

/-- What is listed again keeps its first place, and what is new comes last. -/
theorem eraseDups_concat (listed : List String) (name : String) :
    (listed ++ [name]).eraseDups =
      if name ∈ listed then listed.eraseDups else listed.eraseDups ++ [name] := by
  rw [List.eraseDups_append, List.removeAll]
  by_cases isListed : name ∈ listed
  · simp [isListed]
  · simp [isListed, List.eraseDups_cons]

theorem nodup_eraseDups (listed : List String) : listed.eraseDups.Nodup := by
  induction listed using List.reverseRecOn with
  | nil => exact List.nodup_nil
  | append_singleton others name inductionHypothesis =>
      rw [eraseDups_concat]
      split
      next => exact inductionHypothesis
      next isNew =>
        rw [← List.concat_eq_append]
        exact inductionHypothesis.concat fun isListed => isNew (List.mem_eraseDups.1 isListed)

theorem applicability_appliesTo (rule : Rule) (className : String) :
    (rule.appliesTo className).applicability =
      if className ∈ rule.applicability then rule.applicability
      else rule.applicability ++ [className] := by
  rw [appliesTo, List.contains_eq_mem]
  split <;> simp_all

/-- A class that is named again keeps its first place. -/
theorem foldl_appliesTo_new (name : String) (classes : List String) :
    classes.foldl appliesTo (new name) = ⟨name, classes.eraseDups, []⟩ := by
  induction classes using List.reverseRecOn with
  | nil => rfl
  | append_singleton others className inductionHypothesis =>
      rw [List.foldl_append, inductionHypothesis, List.foldl_cons, List.foldl_nil, appliesTo,
        eraseDups_concat]
      by_cases named : className ∈ others <;> simp [named]

/-- A variable keeps its place when it is defined anew, and comes last when it is new. -/
theorem variableNames_replaceDefinition (definition : Definition) (definitions : List Definition) :
    (replaceDefinition definition definitions).map (·.variableName) =
      if definition.variableName ∈ definitions.map (·.variableName) then
        definitions.map (·.variableName)
      else definitions.map (·.variableName) ++ [definition.variableName] := by
  induction definitions with
  | nil => rfl
  | cons first rest inductionHypothesis =>
      rw [replaceDefinition]
      by_cases same : first.variableName = definition.variableName
      · simp [same]
      · rw [if_neg (by simpa using same), List.map_cons, inductionHypothesis]
        simp only [List.map_cons, List.mem_cons, Ne.symm same, false_or]
        split <;> rfl

theorem replaceDefinition_of_new {definition : Definition} {definitions : List Definition}
    (isNew : definition.variableName ∉ definitions.map (·.variableName)) :
    replaceDefinition definition definitions = definitions ++ [definition] := by
  induction definitions with
  | nil => rfl
  | cons first rest inductionHypothesis =>
      rw [List.map_cons, List.mem_cons, not_or] at isNew
      rw [replaceDefinition, if_neg (by simpa using Ne.symm isNew.1),
        inductionHypothesis isNew.2, List.cons_append]

theorem Built.distinct {rule : Rule} (built : rule.Built) : rule.variableNames.Nodup := by
  induction built with
  | new name => exact List.nodup_nil
  | appliesTo className _ inductionHypothesis =>
      rwa [variableNames, definitions_appliesTo]
  | @define rule variableName pattern _ inductionHypothesis =>
      rw [variableNames, Rule.define, variableNames_replaceDefinition]
      split
      next => exact inductionHypothesis
      next isNew =>
        rw [← List.concat_eq_append]
        exact List.Nodup.concat isNew inductionHypothesis

theorem Built.definition_unique {rule : Rule} (built : rule.Built) {left right : Definition}
    (leftMember : left ∈ rule.definitions) (rightMember : right ∈ rule.definitions)
    (same : left.variableName = right.variableName) : left = right :=
  List.inj_on_of_nodup_map built.distinct leftMember rightMember same

theorem built_foldl_appliesTo (classNames : List String) {rule : Rule} (built : rule.Built) :
    (classNames.foldl Rule.appliesTo rule).Built := by
  induction classNames generalizing rule with
  | nil => exact built
  | cons className rest inductionHypothesis => exact inductionHypothesis (built.appliesTo className)

end Rule

namespace RuleDocument

/-! ## Documents -/

theorem built_of_defineAll {entries : List (String × Json)} {rule result : Rule}
    (built : rule.Built) (defined : defineAll rule entries = .ok result) : result.Built := by
  induction entries generalizing rule with
  | nil =>
      obtain rfl := Except.ok.inj defined
      exact built
  | cons entry rest inductionHypothesis =>
      rw [defineAll] at defined
      split at defined
      next pattern _ => exact inductionHypothesis (built.define entry.1 pattern) defined
      next => contradiction

theorem built_of_rule {name : String} {value : Json} {result : Rule}
    (read : rule name value = .ok (.ok result)) : result.Built := by
  unfold rule at read
  split at read
  next fields =>
    obtain ⟨classes, _, read⟩ := bind_eq_ok.1 read
    obtain ⟨entries, _, read⟩ := bind_eq_ok.1 read
    exact built_of_defineAll (Rule.built_foldl_appliesTo classes (.new name)) (Except.ok.inj read)
  next => contradiction

theorem rules_of_insert {book result : RuleBook} {rule : Rule}
    (inserted : book.insert rule = .ok result) : result.rules = book.rules ++ [rule] := by
  unfold RuleBook.insert at inserted
  split at inserted
  next => contradiction
  next =>
    obtain rfl := Except.ok.inj inserted
    rfl

theorem insert_of_new {book : RuleBook} {rule : Rule}
    (isNew : rule.name ∉ book.rules.map (·.name)) :
    book.insert rule = .ok ⟨book.rules ++ [rule]⟩ := by
  have absent : book.get? rule.name = none := by
    refine List.find?_eq_none.2 fun other listed same => isNew ?_
    exact List.mem_map.2 ⟨other, listed, beq_iff_eq.1 same⟩
  rw [RuleBook.insert, absent]
  rfl

theorem built_of_addEntries {entries : List (String × Json)} {document result : RuleDocument}
    (allBuilt : ∀ rule ∈ document.book.rules, rule.Built)
    (added : addEntries document entries = .ok result) : ∀ rule ∈ result.book.rules, rule.Built := by
  induction entries generalizing document with
  | nil =>
      obtain rfl := Except.ok.inj added
      exact allBuilt
  | cons entry rest inductionHypothesis =>
      rw [addEntries] at added
      obtain ⟨read, isRead, added⟩ := bind_eq_ok.1 added
      cases read with
      | ok rule =>
          obtain ⟨book, inserted, added⟩ := bind_eq_ok.1 added
          apply inductionHypothesis _ added
          rw [rules_of_insert inserted]
          exact List.forall_mem_append.2 ⟨allBuilt, by simpa using built_of_rule isRead⟩
      | error refusal => exact inductionHypothesis (by exact allBuilt) added

/-- The rules of a document are built. -/
theorem built_of_ofJson {value : Json} {document : RuleDocument}
    (read : ofJson value = .ok document) : ∀ rule ∈ document.book.rules, rule.Built := by
  unfold ofJson at read
  split at read
  next entries => exact built_of_addEntries (by simp [empty, RuleBook.empty]) read
  next => contradiction

end RuleDocument

/-! ## Books -/

namespace RuleBook

/-- The book was made by inserting rules and by putting rules in the place of others. -/
inductive Built : RuleBook → Prop
  | empty : Built .empty
  | insert {book result : RuleBook} {rule : Rule} : Built book → book.insert rule = .ok result →
      Built result
  | withRule {book : RuleBook} (rule : Rule) : Built book → Built (book.withRule rule)

theorem insert_of_present {book : RuleBook} {rule : Rule}
    (listed : rule.name ∈ book.rules.map (·.name)) :
    book.insert rule = .error (Fault.duplicateName.inRule rule.name) := by
  obtain ⟨other, isListed, same⟩ := List.mem_map.1 listed
  have present : (book.get? rule.name).isSome = true :=
    List.find?_isSome.2 ⟨other, isListed, beq_iff_eq.2 same⟩
  rw [RuleBook.insert, if_pos present]

theorem new_of_insert {book result : RuleBook} {rule : Rule}
    (inserted : book.insert rule = .ok result) : rule.name ∉ book.rules.map (·.name) := by
  intro listed
  rw [insert_of_present listed] at inserted
  contradiction

theorem nodup_names_of_moved {rules : List Rule} (rule : Rule)
    (distinct : (rules.map (·.name)).Nodup) :
    ((rules.filter (·.name != rule.name) ++ [rule]).map (·.name)).Nodup := by
  rw [List.map_append, List.map_singleton, ← List.concat_eq_append]
  refine List.Nodup.concat (fun listed => ?_) (distinct.sublist (List.filter_sublist.map _))
  obtain ⟨other, kept, same⟩ := List.mem_map.1 listed
  simp [same] at kept

theorem Built.distinct {book : RuleBook} (built : book.Built) :
    (book.rules.map (·.name)).Nodup := by
  induction built with
  | empty => exact List.nodup_nil
  | insert _ inserted inductionHypothesis =>
      rw [RuleDocument.rules_of_insert inserted, List.map_append, List.map_singleton,
        ← List.concat_eq_append]
      exact List.Nodup.concat (new_of_insert inserted) inductionHypothesis
  | withRule rule _ inductionHypothesis => exact nodup_names_of_moved rule inductionHypothesis

end RuleBook

end BuildingRules
