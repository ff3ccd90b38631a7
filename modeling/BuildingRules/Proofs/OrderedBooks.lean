import BuildingRules.Proofs.BuiltRules
import BuildingRules.Rule.Changes
import Mathlib.Data.List.Pairwise

/-!
# Rule books are ordered maps

However a book was built, it holds of every name the rule that was last accepted under it, in the
order in which these were accepted: `ordered`. A rule lists its classes and its variables in the
order in which they were first named, and defines a variable as it was last defined.
-/

set_option autoImplicit false

namespace BuildingRules

/-! ## Rules -/

namespace Rule

variable {rule : Rule}

theorem definition?_appliesTo (className variableName : String) :
    (rule.appliesTo className).definition? variableName = rule.definition? variableName := by
  rw [definition?, definitions_appliesTo, definition?]

theorem find?_replaceDefinition (definition : Definition) (definitions : List Definition)
    (variableName : String) :
    (replaceDefinition definition definitions).find? (·.variableName == variableName) =
      if definition.variableName = variableName then some definition
      else definitions.find? (·.variableName == variableName) := by
  induction definitions with
  | nil =>
    rw [replaceDefinition]
    by_cases asked : definition.variableName = variableName <;> simp [asked]
  | cons first rest inductionHypothesis =>
    rw [replaceDefinition]
    by_cases same : first.variableName = definition.variableName
    · by_cases asked : definition.variableName = variableName <;> simp [same, asked]
    · rw [if_neg (by simpa using same), List.find?_cons, inductionHypothesis, List.find?_cons]
      by_cases asked : first.variableName = variableName
      · have notDefined : definition.variableName ≠ variableName := fun defined =>
          same (asked.trans defined.symm)
        simp [asked, notDefined]
      · simp only [beq_false_of_ne asked]

theorem definition?_define (variableName : String) (pattern : Pattern) (asked : String) :
    (rule.define variableName pattern).definition? asked =
      if variableName = asked then some pattern else rule.definition? asked := by
  rw [definition?, define, find?_replaceDefinition]
  split <;> rfl

theorem name_add (addition : Addition) : (rule.add addition).name = rule.name := by
  cases addition with
  | appliesTo className =>
    rw [add, appliesTo]
    split <;> rfl
  | define => rfl

theorem applicability_define (variableName : String) (pattern : Pattern) :
    (rule.define variableName pattern).applicability = rule.applicability := by
  rfl

namespace Recipe

variable (name : String) (additions : List Addition) (addition : Addition)

theorem rule_concat : (Recipe.mk name (additions ++ [addition])).rule =
    (Recipe.mk name additions).rule.add addition := by
  simp only [Recipe.rule, List.foldl_append, List.foldl_cons, List.foldl_nil]

theorem classNames_concat : (Recipe.mk name (additions ++ [addition])).classNames =
    (Recipe.mk name additions).classNames ++ addition.className?.toList := by
  rw [classNames, List.filterMap_append]
  cases addition <;> rfl

theorem definitions_concat : (Recipe.mk name (additions ++ [addition])).definitions =
    (Recipe.mk name additions).definitions ++ addition.definition?.toList := by
  rw [definitions, List.filterMap_append]
  cases addition <;> rfl

/-- Each addition to a rule keeps what the additions before it have made of the rule. -/
theorem addInduction {motive : Recipe → Prop} (new : ∀ name, motive ⟨name, []⟩)
    (add : ∀ name additions addition, motive ⟨name, additions⟩ →
      motive ⟨name, additions ++ [addition]⟩) : ∀ recipe, motive recipe := by
  rintro ⟨name, additions⟩
  induction additions using List.reverseRecOn with
  | nil => exact new name
  | append_singleton others addition inductionHypothesis =>
    exact add name others addition inductionHypothesis

theorem name_rule (recipe : Recipe) : recipe.rule.name = recipe.name := by
  induction recipe using addInduction with
  | new name => rfl
  | add name additions addition inductionHypothesis => rw [rule_concat, name_add, inductionHypothesis]

theorem applicability_rule (recipe : Recipe) :
    recipe.rule.applicability = recipe.classNames.eraseDups := by
  induction recipe using addInduction with
  | new name => rfl
  | add name additions addition inductionHypothesis =>
    rw [rule_concat, classNames_concat]
    cases addition with
    | appliesTo className =>
      rw [add, applicability_appliesTo, inductionHypothesis, Addition.className?,
        Option.toList_some, eraseDups_concat]
      simp only [List.mem_eraseDups]
    | define variableName pattern =>
      rw [add, applicability_define, inductionHypothesis, Addition.className?, Option.toList_none,
        List.append_nil]

theorem variableNames_rule (recipe : Recipe) :
    recipe.rule.variableNames = (recipe.definitions.map (·.variableName)).eraseDups := by
  induction recipe using addInduction with
  | new name => rfl
  | add name additions addition inductionHypothesis =>
    rw [rule_concat, definitions_concat]
    cases addition with
    | appliesTo className =>
      rw [add, variableNames, definitions_appliesTo, ← variableNames, inductionHypothesis,
        Addition.definition?, Option.toList_none, List.append_nil]
    | define variableName pattern =>
      rw [add, variableNames, Rule.define, variableNames_replaceDefinition, ← variableNames,
        inductionHypothesis, Addition.definition?, Option.toList_some, List.map_append,
        List.map_singleton, eraseDups_concat]
      simp only [List.mem_eraseDups]

theorem definition?_rule (recipe : Recipe) (variableName : String) :
    recipe.rule.definition? variableName =
      (recipe.definitions.reverse.find? (·.variableName == variableName)).map (·.pattern) := by
  induction recipe using addInduction with
  | new name => rfl
  | add name additions addition inductionHypothesis =>
    rw [rule_concat, definitions_concat]
    cases addition with
    | appliesTo className =>
      rw [add, definition?_appliesTo, inductionHypothesis, Addition.definition?,
        Option.toList_none, List.append_nil]
    | define defined pattern =>
      rw [add, definition?_define, inductionHypothesis, Addition.definition?, Option.toList_some,
        List.reverse_append, List.reverse_singleton, List.singleton_append, List.find?_cons]
      by_cases asked : defined = variableName
      · simp [asked]
      · simp only [beq_false_of_ne asked, if_neg asked]

/-- The rule lists its classes and its variables in the order in which they were first named. -/
structure Follows (recipe : Recipe) (rule : Rule) : Prop where
  name : rule.name = recipe.name
  applicability : rule.applicability = recipe.classNames.eraseDups
  distinctClasses : rule.applicability.Nodup
  variableNames : rule.variableNames = (recipe.definitions.map (·.variableName)).eraseDups
  distinctVariables : rule.variableNames.Nodup
  /-- A variable has the pattern of its last definition. -/
  definition? : ∀ variableName, rule.definition? variableName =
    (recipe.definitions.reverse.find? (·.variableName == variableName)).map (·.pattern)
  expectedSize : rule.expectedSize = rule.variableNames.length + 1

theorem follows_rule (recipe : Recipe) : recipe.Follows recipe.rule where
  name := name_rule recipe
  applicability := applicability_rule recipe
  distinctClasses := applicability_rule recipe ▸ nodup_eraseDups _
  variableNames := variableNames_rule recipe
  distinctVariables := variableNames_rule recipe ▸ nodup_eraseDups _
  definition? := definition?_rule recipe
  expectedSize := by rw [Rule.expectedSize, Rule.variableNames, List.length_map]

end Recipe

end Rule

/-! ## Books -/

namespace RuleBook

/-- Of each name the last rule, in the order of these. -/
def lastOfEach : List Rule → List Rule
  | [] => []
  | rule :: rest =>
    if rule.name ∈ rest.map (·.name) then lastOfEach rest else rule :: lastOfEach rest

/-- One more rule takes the place of an earlier one of its name, and comes last. -/
theorem lastOfEach_concat (rules : List Rule) (rule : Rule) :
    lastOfEach (rules ++ [rule]) = (lastOfEach rules).filter (·.name != rule.name) ++ [rule] := by
  induction rules with
  | nil => simp [lastOfEach]
  | cons first rest inductionHypothesis =>
    have named : first.name ∈ (rest ++ [rule]).map (·.name) ↔
        first.name ∈ rest.map (·.name) ∨ first.name = rule.name := by
      rw [List.map_append, List.mem_append, List.map_singleton, List.mem_singleton]
    rw [List.cons_append, lastOfEach, inductionHypothesis, lastOfEach]
    by_cases isLater : first.name ∈ rest.map (·.name)
    · rw [if_pos (named.2 (.inl isLater)), if_pos isLater]
    · by_cases same : first.name = rule.name
      · rw [if_pos (named.2 (.inr same)), if_neg isLater,
          List.filter_cons_of_neg (by simp [same])]
      · rw [if_neg (mt named.1 (not_or.2 ⟨isLater, same⟩)), if_neg isLater,
          List.filter_cons_of_pos (by simp [same]), List.cons_append]

theorem nodup_lastOfEach (rules : List Rule) : ((lastOfEach rules).map (·.name)).Nodup := by
  induction rules using List.reverseRecOn with
  | nil => exact List.nodup_nil
  | append_singleton others rule inductionHypothesis =>
    rw [lastOfEach_concat]
    exact nodup_names_of_moved rule inductionHypothesis

theorem find?_filter_name (rules : List Rule) (dropped name : String) :
    (rules.filter (·.name != dropped)).find? (·.name == name) =
      if dropped = name then none else rules.find? (·.name == name) := by
  rw [List.find?_filter]
  split
  next same => simp [same]
  next differs =>
    congr 1
    funext rule
    by_cases asked : rule.name = name
    · simp [asked, Ne.symm differs]
    · simp [asked]

/-- Under a name stands the rule that comes last. -/
theorem find?_lastOfEach (rules : List Rule) (name : String) :
    (lastOfEach rules).find? (·.name == name) = rules.reverse.find? (·.name == name) := by
  induction rules using List.reverseRecOn with
  | nil => rfl
  | append_singleton others rule inductionHypothesis =>
    rw [lastOfEach_concat, List.find?_append, find?_filter_name, List.reverse_append,
      List.reverse_singleton, List.singleton_append, List.find?_cons, List.find?_cons,
      inductionHypothesis]
    by_cases asked : rule.name = name
    · simp [asked]
    · simp only [beq_false_of_ne asked, if_neg asked, List.find?_nil, Option.or_none]

theorem lastOfEach_sublist (rules : List Rule) : (lastOfEach rules).Sublist rules := by
  induction rules with
  | nil => exact .slnil
  | cons first rest inductionHypothesis =>
    rw [lastOfEach]
    split
    next => exact inductionHypothesis.cons first
    next => exact inductionHypothesis.cons_cons first

theorem filter_name_of_new {rules : List Rule} {name : String}
    (isNew : name ∉ rules.map (·.name)) : rules.filter (·.name != name) = rules := by
  refine List.filter_eq_self.2 fun rule listed => bne_iff_ne.2 ?_
  rintro rfl
  exact isNew (List.mem_map_of_mem listed)

/-- Of rules with distinct names only one is dropped. -/
theorem filter_name_of_split {before after : List Rule} {old : Rule}
    (distinct : ((before ++ old :: after).map (·.name)).Nodup) :
    (before ++ old :: after).filter (·.name != old.name) = before ++ after := by
  rw [List.map_append, List.map_cons, List.nodup_middle, List.nodup_cons, ← List.map_append]
    at distinct
  have kept := filter_name_of_new distinct.1
  rw [List.filter_append] at kept
  rw [List.filter_append, List.filter_cons_of_neg (by simp), kept]

/-! ## Changes -/

variable {book : RuleBook} {recipe : Rule.Recipe}

/-- What a change of a book can come to. -/
inductive Changes (book : RuleBook) : Change → Except Error Unit × RuleBook → Prop
  | refused {recipe : Rule.Recipe} : recipe.name ∈ book.rules.map (·.name) →
      Changes book (.insert recipe) (.error (Fault.duplicateName.inRule recipe.name), book)
  | inserted {recipe : Rule.Recipe} : recipe.name ∉ book.rules.map (·.name) →
      Changes book (.insert recipe) (.ok (), ⟨book.rules ++ [recipe.rule]⟩)
  | replaced (recipe : Rule.Recipe) : Changes book (.withRule recipe)
      (.ok (), ⟨book.rules.filter (·.name != recipe.name) ++ [recipe.rule]⟩)

theorem changes_perform (book : RuleBook) (change : Change) :
    Changes book change (change.perform book) := by
  cases change with
  | insert recipe =>
    have sameName := recipe.name_rule
    rw [Change.perform]
    by_cases present : recipe.name ∈ book.rules.map (·.name)
    · rw [insert_of_present (sameName ▸ present), sameName]
      exact .refused present
    · rw [RuleDocument.insert_of_new (sameName ▸ present)]
      exact .inserted present
  | withRule recipe =>
    rw [Change.perform, withRule, recipe.name_rule]
    exact .replaced recipe

theorem perform_eq_error_iff {error : Error} :
    ((Change.insert recipe).perform book).1 = .error error ↔
      recipe.name ∈ book.rules.map (·.name) ∧
        error = .of (.malformedRules (some recipe.name) "<rule>" "duplicate rule name") := by
  have result := changes_perform book (.insert recipe)
  generalize (Change.insert recipe).perform book = outcome at result
  cases result with
  | refused present =>
    rw [Except.error.injEq, and_iff_right present, eq_comm]
    rfl
  | inserted isNew => exact iff_of_false nofun fun refused => isNew refused.1

theorem perform_of_present (present : recipe.name ∈ book.rules.map (·.name)) :
    ((Change.insert recipe).perform book).2 = book := by
  have result := changes_perform book (.insert recipe)
  generalize (Change.insert recipe).perform book = outcome at result
  cases result with
  | refused => rfl
  | inserted isNew => exact absurd present isNew

theorem perform_of_new {change : Change}
    (isNew : change.recipe.name ∉ book.rules.map (·.name)) :
    change.perform book = (.ok (), ⟨book.rules ++ [change.recipe.rule]⟩) := by
  have result := changes_perform book change
  generalize change.perform book = outcome at result
  cases result with
  | refused present => exact absurd present isNew
  | inserted => rfl
  | replaced recipe =>
    have kept : book.rules.filter (·.name != recipe.name) = book.rules := filter_name_of_new isNew
    rw [kept]
    rfl

theorem perform_withRule_of_split {before after : List Rule} {old : Rule}
    (distinct : (book.rules.map (·.name)).Nodup) (split : book.rules = before ++ old :: after)
    (sameName : old.name = recipe.name) :
    (Change.withRule recipe).perform book = (.ok (), ⟨before ++ after ++ [recipe.rule]⟩) := by
  have result := changes_perform book (.withRule recipe)
  generalize (Change.withRule recipe).perform book = outcome at result
  cases result with
  | replaced =>
    rw [split] at distinct
    rw [split, ← sameName, filter_name_of_split distinct]

theorem performAll_cons (book : RuleBook) (change : Change) (rest : List Change) :
    Change.performAll book (change :: rest) =
      ((change.recipe.rule, (change.perform book).1) ::
          (Change.performAll (change.perform book).2 rest).1,
        (Change.performAll (change.perform book).2 rest).2) := by
  rw [Change.performAll]

theorem acceptedIn_cons_ok (rule : Rule) (rest : List (Rule × Except Error Unit)) :
    acceptedIn ((rule, .ok ()) :: rest) = rule :: acceptedIn rest := by
  rfl

theorem acceptedIn_cons_error (rule : Rule) (error : Error)
    (rest : List (Rule × Except Error Unit)) :
    acceptedIn ((rule, .error error) :: rest) = acceptedIn rest := by
  rfl

/-- A book that holds the last of each of the rules before holds the last of each of these and of
those accepted since. -/
theorem rules_performAll (changes : List Change) {earlier : List Rule}
    (holds : book.rules = lastOfEach earlier) :
    (Change.performAll book changes).2.rules =
      lastOfEach (earlier ++ acceptedIn (Change.performAll book changes).1) := by
  induction changes generalizing book earlier with
  | nil =>
    rw [Change.performAll, acceptedIn, List.filterMap_nil, List.append_nil]
    exact holds
  | cons change rest inductionHypothesis =>
    rw [performAll_cons]
    have result := changes_perform book change
    generalize change.perform book = outcome at result
    cases result with
    | refused =>
      rw [acceptedIn_cons_error]
      exact inductionHypothesis holds
    | @inserted recipe isNew =>
      rw [acceptedIn_cons_ok, List.append_cons earlier]
      refine inductionHypothesis ?_
      rw [Change.recipe, lastOfEach_concat, ← holds, recipe.name_rule, filter_name_of_new isNew]
    | replaced recipe =>
      rw [acceptedIn_cons_ok, List.append_cons earlier]
      refine inductionHypothesis ?_
      rw [Change.recipe, lastOfEach_concat, ← holds, recipe.name_rule]

theorem map_fst_performAll (book : RuleBook) (changes : List Change) :
    (Change.performAll book changes).1.map (·.1) = changes.map (·.recipe.rule) := by
  induction changes generalizing book with
  | nil => rfl
  | cons change rest inductionHypothesis =>
    rw [performAll_cons, List.map_cons, inductionHypothesis, List.map_cons]

theorem mem_map_fst_of_acceptedIn {answers : List (Rule × Except Error Unit)} {rule : Rule}
    (isAccepted : rule ∈ acceptedIn answers) : rule ∈ answers.map (·.1) := by
  obtain ⟨⟨asked, answer⟩, listed, isRule⟩ := List.mem_filterMap.1 isAccepted
  cases answer with
  | error => contradiction
  | ok =>
    obtain rfl := Option.some.inj isRule
    exact List.mem_map_of_mem listed

/-! ## Books that were built -/

/-- A book that was built, and what becomes of it with one more change. -/
structure Ordered (changes : List Change) : Prop where
  distinct : ((built changes).rules.map (·.name)).Nodup
  rules : (built changes).rules = lastOfEach (accepted changes)
  get? : ∀ name, (built changes).get? name = (accepted changes).reverse.find? (·.name == name)
  refuses : ∀ recipe error, ((Change.insert recipe).perform (built changes)).1 = .error error ↔
    recipe.name ∈ (built changes).rules.map (·.name) ∧
      error = .of (.malformedRules (some recipe.name) "<rule>" "duplicate rule name")
  unchanged : ∀ recipe, recipe.name ∈ (built changes).rules.map (·.name) →
    ((Change.insert recipe).perform (built changes)).2 = built changes
  /-- A rule with a new name comes last, whichever way it is put into the book. -/
  appends : ∀ change : Change, change.recipe.name ∉ (built changes).rules.map (·.name) →
    change.perform (built changes) = (.ok (), ⟨(built changes).rules ++ [change.recipe.rule]⟩)
  /-- The rule of the same name goes, and the others keep their order. -/
  replaces : ∀ recipe before old after, (built changes).rules = before ++ old :: after →
    old.name = recipe.name → (Change.withRule recipe).perform (built changes) =
      (.ok (), ⟨before ++ after ++ [recipe.rule]⟩)
  made : ∀ rule ∈ (built changes).rules, ∃ change ∈ changes, change.recipe.rule = rule
  recipes : ∀ recipe : Rule.Recipe, recipe.Follows recipe.rule

theorem ordered (changes : List Change) : Ordered changes := by
  have holdsNone : empty.rules = lastOfEach [] := rfl
  have rules : (built changes).rules = lastOfEach (accepted changes) :=
    rules_performAll changes holdsNone
  have distinct : ((built changes).rules.map (·.name)).Nodup := rules ▸ nodup_lastOfEach _
  exact
    { distinct := distinct
      rules := rules
      get? := fun name => by rw [RuleBook.get?, rules, find?_lastOfEach]
      refuses := fun recipe error => perform_eq_error_iff
      unchanged := fun recipe => perform_of_present
      appends := fun change => perform_of_new
      replaces := fun recipe before old after => perform_withRule_of_split distinct
      made := fun rule listed => by
        rw [rules] at listed
        have asked := mem_map_fst_of_acceptedIn ((lastOfEach_sublist _).mem listed)
        rw [map_fst_performAll] at asked
        exact List.mem_map.1 asked
      recipes := Rule.Recipe.follows_rule }

end RuleBook

end BuildingRules
