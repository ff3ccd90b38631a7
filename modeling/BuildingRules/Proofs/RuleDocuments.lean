import BuildingRules.Proofs.BuiltRules
import BuildingRules.Proofs.SettledValues
import BuildingRules.Rule.Form

/-!
# Reading rule books

Each part of a rule is read if it has its form, and the first part that has not is blamed. Over the
entries of a document the rules that are read and those that are refused are shared out in their
order, or the first entry out of form condemns them all. A document is therefore partitioned:
`partitionsDocument`.
-/

set_option autoImplicit false

namespace BuildingRules.RuleDocument

/-! ## The parts of a rule -/

theorem inField_eq_outOfForm (fault : RuleBook.Fault) (name field : String) :
    fault.inField name field = outOfForm name field fault.message :=
  rfl

section Fields

variable {name field : String} {fields : List (String × Json)} {error : Error}

theorem required_eq_ok (distinct : (fields.map Prod.fst).Nodup) {held : Json} :
    required name fields field = .ok held ↔ (field, held) ∈ fields := by
  rw [← Json.find?_eq_some_iff distinct, required]
  cases Json.find? field fields <;> simp

theorem required_eq_error :
    required name fields field = .error error ↔
      (∀ held, (field, held) ∉ fields) ∧
        error = outOfForm name field "missing required field" := by
  rw [← Json.find?_eq_none_iff, required]
  cases Json.find? field fields <;>
    simp [inField_eq_outOfForm, RuleBook.Fault.message, eq_comm]

theorem classNames_eq_ok {index : Nat} {items : List Json} {classes : List String} :
    classNames name index items = .ok classes ↔ items = classes.map .string := by
  induction items generalizing index classes with
  | nil => cases classes <;> simp [classNames]
  | cons item rest inductionHypothesis =>
    cases item with
    | string className =>
      rw [classNames, bind_eq_ok]
      constructor
      · rintro ⟨others, read, same⟩
        rw [← Except.ok.inj same, inductionHypothesis.1 read, List.map_cons]
      · intro same
        cases classes with
        | nil => contradiction
        | cons first others =>
          obtain ⟨sameName, sameRest⟩ := List.cons.inj same
          rw [Json.string.inj sameName]
          exact ⟨others, inductionHypothesis.2 sameRest, rfl⟩
    | _ => cases classes <;> simp [classNames]

/-- The first item that is no text is blamed. -/
theorem classNames_eq_error {index : Nat} {items : List Json} :
    classNames name index items = .error error ↔
      ∃ before item after, items = before ++ item :: after ∧
        (∀ other ∈ before, ∃ text, other = .string text) ∧
        NoClassName name (before.length + index) item error := by
  induction items generalizing index with
  | nil => simp [classNames]
  | cons item rest inductionHypothesis =>
    refine Iff.trans ?_ (exists_split_cons (fun other => ∃ text, other = .string text)
      fun number item => NoClassName name (number + index) item error).symm
    cases item with
    | string className =>
      have named : ¬NoClassName name (0 + index) (.string className) error :=
        fun blamed => blamed.1 className rfl
      rw [classNames, bind_eq_error]
      simp only [inductionHypothesis, named, Nat.add_assoc, Nat.add_comm 1]
      simp
    | _ =>
      simp [classNames, NoClassName, inField_eq_outOfForm, RuleBook.Fault.message, Path.item,
        eq_comm]

theorem applicability_eq_ok (distinct : (fields.map Prod.fst).Nodup) {classes : List String} :
    applicability name fields = .ok classes ↔
      ("applicability", .array (classes.map .string)) ∈ fields := by
  rw [applicability, bind_eq_ok]
  simp only [required_eq_ok distinct]
  constructor
  · rintro ⟨held, listed, read⟩
    split at read
    next items =>
      rwa [← classNames_eq_ok.1 read]
    next => contradiction
  · intro listed
    exact ⟨_, listed, classNames_eq_ok.2 rfl⟩

theorem applicability_eq_error (distinct : (fields.map Prod.fst).Nodup) :
    applicability name fields = .error error ↔ MalformedClasses name fields error := by
  rw [applicability, bind_eq_error]
  simp only [required_eq_ok distinct, required_eq_error]
  constructor
  · rintro (⟨absent, rfl⟩ | ⟨held, listed, read⟩)
    · exact .missing absent
    · split at read
      next items =>
        obtain ⟨before, item, after, rfl, named, blamed⟩ := classNames_eq_error.1 read
        exact .notString listed named blamed
      next notList =>
        rw [← Except.error.inj read]
        exact .notList listed notList
  · intro malformed
    cases malformed with
    | missing absent => exact .inl ⟨absent, rfl⟩
    | @notList held listed notList =>
      refine .inr ⟨held, listed, ?_⟩
      split
      next items => exact absurd rfl (notList items)
      next => rfl
    | notString listed named blamed =>
      exact .inr ⟨_, listed, classNames_eq_error.2 ⟨_, _, _, rfl, named, blamed⟩⟩

theorem definitions_eq_ok (distinct : (fields.map Prod.fst).Nodup)
    {entries : List (String × Json)} :
    definitions name fields = .ok entries ↔ ("definitions", .object entries) ∈ fields := by
  rw [definitions, bind_eq_ok]
  simp only [required_eq_ok distinct]
  constructor
  · rintro ⟨held, listed, read⟩
    split at read
    next => rwa [← Except.ok.inj read]
    next => contradiction
  · intro listed
    exact ⟨_, listed, rfl⟩

theorem definitions_eq_error (distinct : (fields.map Prod.fst).Nodup) :
    definitions name fields = .error error ↔ MalformedDefinitions name fields error := by
  rw [definitions, bind_eq_error]
  simp only [required_eq_ok distinct, required_eq_error]
  constructor
  · rintro (⟨absent, rfl⟩ | ⟨held, listed, read⟩)
    · exact .missing absent
    · split at read
      next => contradiction
      next notObject =>
        rw [← Except.error.inj read]
        exact .notObject listed notObject
  · intro malformed
    cases malformed with
    | missing absent => exact .inl ⟨absent, rfl⟩
    | @notObject held listed notObject =>
      refine .inr ⟨held, listed, ?_⟩
      split
      next entries => exact absurd rfl (notObject entries)
      next => rfl

end Fields

/-! ## One rule -/

/-- Variables that are new and distinct come behind those of the rule, each with its pattern. -/
theorem defineAll_eq_ok {entries : List (String × Json)} {rule result : Rule}
    (distinct : (rule.variableNames ++ entries.map Prod.fst).Nodup) :
    defineAll rule entries = .ok result ↔
      ∃ definitions, List.Forall₂ Defines definitions entries ∧
        result = { rule with definitions := rule.definitions ++ definitions } := by
  -- with each entry that is read, its variable passes from the new ones to those of the rule
  induction entries generalizing rule with
  | nil => simp [defineAll, eq_comm]
  | cons entry rest inductionHypothesis =>
    obtain ⟨variableName, value⟩ := entry
    rw [defineAll]
    cases read : Pattern.ofJson (Path.definition variableName) value with
    | error fault => simp [List.forall₂_cons_right_iff, Defines, read]
    | ok pattern =>
      have isNew : variableName ∉ rule.variableNames := fun early =>
        (List.nodup_append.1 distinct).2.2 _ early _ (List.mem_cons_self ..) rfl
      have defined : (rule.define variableName pattern).definitions =
          rule.definitions ++ [⟨variableName, pattern⟩] := Rule.replaceDefinition_of_new isNew
      have stillDistinct :
          ((rule.define variableName pattern).variableNames ++ rest.map Prod.fst).Nodup := by
        rwa [Rule.variableNames, defined, List.map_append, List.map_singleton, List.append_assoc]
      refine (inductionHypothesis stillDistinct).trans ?_
      rw [defined]
      constructor
      · rintro ⟨others, areDefined, rfl⟩
        exact ⟨⟨variableName, pattern⟩ :: others, .cons ⟨rfl, read⟩ areDefined,
          by rw [List.append_assoc]; rfl⟩
      · rintro ⟨_, areDefined, rfl⟩
        obtain ⟨first, others, ⟨named, holds⟩, othersDefined, rfl⟩ :=
          List.forall₂_cons_right_iff.1 areDefined
        obtain rfl : first = ⟨variableName, pattern⟩ := by
          rw [read] at holds
          rw [Definition.mk.injEq]
          exact ⟨named, (Except.ok.inj holds).symm⟩
        exact ⟨others, othersDefined, by rw [List.append_assoc]; rfl⟩

/-- The first definition that holds no pattern refuses the rule. -/
theorem defineAll_eq_error {entries : List (String × Json)} {rule : Rule} {error : Error} :
    defineAll rule entries = .error error ↔ FirstRefused rule.name entries error := by
  induction entries generalizing rule with
  | nil => simp [defineAll, FirstRefused]
  | cons entry rest inductionHypothesis =>
    refine Iff.trans ?_ (exists_split_cons _ fun _ (entry : String × Json) =>
      ∃ fault, Pattern.ofJson (Path.definition entry.1) entry.2 = .error fault ∧
        error.cause = fault.cause ∧ error.place = some ⟨some rule.name, none, some entry.1⟩).symm
    simp only [← Error.eq_located_iff]
    rw [defineAll]
    cases read : Pattern.ofJson (Path.definition entry.1) entry.2 with
    | error fault => simp [eq_comm]
    | ok pattern =>
      refine Iff.trans inductionHypothesis ?_
      simp [FirstRefused, Rule.define, Error.eq_located_iff]

section Rule

variable {name : String} {value : Json} {error : Error}

theorem rule_eq_error (settled : value.Settled) :
    rule name value = .error error ↔ Malformed name value error := by
  cases value with
  | object fields =>
    have distinct := settled.entries.1
    rw [rule, bind_eq_error]
    simp only [bind_eq_error, applicability_eq_ok distinct, applicability_eq_error distinct,
      definitions_eq_ok distinct, definitions_eq_error distinct]
    constructor
    · rintro (malformed | ⟨classes, listed, malformed | ⟨_, _, read⟩⟩)
      · exact .classes malformed
      · exact .definitions listed malformed
      · contradiction
    · intro malformed
      cases malformed with
      | notObject notObject => exact absurd rfl (notObject fields)
      | classes malformed => exact .inl malformed
      | definitions listed malformed => exact .inr ⟨_, listed, .inl malformed⟩
  | _ =>
    constructor
    · intro read
      rw [← Except.error.inj read]
      exact .notObject nofun
    · intro malformed
      cases malformed
      rfl

/-- A rule that has its form is read, its pattern faults apart. -/
theorem rule_eq_ok (settled : value.Settled) {verdict : Except Error Rule} :
    rule name value = .ok verdict ↔ ∃ classes entries, HasForm value classes entries ∧
      verdict = defineAll ⟨name, classes.eraseDups, []⟩ entries := by
  cases value with
  | object fields =>
    have distinct := settled.entries.1
    rw [rule, bind_eq_ok]
    simp only [bind_eq_ok, applicability_eq_ok distinct, definitions_eq_ok distinct,
      Rule.foldl_appliesTo_new]
    constructor
    · rintro ⟨classes, named, entries, defined, same⟩
      exact ⟨classes, entries, ⟨fields, rfl, named, defined⟩, (Except.ok.inj same).symm⟩
    · rintro ⟨classes, entries, ⟨_, same, named, defined⟩, rfl⟩
      rw [← Json.object.inj same] at named defined
      exact ⟨classes, named, entries, defined, rfl⟩
  | _ =>
    constructor
    · exact nofun
    · rintro ⟨_, _, ⟨_, isObject, _⟩, _⟩
      contradiction

theorem distinct_of_hasForm (settled : value.Settled) {classes : List String}
    {entries : List (String × Json)} (form : HasForm value classes entries) :
    (entries.map Prod.fst).Nodup := by
  obtain ⟨fields, rfl, -, defined⟩ := form
  exact (settled.entries.2 _ defined).entries.1

theorem rule_eq_ok_ok (settled : value.Settled) {result : Rule} :
    rule name value = .ok (.ok result) ↔ Reads name value result := by
  rw [rule_eq_ok settled]
  refine exists_congr fun classes => exists_congr fun entries => and_congr_right fun form => ?_
  have distinct := distinct_of_hasForm settled form
  rw [eq_comm, defineAll_eq_ok (by exact distinct)]
  obtain ⟨resultName, classNames, definitions⟩ := result
  constructor
  · rintro ⟨found, areDefined, same⟩
    obtain ⟨rfl, rfl, rfl⟩ := Rule.mk.inj same
    exact ⟨rfl, rfl, areDefined⟩
  · rintro ⟨rfl, rfl, areDefined⟩
    exact ⟨definitions, areDefined, rfl⟩

theorem rule_eq_ok_error (settled : value.Settled) :
    rule name value = .ok (.error error) ↔ Refuses name value error := by
  rw [rule_eq_ok settled]
  refine exists_congr fun classes => exists_congr fun entries => and_congr_right fun form => ?_
  rw [eq_comm, defineAll_eq_error]

theorem name_of_reads {found : Rule} (reads : Reads name value found) : found.name = name := by
  obtain ⟨_, _, -, named, -⟩ := reads
  exact named

theorem not_reads_of_refuses (settled : value.Settled) {found : Rule}
    (refuses : Refuses name value error) : ¬Reads name value found := by
  intro reads
  have accepted := (rule_eq_ok_ok settled).2 reads
  rw [(rule_eq_ok_error settled).2 refuses] at accepted
  cases accepted

theorem wellFormed_iff (settled : value.Settled) :
    WellFormed value ↔ ∃ verdict, rule name value = .ok verdict := by
  constructor
  · rintro ⟨classes, entries, form⟩
    exact ⟨_, (rule_eq_ok settled).2 ⟨classes, entries, form, rfl⟩⟩
  · rintro ⟨verdict, read⟩
    obtain ⟨classes, entries, form, -⟩ := (rule_eq_ok settled).1 read
    exact ⟨classes, entries, form⟩

theorem not_wellFormed_of_malformed (settled : value.Settled)
    (malformed : Malformed name value error) : ¬WellFormed value := by
  intro wellFormed
  obtain ⟨verdict, read⟩ := (wellFormed_iff settled).1 wellFormed
  rw [(rule_eq_error settled).2 malformed] at read
  contradiction

end Rule

theorem exists_firstRefused_iff (name : String) {entries : List (String × Json)} :
    (∃ error, FirstRefused name entries error) ↔ ∃ entry ∈ entries, ∃ fault,
      Pattern.ofJson (Path.definition entry.1) entry.2 = .error fault := by
  constructor
  · rintro ⟨_, before, entry, after, rfl, -, fault, refused, -⟩
    exact ⟨entry, List.mem_append_right before (List.mem_cons_self ..), fault, refused⟩
  · rintro ⟨entry, listed, fault, refused⟩
    induction entries with
    | nil => contradiction
    | cons first rest inductionHypothesis =>
      cases read : Pattern.ofJson (Path.definition first.1) first.2 with
      | error refusal =>
        exact ⟨refusal.located _, [], first, rest, rfl, nofun, refusal, read, rfl, rfl⟩
      | ok pattern =>
        rcases List.mem_cons.1 listed with rfl | later
        · rw [read] at refused
          contradiction
        · obtain ⟨error, before, blamed, after, rfl, clean, isRefused⟩ :=
            inductionHypothesis later
          exact ⟨error, first :: before, blamed, after, rfl,
            List.forall_mem_cons.2 ⟨⟨pattern, read⟩, clean⟩, isRefused⟩

/-! ## The entries of a document -/

/-- The document with one more rule, or with one more that is refused. -/
def taking (document : RuleDocument) (name : String) : Except Error Rule → RuleDocument
  | .ok rule => { document with book := ⟨document.book.rules ++ [rule]⟩ }
  | .error error => { document with rejected := document.rejected ++ [⟨name, error⟩] }

/-- The names of the rules so far and of the entries to come are distinct. -/
def Fresh (document : RuleDocument) (entries : List (String × Json)) : Prop :=
  (document.book.rules.map (·.name) ++ entries.map Prod.fst).Nodup

section Entries

variable {document result : RuleDocument} {name : String} {value : Json}
  {entries rest : List (String × Json)} {error : Error} {verdict : Except Error Rule}

/-- No rule is put into the book twice, so the entry is taken. -/
theorem addEntries_cons_of_ok (fresh : document.Fresh ((name, value) :: rest))
    (settled : value.Settled) (read : rule name value = .ok verdict) :
    addEntries document ((name, value) :: rest) = addEntries (document.taking name verdict) rest ∧
      (document.taking name verdict).Fresh rest := by
  have isNew : name ∉ document.book.rules.map (·.name) := fun early =>
    (List.nodup_append.1 fresh).2.2 name early name (List.mem_cons_self ..) rfl
  rw [addEntries, read]
  cases verdict with
  | error refusal =>
    refine ⟨rfl, List.Nodup.sublist ?_ fresh⟩
    exact List.Sublist.append_left (List.sublist_cons_self ..) _
  | ok found =>
    have named := name_of_reads ((rule_eq_ok_ok settled).1 read)
    constructor
    · have inserted : document.book.insert found = .ok ⟨document.book.rules ++ [found]⟩ :=
        insert_of_new (by rwa [named])
      -- the match on the verdict is decided already, and what is left is the insertion
      change (document.book.insert found >>= _) = _
      rw [inserted]
      rfl
    · rw [Fresh, taking, List.map_append, List.map_singleton, named, List.append_assoc]
      exact fresh

theorem addEntries_cons_of_error (malformed : rule name value = .error error) :
    addEntries document ((name, value) :: rest) = .error error := by
  rw [addEntries, malformed]
  rfl

theorem addEntries_eq_ok_iff (fresh : document.Fresh entries)
    (settled : ∀ entry ∈ entries, entry.2.Settled) :
    (∃ result, addEntries document entries = .ok result) ↔
      ∀ entry ∈ entries, WellFormed entry.2 := by
  induction entries generalizing document with
  | nil => simp [addEntries]
  | cons entry rest inductionHypothesis =>
    obtain ⟨firstSettled, restSettled⟩ := List.forall_mem_cons.1 settled
    rw [List.forall_mem_cons]
    cases read : rule entry.1 entry.2 with
    | error error =>
      have malformed := (rule_eq_error firstSettled).1 read
      simp [addEntries_cons_of_error read, not_wellFormed_of_malformed firstSettled malformed]
    | ok verdict =>
      have wellFormed := (wellFormed_iff firstSettled).2 ⟨verdict, read⟩
      obtain ⟨goesOn, stillFresh⟩ := addEntries_cons_of_ok fresh firstSettled read
      simp only [goesOn, inductionHypothesis stillFresh restSettled, wellFormed, true_and]

/-- The first entry that is out of form condemns the document, whatever was taken before. -/
theorem addEntries_eq_error (fresh : document.Fresh entries)
    (settled : ∀ entry ∈ entries, entry.2.Settled) :
    addEntries document entries = .error error ↔ FirstMalformed entries error := by
  induction entries generalizing document with
  | nil => simp [addEntries, FirstMalformed]
  | cons entry rest inductionHypothesis =>
    obtain ⟨firstSettled, restSettled⟩ := List.forall_mem_cons.1 settled
    refine Iff.trans ?_ (exists_split_cons (fun other : String × Json => WellFormed other.2)
      fun _ entry => Malformed entry.1 entry.2 error).symm
    rw [← rule_eq_error firstSettled]
    cases read : rule entry.1 entry.2 with
    | error fault =>
      have malformed := (rule_eq_error firstSettled).1 read
      simp [addEntries_cons_of_error read, not_wellFormed_of_malformed firstSettled malformed]
    | ok verdict =>
      have wellFormed := (wellFormed_iff firstSettled).2 ⟨verdict, read⟩
      obtain ⟨goesOn, stillFresh⟩ := addEntries_cons_of_ok fresh firstSettled read
      simp [goesOn, inductionHypothesis stillFresh restSettled, wellFormed, FirstMalformed]

/-- What is taken from the entries is what they are shared out into. -/
theorem sharedOut_of_addEntries (fresh : document.Fresh entries)
    (settled : ∀ entry ∈ entries, entry.2.Settled)
    (added : addEntries document entries = .ok result) :
    ∃ rules rejected, SharedOut entries rules rejected ∧
      result.book.rules = document.book.rules ++ rules ∧
      result.rejected = document.rejected ++ rejected := by
  induction entries generalizing document with
  | nil =>
    obtain rfl := Except.ok.inj added
    exact ⟨[], [], .nil, (List.append_nil _).symm, (List.append_nil _).symm⟩
  | cons entry rest inductionHypothesis =>
    obtain ⟨firstSettled, restSettled⟩ := List.forall_mem_cons.1 settled
    cases read : rule entry.1 entry.2 with
    | error error =>
      rw [addEntries_cons_of_error read] at added
      contradiction
    | ok verdict =>
      obtain ⟨goesOn, stillFresh⟩ := addEntries_cons_of_ok fresh firstSettled read
      rw [goesOn] at added
      obtain ⟨rules, rejected, shared, sameRules, sameRejected⟩ :=
        inductionHypothesis stillFresh restSettled added
      cases verdict with
      | ok found =>
        refine ⟨found :: rules, rejected, .accepted ((rule_eq_ok_ok firstSettled).1 read) shared,
          ?_, sameRejected⟩
        rw [sameRules, taking, List.append_assoc, List.singleton_append]
      | error refusal =>
        refine ⟨rules, ⟨entry.1, refusal⟩ :: rejected,
          .refused ((rule_eq_ok_error firstSettled).1 read) shared, sameRules, ?_⟩
        rw [sameRejected, taking, List.append_assoc, List.singleton_append]

end Entries

/-! ## Sharing out -/

namespace SharedOut

variable {entries : List (String × Json)} {rules : List Rule} {rejected : List Rejection}

theorem keys_perm (shared : SharedOut entries rules rejected) :
    (rules.map (·.name) ++ rejected.map (·.ruleName)).Perm (entries.map Prod.fst) := by
  induction shared with
  | nil => exact .refl []
  | accepted reads _ inductionHypothesis =>
    rw [List.map_cons, name_of_reads reads]
    exact inductionHypothesis.cons _
  | refused _ _ inductionHypothesis =>
    exact List.perm_middle.trans (inductionHypothesis.cons _)

theorem rules_sublist (shared : SharedOut entries rules rejected) :
    (rules.map (·.name)).Sublist (entries.map Prod.fst) := by
  induction shared with
  | nil => exact .slnil
  | accepted reads _ inductionHypothesis =>
    rw [List.map_cons, name_of_reads reads]
    exact inductionHypothesis.cons_cons _
  | refused _ _ inductionHypothesis => exact inductionHypothesis.cons _

theorem rejected_sublist (shared : SharedOut entries rules rejected) :
    (rejected.map (·.ruleName)).Sublist (entries.map Prod.fst) := by
  induction shared with
  | nil => exact .slnil
  | accepted _ _ inductionHypothesis => exact inductionHypothesis.cons _
  | refused _ _ inductionHypothesis => exact inductionHypothesis.cons_cons _

theorem mem_rules_iff (settled : ∀ entry ∈ entries, entry.2.Settled)
    (shared : SharedOut entries rules rejected) {rule : Rule} :
    rule ∈ rules ↔ ∃ entry ∈ entries, Reads entry.1 entry.2 rule := by
  induction shared with
  | nil => simp
  | @accepted name value rest first rules rejected reads _ inductionHypothesis =>
    obtain ⟨firstSettled, restSettled⟩ := List.forall_mem_cons.1 settled
    have unique : Reads name value rule ↔ rule = first := by
      rw [← rule_eq_ok_ok firstSettled, (rule_eq_ok_ok firstSettled).2 reads]
      simp [eq_comm]
    simp [inductionHypothesis restSettled, unique]
  | @refused name value rest error rules rejected refuses _ inductionHypothesis =>
    obtain ⟨firstSettled, restSettled⟩ := List.forall_mem_cons.1 settled
    have notRead : ¬Reads name value rule := not_reads_of_refuses firstSettled refuses
    simp [inductionHypothesis restSettled, notRead]

theorem mem_rejected_iff (settled : ∀ entry ∈ entries, entry.2.Settled)
    (shared : SharedOut entries rules rejected) {rejection : Rejection} :
    rejection ∈ rejected ↔ ∃ entry ∈ entries, rejection.ruleName = entry.1 ∧
      Refuses entry.1 entry.2 rejection.error := by
  induction shared with
  | nil => simp
  | @accepted name value rest first rules rejected reads _ inductionHypothesis =>
    obtain ⟨firstSettled, restSettled⟩ := List.forall_mem_cons.1 settled
    have notRefused : ¬Refuses name value rejection.error :=
      fun refuses => not_reads_of_refuses firstSettled refuses reads
    simp [inductionHypothesis restSettled, notRefused]
  | @refused name value rest error rules rejected refuses _ inductionHypothesis =>
    obtain ⟨firstSettled, restSettled⟩ := List.forall_mem_cons.1 settled
    have unique : Refuses name value rejection.error ↔ rejection.error = error := by
      rw [← rule_eq_ok_error firstSettled, (rule_eq_ok_error firstSettled).2 refuses]
      simp [eq_comm]
    obtain ⟨ruleName, fault⟩ := rejection
    simp [inductionHypothesis restSettled, unique]

end SharedOut

/-! ## Documents -/

/-- How the entries of a document make up what it is read as. -/
structure Partition (entries : List (String × Json)) (document : RuleDocument) : Prop where
  sharedOut : SharedOut entries document.book.rules document.rejected
  /-- Every key names a rule that can be used or one that is refused, and no key names two. -/
  keys : (document.book.rules.map (·.name) ++ document.rejected.map (·.ruleName)).Perm
    (entries.map Prod.fst)
  distinct : (document.book.rules.map (·.name) ++ document.rejected.map (·.ruleName)).Nodup
  rulesInOrder : (document.book.rules.map (·.name)).Sublist (entries.map Prod.fst)
  rejectedInOrder : (document.rejected.map (·.ruleName)).Sublist (entries.map Prod.fst)
  rules : ∀ rule, rule ∈ document.book.rules ↔ ∃ entry ∈ entries, Reads entry.1 entry.2 rule
  rejections : ∀ rejection, rejection ∈ document.rejected ↔
    ∃ entry ∈ entries, rejection.ruleName = entry.1 ∧ Refuses entry.1 entry.2 rejection.error
  /-- A rule is refused if one of its definitions holds no pattern, and for no other reason. -/
  refused : ∀ entry ∈ entries, ∀ classes definitions, HasForm entry.2 classes definitions →
    (entry.1 ∈ document.rejected.map (·.ruleName) ↔ ∃ definition ∈ definitions, ∃ fault,
      Pattern.ofJson (Path.definition definition.1) definition.2 = .error fault)

/-- What reading a rule book from a document does. -/
structure PartitionsDocument (value : Json) : Prop where
  accepted : (∃ document, ofJson value = .ok document) ↔
    ∃ entries, value = .object entries ∧ ∀ entry ∈ entries, WellFormed entry.2
  partition : ∀ document, ofJson value = .ok document →
    ∃ entries, value = .object entries ∧ Partition entries document
  /-- The first entry that is out of form is reported, wherever patterns are at fault. -/
  faults : ∀ error, ofJson value = .error error ↔
    (∀ entries, value ≠ .object entries) ∧ error = notRuleBook ∨
    ∃ entries, value = .object entries ∧ FirstMalformed entries error
  /-- No rule is put into the book twice. -/
  noDuplicate : ∀ name, ofJson value ≠ .error (outOfForm name "<rule>" "duplicate rule name")

theorem refuses_iff {name : String} {value : Json} {error : Error} (settled : value.Settled)
    {classes : List String} {entries : List (String × Json)}
    (form : HasForm value classes entries) :
    Refuses name value error ↔ FirstRefused name entries error := by
  constructor
  · rintro ⟨otherClasses, otherEntries, ⟨fields, rfl, -, otherListed⟩, isFirst⟩
    obtain ⟨_, same, -, listed⟩ := form
    rw [← Json.object.inj same] at listed
    have distinct := settled.entries.1
    have held := (Json.find?_eq_some_iff distinct).2 listed
    rw [(Json.find?_eq_some_iff distinct).2 otherListed] at held
    rwa [← Json.object.inj (Option.some.inj held)]
  · intro isFirst
    exact ⟨classes, entries, form, isFirst⟩

theorem partition_of_ofJson {value : Json} (settled : value.Settled) {document : RuleDocument}
    (read : ofJson value = .ok document) :
    ∃ entries, value = .object entries ∧ Partition entries document := by
  cases value with
  | object entries =>
    obtain ⟨distinct, valuesSettled⟩ := settled.entries
    have fresh : empty.Fresh entries := distinct
    obtain ⟨rules, rejected, shared, sameRules, sameRejected⟩ :=
      sharedOut_of_addEntries fresh valuesSettled read
    obtain rfl : document.book.rules = rules := sameRules
    obtain rfl : document.rejected = rejected := sameRejected
    refine ⟨entries, rfl,
      { sharedOut := shared
        keys := shared.keys_perm
        distinct := shared.keys_perm.nodup_iff.2 distinct
        rulesInOrder := shared.rules_sublist
        rejectedInOrder := shared.rejected_sublist
        rules := fun _ => shared.mem_rules_iff valuesSettled
        rejections := fun _ => shared.mem_rejected_iff valuesSettled
        refused := fun entry listed classes definitions form => ?_ }⟩
    rw [← exists_firstRefused_iff entry.1, List.mem_map]
    constructor
    · rintro ⟨rejection, isRejected, named⟩
      obtain ⟨other, otherListed, namedOther, refuses⟩ :=
        (shared.mem_rejected_iff valuesSettled).1 isRejected
      obtain rfl : other = entry :=
        List.inj_on_of_nodup_map distinct otherListed listed (namedOther.symm.trans named)
      exact ⟨_, (refuses_iff (valuesSettled other listed) form).1 refuses⟩
    · rintro ⟨error, isFirst⟩
      refine ⟨⟨entry.1, error⟩, (shared.mem_rejected_iff valuesSettled).2 ?_, rfl⟩
      exact ⟨entry, listed, rfl, classes, definitions, form, isFirst⟩
  | _ => contradiction

theorem exists_reason_of_malformed {name : String} {value : Json} {error : Error}
    (malformed : Malformed name value error) :
    ∃ field reason, reason ≠ "duplicate rule name" ∧ error = outOfForm name field reason := by
  cases malformed with
  | notObject => exact ⟨_, _, by decide, rfl⟩
  | classes malformed =>
    cases malformed with
    | missing => exact ⟨_, _, by decide, rfl⟩
    | notList => exact ⟨_, _, by decide, rfl⟩
    | notString _ _ blamed => exact ⟨_, _, by decide, blamed.2⟩
  | definitions _ malformed =>
    cases malformed with
    | missing => exact ⟨_, _, by decide, rfl⟩
    | notObject => exact ⟨_, _, by decide, rfl⟩

theorem outOfForm_inj {name field reason otherName otherField otherReason : String} :
    outOfForm name field reason = outOfForm otherName otherField otherReason ↔
      name = otherName ∧ field = otherField ∧ reason = otherReason := by
  simp [outOfForm]

theorem ofJson_eq_error_iff {value : Json} (settled : value.Settled) (error : Error) :
    ofJson value = .error error ↔
      (∀ entries, value ≠ .object entries) ∧ error = notRuleBook ∨
      ∃ entries, value = .object entries ∧ FirstMalformed entries error := by
  cases value with
  | object entries =>
    obtain ⟨distinct, valuesSettled⟩ := settled.entries
    have fresh : empty.Fresh entries := distinct
    refine (addEntries_eq_error fresh valuesSettled).trans ?_
    simp
  | _ =>
    have isNone : RuleBook.Fault.documentNotObject.inDocument = notRuleBook := rfl
    simp [ofJson, isNone, eq_comm]

theorem partitionsDocument {value : Json} (settled : value.Settled) : PartitionsDocument value where
  accepted := by
    cases value with
    | object entries =>
      obtain ⟨distinct, valuesSettled⟩ := settled.entries
      have fresh : empty.Fresh entries := distinct
      refine (addEntries_eq_ok_iff fresh valuesSettled).trans ?_
      simp
    | _ => simp [ofJson]
  partition _ := partition_of_ofJson settled
  faults := ofJson_eq_error_iff settled
  noDuplicate name read := by
    rcases (ofJson_eq_error_iff settled _).1 read with ⟨-, same⟩ | ⟨entries, -, isFirst⟩
    · exact absurd same (by simp [outOfForm, notRuleBook])
    · obtain ⟨_, entry, _, -, -, malformed⟩ := isFirst
      obtain ⟨field, reason, isOther, same⟩ := exists_reason_of_malformed malformed
      exact isOther (outOfForm_inj.1 same).2.2.symm

/-- A rule between two that are refused; it names a class twice. -/
def mixedDocument : Json :=
  .object
    [("Typo", .object
        [("applicability", .array []),
          ("definitions", .object
            [("zone", .string "Zone"), ("flow", .object [("hasPont", .string "Flow_Sensor")])])]),
      ("Flow", .object
        [("definitions", .object
            [("setpoint", .string "Flow_Setpoint"), ("flow", .string "Flow_Sensor")]),
          ("applicability", .array [.string "VAV", .string "FCU", .string "VAV"])]),
      ("Empty", .object
        [("applicability", .array [.string "VAV"]),
          ("definitions", .object [("flow", .object []), ("zone", .null)])])]

/-- A rule that would be refused, one whose second class is no text, and one that is no object. -/
def condemnedDocument : Json :=
  .object
    [("Typo", .object
        [("applicability", .array []),
          ("definitions", .object [("flow", .object [("hasPont", .string "Flow_Sensor")])])]),
      ("Flow", .object [("applicability", .array [.string "VAV", .null])]),
      ("Last", .null)]

theorem partitionsDocument_of_mixedDocument :
    (∃ document, ofJson mixedDocument = .ok document ∧
      document.book.rules =
        [⟨"Flow", ["VAV", "FCU"],
          [⟨"setpoint", .leaf "Flow_Setpoint"⟩, ⟨"flow", .leaf "Flow_Sensor"⟩]⟩] ∧
      document.rejected =
        [⟨"Typo", .unknownRelation "hasPont" "definitions.flow",
            some ⟨some "Typo", none, some "flow"⟩⟩,
          ⟨"Empty", .invalidPattern "definitions.flow" "empty pattern object",
            some ⟨some "Empty", none, some "flow"⟩⟩]) ∧
    PartitionsDocument mixedDocument ∧
    ofJson condemnedDocument =
      .error ⟨.malformedRules (some "Flow") "applicability[1]" "expected a class name", none⟩ ∧
    PartitionsDocument condemnedDocument :=
  ⟨⟨_, rfl, rfl, rfl⟩, partitionsDocument (Json.settled_settle mixedDocument), rfl,
    partitionsDocument (Json.settled_settle condemnedDocument)⟩

end BuildingRules.RuleDocument
