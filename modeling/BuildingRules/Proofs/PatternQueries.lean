import BuildingRules.Pattern.Meaning
import BuildingRules.Proofs.Compilation
import BuildingRules.Proofs.Rows
import Mathlib.Data.Set.Operations

/-!
# Compiled patterns find what patterns say

The clauses of a pattern, taken on from a row in which the hook has a value, find exactly the
values that the pattern finds from that value: `faithful`. The induction is on the tree, over every
row that uses taken names only, so that a fresh variable has no value in any row it is met in.
-/

set_option autoImplicit false

namespace BuildingRules

/-! ## What some rows find -/

/-- The row has values for taken names only. -/
def Row.Within (row : Row) (names : NameSupply) : Prop :=
  ∀ name, name ∈ row → name ∈ names.taken

namespace Row

theorem Within.mono {row : Row} {names later : NameSupply} (within : row.Within names)
    (wider : later.Extends names) : row.Within later :=
  fun name member => wider name (within name member)

theorem Within.insert {row : Row} {names : NameSupply} (within : row.Within names) {name : String}
    (taken : name ∈ names.taken) (value : Term) : Within (row.insert name value) names := by
  intro other member
  rw [Std.ExtTreeMap.mem_insert, Std.LawfulEqCmp.compare_eq_iff_eq] at member
  rcases member with rfl | member
  · exact taken
  · exact within other member

theorem Within.getElem?_eq_none {row : Row} {names : NameSupply} (within : row.Within names)
    {name : String} (free : name ∉ names.taken) : row[name]? = none :=
  Std.ExtTreeMap.getElem?_eq_none fun member => free (within name member)

end Row

/-- The results find for the target exactly the values in `finds` that the row allows. They keep
what the row has and give values to the names of the scope only. -/
structure Answers (target : String) (scope : NameSupply) (row : Row) (finds : Term → Prop)
    (results : List Row) : Prop where
  keeps : ∀ result ∈ results, result.Extends row
  within : ∀ result ∈ results, result.Within scope
  sound : ∀ result ∈ results, ∃ value, result[target]? = some value ∧ finds value
  complete : ∀ value, finds value → row.Allows target value →
    ∃ result ∈ results, result[target]? = some value

namespace Answers

variable {target : String} {scope later : NameSupply} {row : Row} {finds finds' : Term → Prop}
  {results results' : List Row}

theorem of_iff (answers : Answers target scope row finds results)
    (same : ∀ value, finds' value ↔ finds value) : Answers target scope row finds' results := by
  have sameFinds : finds' = finds := funext fun value => propext (same value)
  rwa [sameFinds]

theorem widen (answers : Answers target scope row finds results)
    (wider : later.Extends scope) : Answers target later row finds results :=
  ⟨answers.keeps, fun result member => (answers.within result member).mono wider,
    answers.sound, answers.complete⟩

theorem nothing (target : String) (scope : NameSupply) (row : Row) :
    Answers target scope row (fun _ => False) [] := by
  constructor <;> simp

theorem self (within : row.Within scope) {value : Term} (has : row[target]? = some value) :
    Answers target scope row (fun _ => True) [row] := by
  constructor
  · simpa using Row.extends_refl row
  · simpa using within
  · simp [has]
  · intro other _ allowed
    exact ⟨row, List.mem_singleton_self row, by rw [has, allowed value has]⟩

/-- Alternatives find what one of them finds. -/
theorem or (first : Answers target scope row finds results)
    (second : Answers target scope row finds' results') :
    Answers target scope row (fun value => finds value ∨ finds' value) (results ++ results') := by
  constructor
  · exact List.forall_mem_append.2 ⟨first.keeps, second.keeps⟩
  · exact List.forall_mem_append.2 ⟨first.within, second.within⟩
  · intro result member
    rcases List.mem_append.1 member with member | member
    · obtain ⟨value, has, found⟩ := first.sound result member
      exact ⟨value, has, Or.inl found⟩
    · obtain ⟨value, has, found⟩ := second.sound result member
      exact ⟨value, has, Or.inr found⟩
  · rintro value (found | found) allowed
    · obtain ⟨result, member, has⟩ := first.complete value found allowed
      exact ⟨result, List.mem_append_left _ member, has⟩
    · obtain ⟨result, member, has⟩ := second.complete value found allowed
      exact ⟨result, List.mem_append_right _ member, has⟩

/-- Taken on by a second search, a first one finds what both find: the second starts from rows
that have a value for the target, and keeps it. -/
theorem and {next : Row → List Row} (first : Answers target scope row finds results)
    (second : ∀ middle ∈ results, Answers target later middle finds' (next middle)) :
    Answers target later row (fun value => finds value ∧ finds' value) (results.flatMap next) := by
  constructor
  · intro result member
    obtain ⟨middle, inFirst, inSecond⟩ := List.mem_flatMap.1 member
    exact ((second middle inFirst).keeps result inSecond).trans (first.keeps middle inFirst)
  · intro result member
    obtain ⟨middle, inFirst, inSecond⟩ := List.mem_flatMap.1 member
    exact (second middle inFirst).within result inSecond
  · intro result member
    obtain ⟨middle, inFirst, inSecond⟩ := List.mem_flatMap.1 member
    obtain ⟨value, has, found⟩ := first.sound middle inFirst
    obtain ⟨value', has', found'⟩ := (second middle inFirst).sound result inSecond
    have kept := (second middle inFirst).keeps result inSecond target value has
    have same : value = value' := Option.some.inj (kept.symm.trans has')
    exact ⟨value, kept, found, same ▸ found'⟩
  · rintro value ⟨found, found'⟩ allowed
    obtain ⟨middle, inFirst, has⟩ := first.complete value found allowed
    obtain ⟨result, inSecond, has'⟩ :=
      (second middle inFirst).complete value found' ((Row.allows_iff_of_eq_some has).2 rfl)
    exact ⟨result, List.mem_flatMap.2 ⟨middle, inFirst, inSecond⟩, has'⟩

/-- A search that first gives a fresh variable any of some values finds what is found from one of
them. -/
theorem through {name : String} {leads : Term → Prop} {below : Term → Term → Prop}
    {next : Row → List Row} (free : row[name]? = none) (notTarget : name ≠ target)
    (choices : ∀ middle, middle ∈ results ↔ ∃ value, leads value ∧ middle = row.insert name value)
    (second : ∀ value, leads value →
      Answers target later (row.insert name value) (below value) (next (row.insert name value))) :
    Answers target later row (fun value => ∃ middle, leads middle ∧ below middle value)
      (results.flatMap next) := by
  have inNext : ∀ result, result ∈ results.flatMap next →
      ∃ value, leads value ∧ result ∈ next (row.insert name value) := by
    intro result member
    obtain ⟨middle, inFirst, inSecond⟩ := List.mem_flatMap.1 member
    obtain ⟨value, led, rfl⟩ := (choices middle).1 inFirst
    exact ⟨value, led, inSecond⟩
  constructor
  · intro result member
    obtain ⟨value, led, inSecond⟩ := inNext result member
    exact ((second value led).keeps result inSecond).trans
      (Row.extends_insert (Row.allows_of_eq_none value free))
  · intro result member
    obtain ⟨value, led, inSecond⟩ := inNext result member
    exact (second value led).within result inSecond
  · intro result member
    obtain ⟨middle, led, inSecond⟩ := inNext result member
    obtain ⟨value, has, found⟩ := (second middle led).sound result inSecond
    exact ⟨value, has, middle, led, found⟩
  · rintro value ⟨middle, led, found⟩ allowed
    have stillAllowed : Row.Allows (row.insert name middle) target value := by
      intro other has
      rw [Row.getElem?_insert, if_neg notTarget] at has
      exact allowed other has
    obtain ⟨result, inSecond, has⟩ := (second middle led).complete value found stillAllowed
    exact ⟨result, List.mem_flatMap.2 ⟨_, (choices _).2 ⟨middle, led, rfl⟩, inSecond⟩, has⟩

end Answers

/-! ## What a pattern says, form by form -/

namespace Pattern

theorem ofClass_iff {graph : Graph} {space : Namespace} {className : String} {resolved : Iri}
    (found : Identifier.classIri? space className = some resolved) (node : Term) :
    OfClass graph space className node ↔ Graph.typing node resolved ∈ graph.triples := by
  simp [OfClass, found]

theorem holds_leaf (graph : Graph) (space : Namespace) (className : String) (node value : Term) :
    (Pattern.leaf className).Holds graph space node value ↔
      Leads graph space .hasPoint .one node value ∧ OfClass graph space className value := by
  rw [Holds]

theorem holds_constraint (graph : Graph) (space : Namespace) (className : String)
    (child : Pattern) (node value : Term) :
    (Pattern.constraint className child).Holds graph space node value ↔
      OfClass graph space className node ∧ child.Holds graph space node value := by
  rw [Holds]

theorem holds_related_leaf (graph : Graph) (space : Namespace) (relation : Relation)
    (quantifier : Quantifier) (className : String) (node value : Term) :
    (Pattern.related relation quantifier (.leaf className)).Holds graph space node value ↔
      Leads graph space relation quantifier node value ∧ OfClass graph space className value := by
  rw [Holds]

theorem holds_related_of_not_leaf (graph : Graph) (space : Namespace) (relation : Relation)
    (quantifier : Quantifier) {child : Pattern} (notLeaf : child.isLeaf = false)
    (node value : Term) :
    (Pattern.related relation quantifier child).Holds graph space node value ↔
      ∃ middle, Leads graph space relation quantifier node middle ∧
        child.Holds graph space middle value := by
  cases child with
  | leaf className => contradiction
  | constraint className child => rw [Holds]; simp
  | related relation quantifier child => rw [Holds]; simp
  | choice branches => rw [Holds]; simp
  | all parts => rw [Holds]; simp

/-! ## Clauses at a hook -/

/-- The hook has the value `node` in the row, and is not the target; the row uses names that are
taken, as the target is. -/
structure Anchored (aim : Aim) (hook : String) (names : NameSupply) (row : Row) (node : Term) :
    Prop where
  notTarget : hook ≠ aim.target
  targetTaken : aim.target ∈ names.taken
  within : row.Within names
  has : row[hook]? = some node

namespace Anchored

variable {aim : Aim} {hook : String} {names later : NameSupply} {row result : Row} {node : Term}

theorem advance (anchored : Anchored aim hook names row node) (wider : later.Extends names)
    (keeps : result.Extends row) (within : result.Within later) :
    Anchored aim hook later result node :=
  ⟨anchored.notTarget, wider _ anchored.targetTaken, within, keeps _ _ anchored.has⟩

theorem fresh (anchored : Anchored aim hook names row node) (base : String) (value : Term) :
    Anchored aim (names.fresh base).1 (names.fresh base).2
      (row.insert (names.fresh base).1 value) value where
  notTarget same := names.fresh_not_mem base (same ▸ anchored.targetTaken)
  targetTaken := names.extends_fresh base _ anchored.targetTaken
  within := (anchored.within.mono (names.extends_fresh base)).insert
    (NameSupply.mem_taken_fresh.2 (Or.inl rfl)) value
  has := by simp

end Anchored

theorem answers_edge_type {graph : Graph} {aim : Aim} {hook : String} {names : NameSupply}
    {row : Row} {node : Term} (anchored : Anchored aim hook names row node) (predicate : Iri)
    (quantifier : Quantifier) (className : Iri) :
    Answers aim.target names row
      (fun value => quantifier.Follows (graph.Edge predicate) node value ∧
        Graph.typing value className ∈ graph.triples)
      (graph.groupRows [row]
        [.edge hook predicate quantifier aim.target, .hasType aim.target className]) := by
  have inRows : ∀ result, result ∈ graph.groupRows [row]
      [.edge hook predicate quantifier aim.target, .hasType aim.target className] ↔
        ∃ value, row.Allows aim.target value ∧
          quantifier.Follows (graph.Edge predicate) node value ∧
          Graph.typing value className ∈ graph.triples ∧
          result = row.insert aim.target value := by
    intro result
    simp only [Graph.groupRows_cons, Graph.clauseRows, List.mem_flatMap,
      Graph.mem_edgeRows_of_bound anchored.has, Graph.mem_typeRows, Graph.groupRows_nil,
      List.mem_singleton]
    constructor
    · intro found
      obtain ⟨middle, ⟨value, allowed, led, rfl⟩, _, ⟨value', same, typed, rfl⟩, rfl⟩ := found
      have hasValue : (Std.ExtTreeMap.insert row aim.target value)[aim.target]? = some value := by
        simp
      obtain rfl := (Row.allows_iff_of_eq_some hasValue).1 same
      exact ⟨value, allowed, led, typed, Row.insert_eq_self hasValue⟩
    · intro found
      obtain ⟨value, allowed, led, typed, rfl⟩ := found
      have hasValue : (Std.ExtTreeMap.insert row aim.target value)[aim.target]? = some value := by
        simp
      exact ⟨_, ⟨value, allowed, led, rfl⟩, _,
        ⟨value, (Row.allows_iff_of_eq_some hasValue).2 rfl, typed, rfl⟩,
        (Row.insert_eq_self hasValue).symm⟩
  constructor
  · intro result member
    obtain ⟨value, allowed, _, _, rfl⟩ := (inRows result).1 member
    exact Row.extends_insert allowed
  · intro result member
    obtain ⟨value, _, _, _, rfl⟩ := (inRows result).1 member
    exact anchored.within.insert anchored.targetTaken value
  · intro result member
    obtain ⟨value, _, led, typed, rfl⟩ := (inRows result).1 member
    exact ⟨value, by simp, led, typed⟩
  · rintro value ⟨led, typed⟩ allowed
    exact ⟨_, (inRows _).2 ⟨value, allowed, led, typed, rfl⟩, by simp⟩

/-- Compiled at any hook, the pattern's clauses find from the hook's value what the pattern
finds. -/
def Faithful (graph : Graph) (aim : Aim) (pattern : Pattern) : Prop :=
  ∀ {path hook : String} {names later : NameSupply} {found : List Clause} {row : Row}
    {node : Term}, pattern.clauses aim path hook names = .ok (found, later) →
      Anchored aim hook names row node →
      Answers aim.target later row (pattern.Holds graph aim.space node)
        (graph.groupRows [row] found)

section Forms

variable {graph : Graph} {aim : Aim}

theorem faithful_leaf (className : String) : Faithful graph aim (.leaf className) := by
  intro path hook names later found row node compiled anchored
  obtain ⟨resolved, identified, rfl, rfl⟩ := clauses_leaf_eq_ok.1 compiled
  rw [leafClauses, if_neg (by simpa using anchored.notTarget)]
  apply (answers_edge_type anchored _ .one resolved).of_iff
  intro value
  rw [holds_leaf, ofClass_iff identified]
  rfl

theorem faithful_constraint (className : String) {child : Pattern}
    (childFaithful : Faithful graph aim child) :
    Faithful graph aim (.constraint className child) := by
  intro path hook names later found row node compiled anchored
  obtain ⟨resolved, rest, identified, below, rfl⟩ := clauses_constraint_eq_ok.1 compiled
  have rows : graph.groupRows [row] (.hasType hook resolved :: rest) =
      if graph.hasType node resolved then graph.groupRows [row] rest else [] := by
    simp only [Graph.groupRows_cons, Graph.clauseRows, Graph.typeRows, anchored.has]
    split <;> simp
  rw [rows]
  split
  next typed =>
    apply (childFaithful below anchored).of_iff
    intro value
    rw [holds_constraint, ofClass_iff identified]
    exact and_iff_right (Graph.hasType_iff.1 typed)
  next untyped =>
    apply (Answers.nothing aim.target later row).of_iff
    intro value
    rw [holds_constraint, ofClass_iff identified, ← Graph.hasType_iff]
    exact iff_false_intro fun both => untyped both.1

theorem faithful_related (relation : Relation) (quantifier : Quantifier) {child : Pattern}
    (childFaithful : Faithful graph aim child) :
    Faithful graph aim (.related relation quantifier child) := by
  intro path hook names later found row node compiled anchored
  obtain ⟨rest, below, rfl⟩ := clauses_related_eq_ok.1 compiled
  cases isLeaf : child.isLeaf with
  | true =>
      -- A bare class is met at the target itself, so its clauses ask for the class alone.
      obtain ⟨className, rfl⟩ : ∃ className, child = .leaf className := by
        cases child <;> simp_all [Pattern.isLeaf]
      rw [farEnd_of_leaf] at below ⊢
      obtain ⟨resolved, identified, rfl, rfl⟩ := clauses_leaf_eq_ok.1 below
      rw [leafClauses, if_pos (by simp)]
      apply (answers_edge_type anchored _ quantifier resolved).of_iff
      intro value
      rw [holds_related_leaf, ofClass_iff identified]
      rfl
  | false =>
      rw [farEnd_of_not_leaf aim names isLeaf] at below ⊢
      have free := anchored.within.getElem?_eq_none (names.fresh_not_mem freshBase)
      rw [Graph.groupRows_cons, Graph.clauseRows]
      apply Answers.of_iff (Answers.through free (anchored.fresh freshBase node).notTarget _
        fun middle _ => childFaithful below (anchored.fresh freshBase middle))
        (holds_related_of_not_leaf graph aim.space relation quantifier isLeaf node)
      intro middle
      rw [Graph.mem_edgeRows_of_bound anchored.has]
      constructor
      · intro found
        obtain ⟨value, _, led, rfl⟩ := found
        exact ⟨value, led, rfl⟩
      · intro found
        obtain ⟨value, led, rfl⟩ := found
        exact ⟨value, Row.allows_of_eq_none value free, led, rfl⟩

theorem answers_branches (branches : List Pattern)
    (eachFaithful : ∀ branch ∈ branches, Faithful graph aim branch)
    {path hook : String} {index : Nat} {names later : NameSupply} {groups : List (List Clause)}
    {row : Row} {node : Term}
    (compiled : groupsOfBranches aim path hook index names branches = .ok (groups, later))
    (anchored : Anchored aim hook names row node) :
    Answers aim.target later row (SomeHolds graph aim.space branches node)
      (graph.unionRows row groups) := by
  induction branches generalizing index names groups with
  | nil =>
      simp only [groupsOfBranches, Except.ok.injEq, Prod.mk.injEq] at compiled
      rw [← compiled.1, Graph.unionRows]
      apply (Answers.nothing aim.target later row).of_iff
      intro value
      rw [SomeHolds]
  | cons branch rest inductionHypothesis =>
      obtain ⟨group, between, others, first, second, rfl⟩ :=
        groupsOfBranches_cons_eq_ok.1 compiled
      have betweenExtends : between.Extends names := clauses_extends branch first
      have laterExtends : later.Extends between := groupsOfBranches_extends rest
        (fun other _ _ _ _ _ => clauses_extends other) second
      have firstAnswers := eachFaithful branch List.mem_cons_self first anchored
      have restAnswers := inductionHypothesis
        (fun other member => eachFaithful other (List.mem_cons_of_mem branch member)) second
        (anchored.advance betweenExtends (Row.extends_refl row)
          (anchored.within.mono betweenExtends))
      rw [Graph.unionRows]
      apply ((firstAnswers.widen laterExtends).or restAnswers).of_iff
      intro value
      rw [SomeHolds]

/-- The clauses of the parts find what every part finds. Without parts, nothing is left to be
found, and the target must have its value already. -/
theorem answers_parts (parts : List Pattern)
    (eachFaithful : ∀ part ∈ parts, Faithful graph aim part)
    {path hook : String} {names later : NameSupply} {found : List Clause}
    {row : Row} {node : Term}
    (compiled : clausesOfParts aim path hook names parts = .ok (found, later))
    (anchored : Anchored aim hook names row node)
    (settled : parts ≠ [] ∨ ∃ value, row[aim.target]? = some value) :
    Answers aim.target later row (EveryHolds graph aim.space parts node)
      (graph.groupRows [row] found) := by
  induction parts generalizing names found row with
  | nil =>
      simp only [clausesOfParts, Except.ok.injEq, Prod.mk.injEq] at compiled
      obtain ⟨rfl, rfl⟩ := compiled
      obtain ⟨value, has⟩ := settled.resolve_left fun nonempty => nonempty rfl
      rw [Graph.groupRows]
      apply (Answers.self anchored.within has).of_iff
      intro other
      rw [EveryHolds]
  | cons part rest inductionHypothesis =>
      obtain ⟨first, between, others, firstCompiled, restCompiled, rfl⟩ :=
        clausesOfParts_cons_eq_ok.1 compiled
      have firstAnswers := eachFaithful part List.mem_cons_self firstCompiled anchored
      rw [Graph.groupRows_append]
      apply Answers.of_iff (firstAnswers.and _) (fun value => by rw [EveryHolds])
      intro middle inFirst
      obtain ⟨value, has, _⟩ := firstAnswers.sound middle inFirst
      exact inductionHypothesis
        (fun other member => eachFaithful other (List.mem_cons_of_mem part member)) restCompiled
        (anchored.advance (clauses_extends part firstCompiled)
          (firstAnswers.keeps middle inFirst) (firstAnswers.within middle inFirst))
        (Or.inr ⟨value, has⟩)

theorem faithful (pattern : Pattern) : Faithful graph aim pattern := by
  induction pattern using treeInduction with
  | leaf className => exact faithful_leaf className
  | constraint className child inductionHypothesis =>
      exact faithful_constraint className inductionHypothesis
  | related relation quantifier child inductionHypothesis =>
      exact faithful_related relation quantifier inductionHypothesis
  | choice branches inductionHypothesis =>
      intro path hook names later found row node compiled anchored
      obtain ⟨_, groups, below, rfl⟩ := clauses_choice_eq_ok.1 compiled
      have rows : graph.groupRows [row] [.union groups] = graph.unionRows row groups := by
        simp [Graph.groupRows, Graph.clauseRows]
      rw [rows]
      apply (answers_branches branches inductionHypothesis below anchored).of_iff
      intro value
      rw [Holds]
  | all parts inductionHypothesis =>
      intro path hook names later found row node compiled anchored
      obtain ⟨nonempty, below⟩ := clauses_all_eq_ok.1 compiled
      apply (answers_parts parts inductionHypothesis below anchored (Or.inl nonempty)).of_iff
      intro value
      rw [Holds]

end Forms

end Pattern

/-! ## Compiled queries -/

namespace Query

def pairRow (target : String) (equipment value : Term) : Row :=
  Std.ExtTreeMap.insert (Std.ExtTreeMap.insert ∅ root equipment) target value

theorem getElem?_pairRow {target : String} (notRoot : target ≠ root) (equipment value : Term)
    (name : String) :
    (pairRow target equipment value)[name]? =
      if name = root then some equipment else if name = target then some value else none := by
  rw [pairRow, Row.getElem?_insert, Row.getElem?_insert]
  by_cases isTarget : name = target
  · subst isTarget
    simp [notRoot]
  · by_cases isRoot : name = root
    · subst isRoot
      simp [notRoot]
    · simp [isTarget, isRoot, Ne.symm isTarget, Ne.symm isRoot]

theorem mem_pairRow {target : String} (notRoot : target ≠ root) (equipment value : Term)
    (name : String) : name ∈ pairRow target equipment value ↔ name = root ∨ name = target := by
  rw [Std.ExtTreeMap.mem_iff_isSome_getElem?, getElem?_pairRow notRoot]
  by_cases isRoot : name = root
  · simp [isRoot]
  · by_cases isTarget : name = target
    · simp [isTarget, notRoot]
    · simp [isRoot, isTarget]

theorem restrict_eq_pairRow {target : String} (notRoot : target ≠ root) {row : Row}
    {equipment value : Term} (hasRoot : row[root]? = some equipment)
    (hasTarget : row[target]? = some value) :
    row.restrict [root, target] = pairRow target equipment value := by
  apply Std.ExtTreeMap.ext_getElem?
  intro name
  rw [Row.getElem?_restrict, getElem?_pairRow notRoot]
  by_cases isRoot : name = root
  · simp [isRoot, hasRoot]
  · by_cases isTarget : name = target
    · simp [isTarget, hasTarget, notRoot]
    · simp [isRoot, isTarget]

theorem mem_taken_names {target name : String} :
    name ∈ (names target).taken ↔ target = name ∨ root = name := by
  simp [names]

theorem anchored_root {space : Namespace} {target : String} (notRoot : target ≠ root)
    (equipment : Term) :
    Pattern.Anchored ⟨space, target⟩ root (names target)
      (Std.ExtTreeMap.insert ∅ root equipment) equipment where
  notTarget := Ne.symm notRoot
  targetTaken := mem_taken_names.2 (Or.inl rfl)
  within := by
    intro name member
    rw [Std.ExtTreeMap.mem_insert, Std.LawfulEqCmp.compare_eq_iff_eq] at member
    exact mem_taken_names.2 (Or.inr (member.resolve_right Std.ExtTreeMap.not_mem_empty))
  has := by simp

/-- The solutions of a compiled query are the rows of an equipment of the class and a value that
the pattern finds from it. -/
theorem mem_solutions_iff {space : Namespace} {className target : String} {pattern : Pattern}
    {query : Query} (compiled : compile space className target pattern = .ok query)
    (graph : Graph) (row : Row) :
    row ∈ graph.solutions query ↔ ∃ equipment value,
      Pattern.OfClass graph space className equipment ∧
      pattern.Holds graph space equipment value ∧ row = pairRow target equipment value := by
  obtain ⟨notRoot, _, resolved, found, later, identified, below, rfl⟩ := compile_eq_ok.1 compiled
  have answers : ∀ equipment, Answers target later (Std.ExtTreeMap.insert ∅ root equipment)
      (pattern.Holds graph space equipment)
      (graph.groupRows [Std.ExtTreeMap.insert ∅ root equipment] found) :=
    fun equipment => Pattern.faithful pattern below (anchored_root notRoot equipment)
  have inGroup : ∀ full, full ∈ graph.groupRows [∅] (.hasType root resolved :: found) ↔
      ∃ equipment, Pattern.OfClass graph space className equipment ∧
        full ∈ graph.groupRows [Std.ExtTreeMap.insert ∅ root equipment] found := by
    intro full
    simp only [Graph.groupRows_cons, Graph.clauseRows, List.mem_flatMap, Graph.mem_typeRows,
      Pattern.ofClass_iff identified]
    constructor
    · intro found
      obtain ⟨_, ⟨equipment, _, typed, rfl⟩, inSecond⟩ := found
      exact ⟨equipment, typed, inSecond⟩
    · intro found
      obtain ⟨equipment, typed, inSecond⟩ := found
      exact ⟨_, ⟨equipment, Row.allows_of_eq_none equipment (by simp), typed, rfl⟩, inSecond⟩
  simp only [Graph.solutions, List.mem_map, inGroup]
  constructor
  · intro found
    obtain ⟨full, ⟨equipment, typed, inSecond⟩, rfl⟩ := found
    obtain ⟨value, hasTarget, found⟩ := (answers equipment).sound full inSecond
    have hasRoot := (answers equipment).keeps full inSecond root equipment (by simp)
    exact ⟨equipment, value, typed, found, restrict_eq_pairRow notRoot hasRoot hasTarget⟩
  · intro found
    obtain ⟨equipment, value, typed, found, rfl⟩ := found
    obtain ⟨full, inSecond, hasTarget⟩ := (answers equipment).complete value found
      (Row.allows_of_eq_none value (by simp [Ne.symm notRoot]))
    have hasRoot := (answers equipment).keeps full inSecond root equipment (by simp)
    exact ⟨full, ⟨equipment, typed, inSecond⟩, restrict_eq_pairRow notRoot hasRoot hasTarget⟩

/-- Whenever a pattern compiles, the query answers over every graph; each of its rows has values
for the equipment and the target only, and the pairs in its rows are the equipment of the class
with what the pattern finds from it. -/
theorem answer_compile_eq_holds {space : Namespace} {className target : String}
    {pattern : Pattern} {query : Query}
    (compiled : compile space className target pattern = .ok query) (graph : Graph) :
    target ≠ root ∧ ∃ rows, graph.answer none query = .ok rows ∧
      (∀ row ∈ rows, ∀ name, name ∈ row ↔ name = root ∨ name = target) ∧
      {pair : Term × Term | ∃ row ∈ rows, row[root]? = some pair.1 ∧ row[target]? = some pair.2} =
        {pair | Pattern.OfClass graph space className pair.1 ∧
          pattern.Holds graph space pair.1 pair.2} := by
  have notRoot := (compile_eq_ok.1 compiled).1
  refine ⟨notRoot, graph.solutions query, rfl, ?_, ?_⟩
  · intro row member
    obtain ⟨equipment, value, _, _, rfl⟩ := (mem_solutions_iff compiled graph row).1 member
    exact mem_pairRow notRoot equipment value
  · ext ⟨equipment, value⟩
    simp only [Set.mem_ofPred_eq]
    constructor
    · intro found
      obtain ⟨row, member, hasRoot, hasTarget⟩ := found
      obtain ⟨equipment', value', typed, found, rfl⟩ :=
        (mem_solutions_iff compiled graph row).1 member
      rw [getElem?_pairRow notRoot, if_pos rfl] at hasRoot
      rw [getElem?_pairRow notRoot, if_neg notRoot, if_pos rfl] at hasTarget
      obtain rfl := Option.some.inj hasRoot
      obtain rfl := Option.some.inj hasTarget
      exact ⟨typed, found⟩
    · intro found
      obtain ⟨typed, found⟩ := found
      refine ⟨_, (mem_solutions_iff compiled graph _).2 ⟨equipment, value, typed, found, rfl⟩, ?_, ?_⟩
      · rw [getElem?_pairRow notRoot, if_pos rfl]
      · rw [getElem?_pairRow notRoot, if_neg notRoot, if_pos rfl]

def loopGraph : Graph :=
  ⟨.ofList [Graph.typing (.blank "v") (Namespace.brick.iri "VAV"),
    ⟨.blank "v", Namespace.brick.iri "hasPart", .blank "v"⟩,
    ⟨.blank "v", Namespace.brick.iri "hasPoint", .blank "v"⟩] compare⟩

/-- A sensor of a part, or the part's point that is a unit if the part is one. -/
def loopPattern : Pattern :=
  .related .hasPart .oneOrMore (.choice [.leaf "Sensor", .constraint "VAV" (.leaf "VAV")])

/-- The target is named like the fresh variable that the choice would hang on. -/
theorem answer_compile_eq_holds_of_loop :
    ∃ query, compile .brick "VAV" "node__G__0" loopPattern = .ok query ∧
      "node__G__0" ≠ root ∧ ∃ rows, loopGraph.answer none query = .ok rows ∧
      (∀ row ∈ rows, ∀ name, name ∈ row ↔ name = root ∨ name = "node__G__0") ∧
      {pair : Term × Term | ∃ row ∈ rows,
          row[root]? = some pair.1 ∧ row["node__G__0"]? = some pair.2} =
        {pair | Pattern.OfClass loopGraph .brick "VAV" pair.1 ∧
          loopPattern.Holds loopGraph .brick pair.1 pair.2} :=
  ⟨_, rfl, answer_compile_eq_holds rfl loopGraph⟩

end Query

end BuildingRules
