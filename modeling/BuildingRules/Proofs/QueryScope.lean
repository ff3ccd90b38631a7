import BuildingRules.Proofs.IntroducedNames
import BuildingRules.Proofs.UnrelatedTriples

/-!
# Scopes in compiled queries

The clauses of a pattern keep to their scope: whatever variable they start at, an edge before has
led to it, and whichever groups are taken of the unions, some edge leads to the target. So a
compiled query meets no clause whose subject has no value, behind the clause that gives `root` its
values: `Query.wellScoped`.
-/

set_option autoImplicit false

namespace BuildingRules

/-! ## Scopes -/

namespace Clause

theorem Scoped.mono {scope wider : List String} {clauses : List Clause}
    (isScoped : Scoped scope clauses) (within : scope ⊆ wider) : Scoped wider clauses := by
  induction isScoped generalizing wider with
  | nil => exact .nil
  | hasType inScope _ inductionHypothesis =>
    exact .hasType (within inScope) (inductionHypothesis within)
  | edge inScope _ inductionHypothesis =>
    exact .edge (within inScope) (inductionHypothesis (List.cons_subset_cons _ within))
  | union _ _ groupsScoped inductionHypothesis =>
    exact .union (fun group listed => groupsScoped group listed within)
      (inductionHypothesis within)

theorem Scoped.append {scope : List String} {first second : List Clause}
    (isScoped : Scoped scope first) (others : Scoped scope second) :
    Scoped scope (first ++ second) := by
  induction isScoped with
  | nil => exact others
  | hasType inScope _ inductionHypothesis => exact .hasType inScope (inductionHypothesis others)
  | edge inScope _ inductionHypothesis =>
    exact .edge inScope (inductionHypothesis (others.mono (List.subset_cons_self _ _)))
  | union groups _ _ inductionHypothesis => exact .union groups (inductionHypothesis others)

/-- Unions opened, every subject is in scope from the start or some edge leads to it. -/
theorem Scoped.subject_mem {scope : List String} {clauses : List Clause}
    (isScoped : Scoped scope clauses) : ∀ clause ∈ triplesOfGroup clauses, ∀ subject,
      clause.subject? = some subject → subject ∈ scope ∨ subject ∈ objects clauses := by
  induction isScoped with
  | nil => simp
  | hasType inScope _ inductionHypothesis =>
    rw [triplesOfGroup_hasType, objects_hasType, List.forall_mem_cons]
    refine ⟨fun subject isSubject => .inl ?_, inductionHypothesis⟩
    exact Option.some.inj isSubject ▸ inScope
  | edge inScope _ inductionHypothesis =>
    rw [triplesOfGroup_edge, objects_edge, List.forall_mem_cons]
    refine ⟨fun subject isSubject => .inl ?_, fun clause listed subject isSubject => ?_⟩
    · exact Option.some.inj isSubject ▸ inScope
    · have known := inductionHypothesis clause listed subject isSubject
      simp only [List.mem_cons] at known ⊢
      tauto
  | union _ _ groupsScoped inductionHypothesis =>
    rw [triplesOfGroup_union, objects_union, List.forall_mem_append]
    refine ⟨fun clause listed subject isSubject => ?_, fun clause listed subject isSubject => ?_⟩
    · obtain ⟨group, inGroups, inGroup⟩ := List.mem_flatMap.1 listed
      exact (groupsScoped group inGroups clause inGroup subject isSubject).imp_right fun led =>
        List.mem_append_left _ (List.mem_flatMap.2 ⟨group, inGroups, led⟩)
    · exact (inductionHypothesis clause listed subject isSubject).imp_right
        (List.mem_append_right _)

/-! ## Choices -/

theorem Choice.append {first second front back : List Clause} (isFront : Choice first front)
    (isBack : Choice second back) : Choice (first ++ second) (front ++ back) := by
  induction isFront with
  | nil => exact isBack
  | hasType _ inductionHypothesis => exact .hasType inductionHypothesis
  | edge _ inductionHypothesis => exact .edge inductionHypothesis
  | union listed isFirst _ _ inductionHypothesis =>
    rw [List.append_assoc]
    exact .union listed isFirst inductionHypothesis

theorem Choice.exists_append {first second taken : List Clause}
    (chosen : Choice (first ++ second) taken) :
    ∃ front back, Choice first front ∧ Choice second back ∧ taken = front ++ back := by
  induction first generalizing taken with
  | nil => exact ⟨[], taken, .nil, chosen, rfl⟩
  | cons clause rest inductionHypothesis =>
    cases chosen with
    | hasType chosen =>
      obtain ⟨front, back, isFront, isBack, rfl⟩ := inductionHypothesis chosen
      exact ⟨_ :: front, back, .hasType isFront, isBack, rfl⟩
    | edge chosen =>
      obtain ⟨front, back, isFront, isBack, rfl⟩ := inductionHypothesis chosen
      exact ⟨_ :: front, back, .edge isFront, isBack, rfl⟩
    | union listed isFirst chosen =>
      obtain ⟨front, back, isFront, isBack, rfl⟩ := inductionHypothesis chosen
      exact ⟨_ ++ front, back, .union listed isFirst isFront, isBack, (List.append_assoc ..).symm⟩

/-- All that is taken is there when unions are opened. -/
theorem Choice.subset_triples {clauses taken : List Clause} (chosen : Choice clauses taken) :
    taken ⊆ triplesOfGroup clauses := by
  induction chosen with
  | nil => exact List.nil_subset _
  | hasType _ inductionHypothesis =>
    rw [triplesOfGroup_hasType]
    exact List.cons_subset_cons _ inductionHypothesis
  | edge _ inductionHypothesis =>
    rw [triplesOfGroup_edge]
    exact List.cons_subset_cons _ inductionHypothesis
  | union inGroups _ _ firstTriples inductionHypothesis =>
    rw [triplesOfGroup_union]
    refine List.append_subset.2 ⟨fun clause listed => ?_,
      List.Subset.trans inductionHypothesis (List.subset_append_right _ _)⟩
    exact List.mem_append_left _ (List.mem_flatMap.2 ⟨_, inGroups, firstTriples listed⟩)

/-- Some edge leads to the variable. -/
def Binds (clauses : List Clause) (name : String) : Prop :=
  ∃ subject predicate quantifier, .edge subject predicate quantifier name ∈ clauses

theorem Binds.mono {clauses wider : List Clause} {name : String} (binds : Binds clauses name)
    (within : clauses ⊆ wider) : Binds wider name := by
  obtain ⟨subject, predicate, quantifier, listed⟩ := binds
  exact ⟨subject, predicate, quantifier, within listed⟩

/-! ## Orderly groups -/

/-- With the hook in scope all subjects are, some groups can be taken of the unions, and no edge
starts at the target. -/
structure Orderly (hook target : String) (clauses : List Clause) : Prop where
  scope : ∀ scope, hook ∈ scope → Scoped scope clauses
  choice : ∃ taken, Choice clauses taken
  starts : ∀ subject predicate quantifier object,
    .edge subject predicate quantifier object ∈ triplesOfGroup clauses → subject ≠ target

namespace Orderly

variable {hook target : String} {first second rest : List Clause}

theorem nil : Orderly hook target [] where
  scope _ _ := .nil
  choice := ⟨[], .nil⟩
  starts := by simp

theorem hasType (className : Iri) (orderly : Orderly hook target rest) :
    Orderly hook target (.hasType hook className :: rest) where
  scope scope inScope := .hasType inScope (orderly.scope scope inScope)
  choice := by
    obtain ⟨taken, chosen⟩ := orderly.choice
    exact ⟨_, .hasType chosen⟩
  starts := by simpa using orderly.starts

/-- Behind an edge, the clauses may start where the edge leads to. -/
theorem edge {object : String} (notTarget : hook ≠ target) (predicate : Iri)
    (quantifier : Quantifier) (orderly : Orderly object target rest) :
    Orderly hook target (.edge hook predicate quantifier object :: rest) where
  scope scope inScope := .edge inScope (orderly.scope (object :: scope) List.mem_cons_self)
  choice := by
    obtain ⟨taken, chosen⟩ := orderly.choice
    exact ⟨_, .edge chosen⟩
  starts subject otherPredicate otherQuantifier other listed := by
    rw [triplesOfGroup_edge] at listed
    rcases List.mem_cons.1 listed with same | listed
    · obtain ⟨rfl, -⟩ := Clause.edge.inj same
      exact notTarget
    · exact orderly.starts _ _ _ _ listed

theorem append (isFirst : Orderly hook target first) (isSecond : Orderly hook target second) :
    Orderly hook target (first ++ second) where
  scope scope inScope := (isFirst.scope scope inScope).append (isSecond.scope scope inScope)
  choice := by
    obtain ⟨front, isFront⟩ := isFirst.choice
    obtain ⟨back, isBack⟩ := isSecond.choice
    exact ⟨_, isFront.append isBack⟩
  starts subject predicate quantifier object listed := by
    rw [triplesOfGroup_append] at listed
    exact (List.mem_append.1 listed).elim (isFirst.starts _ _ _ _) (isSecond.starts _ _ _ _)

theorem union {groups : List (List Clause)} (notEmpty : groups ≠ [])
    (orderly : ∀ group ∈ groups, Orderly hook target group) :
    Orderly hook target [.union groups] where
  scope scope inScope :=
    .union (fun group listed => (orderly group listed).scope scope inScope) .nil
  choice := by
    obtain ⟨group, listed⟩ := List.exists_mem_of_ne_nil groups notEmpty
    obtain ⟨taken, chosen⟩ := (orderly group listed).choice
    exact ⟨_, .union listed chosen .nil⟩
  starts subject predicate quantifier object listed := by
    rw [triplesOfGroup_union, triplesOfGroup_nil, List.append_nil] at listed
    obtain ⟨group, inGroups, inGroup⟩ := List.mem_flatMap.1 listed
    exact (orderly group inGroups).starts _ _ _ _ inGroup

end Orderly

end Clause

/-! ## Rows -/

/-- If the variables in scope have values at first, so has every subject when it is met. -/
theorem Graph.Meets.subject_mem {graph : Graph} {row met : Row} {clauses : List Clause}
    {clause : Clause} (meets : graph.Meets row clauses met clause) {scope : List String}
    (isScoped : Clause.Scoped scope clauses) (bound : ∀ name ∈ scope, name ∈ row) :
    ∀ subject, clause.subject? = some subject → subject ∈ met := by
  induction meets generalizing scope with
  | here =>
    intro subject isSubject
    cases isScoped with
    | hasType inScope => exact bound subject (Option.some.inj isSubject ▸ inScope)
    | edge inScope => exact bound subject (Option.some.inj isSubject ▸ inScope)
    | union => contradiction
  | @after row next met first clause rest inClause _ inductionHypothesis =>
    have stillBound : ∀ name, name ∈ row → name ∈ next := fun name isBound =>
      (extends_of_mem_clauseRows first row next inClause).mem isBound
    cases isScoped with
    | hasType _ restScoped =>
      exact inductionHypothesis restScoped fun name inScope => stillBound name (bound name inScope)
    | @edge _ subject object _ _ _ inScope restScoped =>
      refine inductionHypothesis restScoped (List.forall_mem_cons.2
        ⟨?_, fun name inScope => stillBound name (bound name inScope)⟩)
      obtain ⟨start, has⟩ := Row.mem_iff_exists.1 (bound subject inScope)
      rw [clauseRows, mem_edgeRows_of_bound has] at inClause
      obtain ⟨finish, -, -, rfl⟩ := inClause
      exact Row.mem_insert_iff.2 (.inr rfl)
    | union _ restScoped =>
      exact inductionHypothesis restScoped fun name inScope => stillBound name (bound name inScope)
  | within listed _ inductionHypothesis =>
    cases isScoped with
    | union groupsScoped => exact inductionHypothesis (groupsScoped _ listed) bound

/-! ## Clauses of a pattern -/

namespace Pattern

variable {aim : Aim}

/-- Wherever the pattern starts, its clauses are orderly. Only a bare class starts at the target. -/
def CompilesOrderly (aim : Aim) (pattern : Pattern) : Prop :=
  ∀ {path hook : String} {names later : NameSupply} {found : List Clause},
    pattern.clauses aim path hook names = .ok (found, later) →
    hook ≠ aim.target ∨ pattern.isLeaf = true → aim.target ∈ names.taken →
      Clause.Orderly hook aim.target found

theorem farEnd_ne_target {names : NameSupply} (isTaken : aim.target ∈ names.taken)
    (child : Pattern) : (farEnd aim names child).1 ≠ aim.target ∨ child.isLeaf = true := by
  cases isLeaf : child.isLeaf with
  | true => exact .inr rfl
  | false =>
    rw [farEnd_of_not_leaf aim names isLeaf]
    exact .inl fun same => NameSupply.fresh_not_mem names freshBase (same ▸ isTaken)

theorem orderly_leafClauses (hook : String) (className : Iri) :
    Clause.Orderly hook aim.target (leafClauses aim hook className) := by
  unfold leafClauses
  split
  next isTarget =>
    obtain rfl := beq_iff_eq.1 isTarget
    exact .hasType className .nil
  next notTarget =>
    exact .edge (fun same => notTarget (beq_iff_eq.2 same)) _ _ (.hasType className .nil)

/-- What compiling yields for each branch, it yields for each group. -/
theorem forall_mem_groups {Good : List Clause → Prop} {hook : String} (branches : List Pattern)
    (below : ∀ branch ∈ branches, ∀ {path : String} {names later : NameSupply}
      {found : List Clause}, branch.clauses aim path hook names = .ok (found, later) →
        aim.target ∈ names.taken → Good found)
    {path : String} {index : Nat} {names later : NameSupply} {groups : List (List Clause)}
    (compiled : groupsOfBranches aim path hook index names branches = .ok (groups, later))
    (isTaken : aim.target ∈ names.taken) : ∀ group ∈ groups, Good group := by
  have each := forall₂_groupsOfBranches branches compiled
  clear compiled
  induction each with
  | nil => exact List.forall_mem_nil _
  | cons first _ inductionHypothesis =>
    obtain ⟨_, _, _, wider, firstCompiled⟩ := first
    have belowFirst := below _ List.mem_cons_self firstCompiled (wider _ isTaken)
    exact List.forall_mem_cons.2 ⟨belowFirst,
      inductionHypothesis fun branch listed => below branch (List.mem_cons_of_mem _ listed)⟩

theorem orderly_clausesOfParts (parts : List Pattern)
    (below : ∀ part ∈ parts, CompilesOrderly aim part)
    {path hook : String} {names later : NameSupply} {found : List Clause}
    (compiled : clausesOfParts aim path hook names parts = .ok (found, later))
    (notTarget : hook ≠ aim.target) (isTaken : aim.target ∈ names.taken) :
    Clause.Orderly hook aim.target found := by
  induction parts generalizing names found with
  | nil =>
    obtain ⟨rfl, -⟩ := clausesOfParts_nil_eq_ok.1 compiled
    exact .nil
  | cons part rest inductionHypothesis =>
    obtain ⟨first, between, others, firstCompiled, restCompiled, rfl⟩ :=
      clausesOfParts_cons_eq_ok.1 compiled
    obtain ⟨belowPart, belowRest⟩ := List.forall_mem_cons.1 below
    exact (belowPart firstCompiled (.inl notTarget) isTaken).append
      (inductionHypothesis belowRest restCompiled (clauses_extends part firstCompiled _ isTaken))

theorem compilesOrderly (pattern : Pattern) : CompilesOrderly aim pattern := by
  induction pattern using treeInduction with
  | leaf className =>
    intro path hook names later found compiled _ _
    obtain ⟨resolved, -, rfl, -⟩ := clauses_leaf_eq_ok.1 compiled
    exact orderly_leafClauses hook resolved
  | constraint className child inductionHypothesis =>
    intro path hook names later found compiled notTarget isTaken
    obtain ⟨resolved, rest, -, below, rfl⟩ := clauses_constraint_eq_ok.1 compiled
    exact .hasType resolved
      (inductionHypothesis below (.inl (notTarget.resolve_right nofun)) isTaken)
  | related relation quantifier child inductionHypothesis =>
    intro path hook names later found compiled notTarget isTaken
    obtain ⟨rest, below, rfl⟩ := clauses_related_eq_ok.1 compiled
    exact .edge (notTarget.resolve_right nofun) _ _ (inductionHypothesis below
      (farEnd_ne_target isTaken child) (farEnd_extends aim names child _ isTaken))
  | choice branches inductionHypothesis =>
    intro path hook names later found compiled notTarget isTaken
    obtain ⟨notEmpty, groups, below, rfl⟩ := clauses_choice_eq_ok.1 compiled
    refine .union ?_ (forall_mem_groups branches (fun branch listed _ _ _ _ compiled =>
      inductionHypothesis branch listed compiled (.inl (notTarget.resolve_right nofun)))
      below isTaken)
    rintro rfl
    exact notEmpty (List.eq_nil_of_length_eq_zero (forall₂_groupsOfBranches branches below).length_eq)
  | all parts inductionHypothesis =>
    intro path hook names later found compiled notTarget isTaken
    exact orderly_clausesOfParts parts inductionHypothesis (clauses_all_eq_ok.1 compiled).2
      (notTarget.resolve_right nofun) isTaken

/-! ## The target -/

/-- Started away from the target, the pattern leads to it, whichever groups are taken. -/
def LeadsToTarget (aim : Aim) (pattern : Pattern) : Prop :=
  ∀ {path hook : String} {names later : NameSupply} {found taken : List Clause},
    pattern.clauses aim path hook names = .ok (found, later) → hook ≠ aim.target →
    aim.target ∈ names.taken → Clause.Choice found taken → Clause.Binds taken aim.target

theorem leadsToTarget_leaf (className : String) : LeadsToTarget aim (.leaf className) := by
  intro path hook names later found taken compiled notTarget _ chosen
  obtain ⟨resolved, -, rfl, -⟩ := clauses_leaf_eq_ok.1 compiled
  rw [leafClauses, if_neg (by simpa using notTarget)] at chosen
  cases chosen with
  | edge => exact ⟨_, _, _, List.mem_cons_self⟩

theorem leadsToTarget_related (relation : Relation) (quantifier : Quantifier) {child : Pattern}
    (below : LeadsToTarget aim child) :
    LeadsToTarget aim (.related relation quantifier child) := by
  intro path hook names later found taken compiled _ isTaken chosen
  obtain ⟨rest, childCompiled, rfl⟩ := clauses_related_eq_ok.1 compiled
  cases chosen with
  | edge chosen =>
    by_cases isTarget : (farEnd aim names child).1 = aim.target
    · rw [isTarget]
      exact ⟨_, _, _, List.mem_cons_self⟩
    · exact (below childCompiled isTarget (farEnd_extends aim names child _ isTaken) chosen).mono
        (List.subset_cons_self _ _)

theorem leadsToTarget (pattern : Pattern) : LeadsToTarget aim pattern := by
  induction pattern using treeInduction with
  | leaf className => exact leadsToTarget_leaf className
  | constraint className child inductionHypothesis =>
    intro path hook names later found taken compiled notTarget isTaken chosen
    obtain ⟨resolved, rest, -, below, rfl⟩ := clauses_constraint_eq_ok.1 compiled
    cases chosen with
    | hasType chosen =>
      exact (inductionHypothesis below notTarget isTaken chosen).mono (List.subset_cons_self _ _)
  | related relation quantifier child inductionHypothesis =>
    exact leadsToTarget_related relation quantifier inductionHypothesis
  | choice branches inductionHypothesis =>
    intro path hook names later found taken compiled notTarget isTaken chosen
    obtain ⟨-, groups, below, rfl⟩ := clauses_choice_eq_ok.1 compiled
    cases chosen with
    | union listed chosen =>
      have leads : ∀ group ∈ groups, ∀ taken, Clause.Choice group taken →
          Clause.Binds taken aim.target :=
        forall_mem_groups branches (fun branch inBranches _ _ _ _ compiled isTaken _ =>
          inductionHypothesis branch inBranches compiled notTarget isTaken) below isTaken
      exact (leads _ listed _ chosen).mono (List.subset_append_left _ _)
  | all parts inductionHypothesis =>
    intro path hook names later found taken compiled notTarget isTaken chosen
    obtain ⟨notEmpty, below⟩ := clauses_all_eq_ok.1 compiled
    -- the first part leads there already
    obtain ⟨part, rest, rfl⟩ := List.exists_cons_of_ne_nil notEmpty
    obtain ⟨first, between, others, firstCompiled, -, rfl⟩ := clausesOfParts_cons_eq_ok.1 below
    obtain ⟨front, back, isFront, -, rfl⟩ := chosen.exists_append
    exact (inductionHypothesis part List.mem_cons_self firstCompiled notTarget isTaken
      isFront).mono (List.subset_append_left _ _)

end Pattern

/-! ## Compiled queries -/

namespace Query

theorem mem_variableNames_iff {query : Query} {name : String} :
    name ∈ query.variableNames ↔
      (∃ clause ∈ query.triples, clause.subject? = some name) ∨
        name ∈ Clause.objects query.clauses := by
  have own : ∀ clause : Clause, name ∈ clause.ownVariables ↔
      clause.subject? = some name ∨ clause.object? = some name := by
    intro clause
    cases clause <;> simp [Clause.ownVariables, Clause.subject?, Clause.object?, eq_comm]
  simp only [variableNames, Std.ExtTreeSet.mem_toList, Std.ExtTreeSet.mem_ofList,
    List.contains_iff_mem, List.mem_flatMap, own, and_or_left, exists_or, Clause.objects,
    List.mem_filterMap, triples]

theorem mem_freshVariables {query : Query} {name : String} :
    name ∈ query.freshVariables ↔
      name ∈ query.variableNames ∧ name ≠ root ∧ name ≠ query.target := by
  simp [freshVariables]

theorem nodup_freshVariables (query : Query) : query.freshVariables.Nodup :=
  (nodup_toList_set _).filter _

/-- What is behind the clause that gives `root` its values, if the query was made from a pattern. -/
structure Behind (query : Query) (pattern : Pattern) (rest : List Clause) : Prop where
  starts : query.clauses = .hasType root query.className :: rest
  notRoot : query.target ≠ root
  orderly : Clause.Orderly root query.target rest
  handsOut : ∃ later, (names query.target).HandsOut later
    (pattern.nodes.countP Pattern.isPassage) (Pattern.introduced query.target rest)
  leads : ∀ taken, Clause.Choice rest taken → Clause.Binds taken query.target

theorem exists_behind_of_compile {space : Namespace} {className target : String}
    {pattern : Pattern} {query : Query}
    (compiled : compile space className target pattern = .ok query) :
    ∃ rest, query.Behind pattern rest := by
  obtain ⟨notRoot, -, resolved, rest, later, -, below, isQuery⟩ := compile_eq_ok.1 compiled
  have isTarget : query.target = target := by rw [isQuery]
  subst isTarget
  have isTaken : query.target ∈ (names query.target).taken := by simp [names]
  exact ⟨rest, {
    starts := by rw [isQuery]
    notRoot := notRoot
    orderly := Pattern.compilesOrderly pattern below (.inl notRoot.symm) isTaken
    handsOut := ⟨later, Pattern.introducesFresh pattern below isTaken⟩
    leads := fun _ chosen => Pattern.leadsToTarget pattern below notRoot.symm isTaken chosen }⟩

namespace Behind

variable {query : Query} {pattern : Pattern} {rest : List Clause}

theorem isScoped (behind : query.Behind pattern rest) : Clause.Scoped [root] rest :=
  behind.orderly.scope [root] (List.mem_singleton_self root)

theorem exists_choice (behind : query.Behind pattern rest) :
    ∃ taken, Clause.Choice query.clauses taken := by
  obtain ⟨taken, chosen⟩ := behind.orderly.choice
  rw [behind.starts]
  exact ⟨_, .hasType chosen⟩

theorem binds (behind : query.Behind pattern rest) {taken : List Clause}
    (chosen : Clause.Choice query.clauses taken) : Clause.Binds taken query.target := by
  rw [behind.starts] at chosen
  cases chosen with
  | hasType chosen => exact (behind.leads _ chosen).mono (List.subset_cons_self _ _)

/-- In scope, no variable occurs but `root` and those that edges lead to. -/
theorem mem_variableNames (behind : query.Behind pattern rest) {name : String} :
    name ∈ query.variableNames ↔ name = root ∨ name ∈ Clause.objects rest := by
  rw [mem_variableNames_iff, triples, behind.starts, Clause.triplesOfGroup_hasType,
    Clause.objects_hasType, List.exists_mem_cons_iff]
  constructor
  · rintro ((isRoot | ⟨clause, listed, isSubject⟩) | led)
    · exact .inl (Option.some.inj isRoot).symm
    · exact (behind.isScoped.subject_mem clause listed name isSubject).imp_left
        List.mem_singleton.1
    · exact .inr led
  · rintro (rfl | led)
    · exact .inl (.inl rfl)
    · exact .inr led

theorem target_mem (behind : query.Behind pattern rest) : query.target ∈ query.variableNames := by
  obtain ⟨taken, chosen⟩ := behind.exists_choice
  obtain ⟨subject, predicate, quantifier, listed⟩ := behind.binds chosen
  exact mem_variableNames_iff.2
    (.inr (List.mem_filterMap.2 ⟨_, chosen.subset_triples listed, rfl⟩))

/-- The fresh variables are the names that the pattern introduces. -/
theorem mem_freshVariables_iff (behind : query.Behind pattern rest) {name : String} :
    name ∈ query.freshVariables ↔ name ∈ Pattern.introduced query.target rest := by
  obtain ⟨later, handsOut⟩ := behind.handsOut
  have rootTaken : root ∈ (names query.target).taken := by simp [names]
  rw [mem_freshVariables, behind.mem_variableNames]
  constructor
  · rintro ⟨isRoot | led, isNotRoot, notTarget⟩
    · exact absurd isRoot isNotRoot
    · exact List.mem_filter.2 ⟨led, bne_iff_ne.2 notTarget⟩
  · intro introduced
    obtain ⟨led, notTarget⟩ := List.mem_filter.1 introduced
    refine ⟨.inr led, ?_, bne_iff_ne.1 notTarget⟩
    rintro rfl
    exact handsOut.new root introduced rootTaken

theorem length_freshVariables (behind : query.Behind pattern rest) :
    query.freshVariables.length = pattern.nodes.countP Pattern.isPassage := by
  obtain ⟨later, handsOut⟩ := behind.handsOut
  have same : query.freshVariables.Perm (Pattern.introduced query.target rest) :=
    (List.perm_ext_iff_of_nodup (nodup_freshVariables query) handsOut.distinct).2
      fun _ => behind.mem_freshVariables_iff
  rw [← handsOut.length, same.length_eq]

theorem count_freshVariable (behind : query.Behind pattern rest) {name : String}
    (listed : name ∈ query.freshVariables) :
    (query.triples.filterMap Clause.object?).count name = 1 := by
  obtain ⟨later, handsOut⟩ := behind.handsOut
  have introduced := behind.mem_freshVariables_iff.1 listed
  have countOnce : (Pattern.introduced query.target rest).count name = 1 :=
    List.count_eq_one_of_mem handsOut.distinct introduced
  have notTarget := (List.mem_filter.1 introduced).2
  rw [Pattern.introduced, List.count_filter (p := (· != query.target)) notTarget] at countOnce
  rwa [triples, ← Clause.objects, behind.starts, Clause.objects_hasType]

theorem edge_starts (behind : query.Behind pattern rest) {subject object : String} {predicate : Iri}
    {quantifier : Quantifier}
    (listed : .edge subject predicate quantifier object ∈ query.triples) :
    subject = root ∨ subject ∈ query.freshVariables := by
  have occurs : subject ∈ query.variableNames := mem_variableNames_iff.2 (.inl ⟨_, listed, rfl⟩)
  rw [triples, behind.starts, Clause.triplesOfGroup_hasType] at listed
  have inRest := (List.mem_cons.1 listed).resolve_left (by simp)
  have notTarget := behind.orderly.starts subject predicate quantifier object inRest
  rw [mem_freshVariables]
  tauto

end Behind

/-- Where the variables of a query come from and where they are used. Behind the clause that gives
`root` its values, the clauses keep to their scope, and none is met without a value of its
subject. -/
structure WellScoped (query : Query) (pattern : Pattern) : Prop where
  names : ∀ name, name ∈ query.variableNames ↔
    name = root ∨ name = query.target ∨ name ∈ query.freshVariables
  distinct : (root :: query.target :: query.freshVariables).Nodup
  passages : query.freshVariables.length = pattern.nodes.countP Pattern.isPassage
  made : ∀ name ∈ query.freshVariables, ∃ number, name = "node__G__" ++ Nat.repr number
  once : ∀ name ∈ query.freshVariables,
    (query.triples.filterMap Clause.object?).count name = 1
  starts : ∀ subject predicate quantifier object,
    .edge subject predicate quantifier object ∈ query.triples →
      subject = root ∨ subject ∈ query.freshVariables
  choice : ∃ taken, Clause.Choice query.clauses taken
  target : ∀ taken, Clause.Choice query.clauses taken → Clause.Binds taken query.target
  scope : ∃ rest, query.clauses = .hasType root query.className :: rest ∧
    Clause.Scoped [root] rest ∧
    ∀ (graph : Graph) (start met : Row) (clause : Clause),
      start ∈ graph.typeRows ∅ root query.className → graph.Meets start rest met clause →
        ∀ subject, clause.subject? = some subject → subject ∈ met

theorem wellScoped {space : Namespace} {className target : String} {pattern : Pattern}
    {query : Query} (compiled : compile space className target pattern = .ok query) :
    query.WellScoped pattern := by
  obtain ⟨rest, behind⟩ := exists_behind_of_compile compiled
  refine ⟨?names, ?distinct, behind.length_freshVariables, ?made,
    fun _ => behind.count_freshVariable, fun _ _ _ _ => behind.edge_starts, behind.exists_choice,
    fun _ => behind.binds, rest, behind.starts, behind.isScoped, ?meets⟩
  case names =>
    intro name
    rw [mem_freshVariables]
    constructor
    · tauto
    · rintro (rfl | rfl | ⟨listed, -, -⟩)
      · exact behind.mem_variableNames.2 (.inl rfl)
      · exact behind.target_mem
      · exact listed
  case distinct =>
    simp [mem_freshVariables, nodup_freshVariables, behind.notRoot.symm]
  case made =>
    obtain ⟨later, handsOut⟩ := behind.handsOut
    intro name listed
    exact handsOut.made name (behind.mem_freshVariables_iff.1 listed)
  case meets =>
    intro graph start met clause isStart meets
    refine meets.subject_mem behind.isScoped (List.forall_mem_singleton.2 ?_)
    obtain ⟨equipment, -, -, rfl⟩ := Graph.mem_typeRows.1 isStart
    exact Row.mem_insert_iff.2 (.inr rfl)

/-- Both parts and both branches pass through further nodes on the way to the same value. -/
def crossingPattern : Pattern :=
  .choice
    [.all [.related .hasPart .oneOrMore (.constraint "Fan" (.leaf "Sensor")),
      .related .feeds .one (.related .hasPart .one (.leaf "Sensor"))],
    .related .isPartOf .zeroOrMore (.constraint "AHU" (.related .hasPoint .one (.leaf "Sensor")))]

/-- The target is named like the first fresh variable would be. -/
theorem wellScoped_of_crossingPattern :
    ∃ query, compile .brick "VAV" "node__G__0" crossingPattern = .ok query ∧
      query.freshVariables = ["node__G__1", "node__G__2", "node__G__3"] ∧
      query.WellScoped crossingPattern := by
  have fresh : (compile .brick "VAV" "node__G__0" crossingPattern).map freshVariables =
      .ok ["node__G__1", "node__G__2", "node__G__3"] := by decide +kernel
  obtain ⟨query, compiled, isFresh⟩ := map_eq_ok.1 fresh
  exact ⟨query, compiled, isFresh, wellScoped compiled⟩

end Query

end BuildingRules
