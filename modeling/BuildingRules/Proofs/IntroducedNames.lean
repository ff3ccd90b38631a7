import BuildingRules.Pattern.Places
import BuildingRules.Proofs.Compilation
import BuildingRules.Query.Scope
import Mathlib.Data.List.Nodup

/-!
# The names that a compiled pattern introduces

Besides to the target, the edges of a compiled pattern lead to fresh variables, each to another one
and one for each passage of the tree: `introducesFresh`. Compiling goes through the tree with one
supply of names, so what each part introduces is new to all parts before it.
-/

set_option autoImplicit false

namespace BuildingRules

/-! ## Clauses without unions -/

namespace Clause

theorem triplesOfGroups_eq_flatMap (groups : List (List Clause)) :
    triplesOfGroups groups = groups.flatMap triplesOfGroup := by
  induction groups with
  | nil => rw [triplesOfGroups, List.flatMap_nil]
  | cons group rest inductionHypothesis =>
    rw [triplesOfGroups, inductionHypothesis, List.flatMap_cons]

@[simp]
theorem triplesOfGroup_nil : triplesOfGroup [] = [] := by
  rw [triplesOfGroup]

@[simp]
theorem triplesOfGroup_hasType (subject : String) (className : Iri) (rest : List Clause) :
    triplesOfGroup (.hasType subject className :: rest) =
      .hasType subject className :: triplesOfGroup rest := by
  rw [triplesOfGroup, triples, List.singleton_append]

@[simp]
theorem triplesOfGroup_edge (subject object : String) (predicate : Iri) (quantifier : Quantifier)
    (rest : List Clause) :
    triplesOfGroup (.edge subject predicate quantifier object :: rest) =
      .edge subject predicate quantifier object :: triplesOfGroup rest := by
  rw [triplesOfGroup, triples, List.singleton_append]

@[simp]
theorem triplesOfGroup_union (groups : List (List Clause)) (rest : List Clause) :
    triplesOfGroup (.union groups :: rest) =
      groups.flatMap triplesOfGroup ++ triplesOfGroup rest := by
  rw [triplesOfGroup, triples, triplesOfGroups_eq_flatMap]

@[simp]
theorem triplesOfGroup_append (first second : List Clause) :
    triplesOfGroup (first ++ second) = triplesOfGroup first ++ triplesOfGroup second := by
  induction first with
  | nil => simp
  | cons clause rest inductionHypothesis =>
    rw [List.cons_append, triplesOfGroup, inductionHypothesis, triplesOfGroup, List.append_assoc]

/-- The variables that the edges lead to, also those within unions. -/
def objects (clauses : List Clause) : List String := (triplesOfGroup clauses).filterMap object?

@[simp]
theorem objects_nil : objects [] = [] := by
  simp [objects]

@[simp]
theorem objects_hasType (subject : String) (className : Iri) (rest : List Clause) :
    objects (.hasType subject className :: rest) = objects rest := by
  rw [objects, triplesOfGroup_hasType, List.filterMap_cons_none rfl, objects]

@[simp]
theorem objects_edge (subject object : String) (predicate : Iri) (quantifier : Quantifier)
    (rest : List Clause) :
    objects (.edge subject predicate quantifier object :: rest) = object :: objects rest := by
  have leads : (edge subject predicate quantifier object).object? = some object := rfl
  rw [objects, triplesOfGroup_edge, List.filterMap_cons_some leads, objects]

@[simp]
theorem objects_union (groups : List (List Clause)) (rest : List Clause) :
    objects (.union groups :: rest) = groups.flatMap objects ++ objects rest := by
  simp only [objects, triplesOfGroup_union, List.filterMap_append, List.filterMap_flatMap]
  rfl

@[simp]
theorem objects_append (first second : List Clause) :
    objects (first ++ second) = objects first ++ objects second := by
  simp [objects]

end Clause

/-! ## What a supply has handed out in between -/

namespace NameSupply

/-- Between two states of a supply, as many names were handed out as are listed: all new, and no two
the same. -/
structure HandsOut (earlier later : NameSupply) (count : Nat) (names : List String) : Prop where
  wider : later.Extends earlier
  mark : later.mark = earlier.mark
  distinct : names.Nodup
  new : ∀ name ∈ names, name ∉ earlier.taken
  taken : ∀ name ∈ names, name ∈ later.taken
  length : names.length = count
  made : ∀ name ∈ names, ∃ number, name = earlier.candidate Pattern.freshBase number

theorem HandsOut.none (supply : NameSupply) : HandsOut supply supply 0 [] where
  wider := extends_refl supply
  mark := rfl
  distinct := List.nodup_nil
  new := List.forall_mem_nil _
  taken := List.forall_mem_nil _
  length := rfl
  made := List.forall_mem_nil _

theorem HandsOut.fresh (supply : NameSupply) :
    HandsOut supply (supply.fresh Pattern.freshBase).2 1 [(supply.fresh Pattern.freshBase).1] where
  wider := extends_fresh supply Pattern.freshBase
  mark := rfl
  distinct := List.nodup_singleton _
  new := List.forall_mem_singleton.2 (fresh_not_mem supply Pattern.freshBase)
  taken := List.forall_mem_singleton.2 (mem_taken_fresh.2 (.inl rfl))
  length := rfl
  made := List.forall_mem_singleton.2 ⟨_, rfl⟩

/-- What is handed out later is not among what was handed out before. -/
theorem HandsOut.append {first middle last : NameSupply} {count more : Nat}
    {names others : List String} (earlier : HandsOut first middle count names)
    (later : HandsOut middle last more others) :
    HandsOut first last (count + more) (names ++ others) where
  wider := later.wider.trans earlier.wider
  mark := later.mark.trans earlier.mark
  distinct := earlier.distinct.append later.distinct
    fun name listed inOthers => later.new name inOthers (earlier.taken name listed)
  new := List.forall_mem_append.2 ⟨earlier.new, fun name listed isTaken =>
    later.new name listed (earlier.wider name isTaken)⟩
  taken := List.forall_mem_append.2
    ⟨fun name listed => later.wider name (earlier.taken name listed), later.taken⟩
  length := by rw [List.length_append, earlier.length, later.length]
  made := List.forall_mem_append.2 ⟨earlier.made, fun name listed => by
    obtain ⟨number, isMade⟩ := later.made name listed
    exact ⟨number, by rw [isMade, candidate, candidate, earlier.mark]⟩⟩

end NameSupply

/-! ## Fresh variables of a pattern -/

namespace Pattern

/-- The variables other than the target that the edges lead to. -/
def introduced (target : String) (clauses : List Clause) : List String :=
  (Clause.objects clauses).filter (· != target)

section Introduced

variable {target : String}

@[simp]
theorem introduced_nil : introduced target [] = [] := by
  simp [introduced]

@[simp]
theorem introduced_hasType (subject : String) (className : Iri) (rest : List Clause) :
    introduced target (.hasType subject className :: rest) = introduced target rest := by
  simp [introduced]

@[simp]
theorem introduced_edge (subject object : String) (predicate : Iri) (quantifier : Quantifier)
    (rest : List Clause) :
    introduced target (.edge subject predicate quantifier object :: rest) =
      if object = target then introduced target rest else object :: introduced target rest := by
  simp [introduced, List.filter_cons]

@[simp]
theorem introduced_union (groups : List (List Clause)) :
    introduced target [.union groups] = groups.flatMap (introduced target) := by
  simp only [introduced, Clause.objects_union, Clause.objects_nil, List.append_nil,
    List.filter_flatMap]
  rfl

@[simp]
theorem introduced_append (first second : List Clause) :
    introduced target (first ++ second) = introduced target first ++ introduced target second := by
  simp [introduced]

end Introduced

variable {aim : Aim}

/-- Compiled with a supply that knows the target, the pattern introduces names that the supply
hands out, one for each passage. -/
def IntroducesFresh (aim : Aim) (pattern : Pattern) : Prop :=
  ∀ {path hook : String} {names later : NameSupply} {found : List Clause},
    pattern.clauses aim path hook names = .ok (found, later) → aim.target ∈ names.taken →
      names.HandsOut later (pattern.nodes.countP isPassage) (introduced aim.target found)

theorem introducesFresh_leaf (className : String) : IntroducesFresh aim (.leaf className) := by
  intro path hook names later found compiled isTaken
  obtain ⟨resolved, -, rfl, rfl⟩ := clauses_leaf_eq_ok.1 compiled
  have nothing : introduced aim.target (leafClauses aim hook resolved) = [] := by
    unfold leafClauses
    split <;> simp
  rw [nothing, nodes]
  exact .none later

theorem introducesFresh_constraint (className : String) {child : Pattern}
    (below : IntroducesFresh aim child) : IntroducesFresh aim (.constraint className child) := by
  intro path hook names later found compiled isTaken
  obtain ⟨resolved, rest, -, childCompiled, rfl⟩ := clauses_constraint_eq_ok.1 compiled
  rw [introduced_hasType, nodes, List.countP_cons_of_neg (by simp [isPassage])]
  exact below childCompiled isTaken

theorem introducesFresh_related (relation : Relation) (quantifier : Quantifier) {child : Pattern}
    (below : IntroducesFresh aim child) :
    IntroducesFresh aim (.related relation quantifier child) := by
  intro path hook names later found compiled isTaken
  obtain ⟨rest, childCompiled, rfl⟩ := clauses_related_eq_ok.1 compiled
  rw [introduced_edge, nodes]
  cases isLeaf : child.isLeaf with
  | true =>
    rw [farEnd, if_pos isLeaf] at childCompiled ⊢
    rw [if_pos rfl, List.countP_cons_of_neg (by simp [isPassage, isLeaf])]
    exact below childCompiled isTaken
  | false =>
    rw [farEnd_of_not_leaf aim names isLeaf] at childCompiled ⊢
    have notTarget : (names.fresh freshBase).1 ≠ aim.target := fun same =>
      NameSupply.fresh_not_mem names freshBase (same ▸ isTaken)
    have handsOut := (NameSupply.HandsOut.fresh names).append
      (below childCompiled (NameSupply.extends_fresh names freshBase _ isTaken))
    rw [if_neg notTarget, List.countP_cons_of_pos (by simp [isPassage, isLeaf]), Nat.add_comm]
    exact handsOut

theorem introducesFresh_branches (branches : List Pattern)
    (below : ∀ branch ∈ branches, IntroducesFresh aim branch)
    {path hook : String} {index : Nat} {names later : NameSupply} {groups : List (List Clause)}
    (compiled : groupsOfBranches aim path hook index names branches = .ok (groups, later))
    (isTaken : aim.target ∈ names.taken) :
    names.HandsOut later ((nodesIn branches).countP isPassage)
      (groups.flatMap (introduced aim.target)) := by
  induction branches generalizing index names groups with
  | nil =>
    obtain ⟨rfl, rfl⟩ := groupsOfBranches_nil_eq_ok.1 compiled
    rw [nodesIn]
    exact .none later
  | cons branch rest inductionHypothesis =>
    obtain ⟨group, between, others, first, second, rfl⟩ := groupsOfBranches_cons_eq_ok.1 compiled
    obtain ⟨belowBranch, belowRest⟩ := List.forall_mem_cons.1 below
    have handsOut := belowBranch first isTaken
    rw [nodesIn, List.countP_append, List.flatMap_cons]
    exact handsOut.append
      (inductionHypothesis belowRest second (handsOut.wider _ isTaken))

theorem introducesFresh_parts (parts : List Pattern)
    (below : ∀ part ∈ parts, IntroducesFresh aim part)
    {path hook : String} {names later : NameSupply} {found : List Clause}
    (compiled : clausesOfParts aim path hook names parts = .ok (found, later))
    (isTaken : aim.target ∈ names.taken) :
    names.HandsOut later ((nodesIn parts).countP isPassage) (introduced aim.target found) := by
  induction parts generalizing names found with
  | nil =>
    obtain ⟨rfl, rfl⟩ := clausesOfParts_nil_eq_ok.1 compiled
    rw [nodesIn, introduced_nil]
    exact .none later
  | cons part rest inductionHypothesis =>
    obtain ⟨first, between, others, firstCompiled, restCompiled, rfl⟩ :=
      clausesOfParts_cons_eq_ok.1 compiled
    obtain ⟨belowPart, belowRest⟩ := List.forall_mem_cons.1 below
    have handsOut := belowPart firstCompiled isTaken
    rw [nodesIn, List.countP_append, introduced_append]
    exact handsOut.append
      (inductionHypothesis belowRest restCompiled (handsOut.wider _ isTaken))

theorem introducesFresh (pattern : Pattern) : IntroducesFresh aim pattern := by
  induction pattern using treeInduction with
  | leaf className => exact introducesFresh_leaf className
  | constraint className child inductionHypothesis =>
    exact introducesFresh_constraint className inductionHypothesis
  | related relation quantifier child inductionHypothesis =>
    exact introducesFresh_related relation quantifier inductionHypothesis
  | choice branches inductionHypothesis =>
    intro path hook names later found compiled isTaken
    obtain ⟨-, groups, below, rfl⟩ := clauses_choice_eq_ok.1 compiled
    rw [introduced_union, nodes, List.countP_cons_of_neg (by simp [isPassage])]
    exact introducesFresh_branches branches inductionHypothesis below isTaken
  | all parts inductionHypothesis =>
    intro path hook names later found compiled isTaken
    obtain ⟨-, below⟩ := clauses_all_eq_ok.1 compiled
    rw [nodes, List.countP_cons_of_neg (by simp [isPassage])]
    exact introducesFresh_parts parts inductionHypothesis below isTaken

end Pattern

end BuildingRules
