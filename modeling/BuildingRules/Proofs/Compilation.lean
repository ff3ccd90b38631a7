import BuildingRules.Proofs.FreshNames
import BuildingRules.Query.Compile
import Mathlib.Data.List.Forall2

/-!
# What compiling a pattern comes to

For each form of pattern one lemma says when it compiles and to which clauses. A class identifier
compiles to the IRI it stands for, and the names that are taken stay taken: `clauses_extends`. Each
branch of a choice compiles to its group and each part of a conjunction to its share of the clauses:
`forall₂_groupsOfBranches` and `forall₂_clausesOfParts`.
-/

set_option autoImplicit false

namespace BuildingRules

/-! ## Class identifiers -/

theorem Identifier.resolveClass_eq_ok {space : Namespace} {path identifier : String} {iri : Iri} :
    resolveClass space path identifier = .ok iri ↔ classIri? space identifier = some iri := by
  unfold resolveClass
  cases classIri? space identifier <;> simp

theorem Identifier.checkVariable_eq_ok {path name : String} {nothing : Unit} :
    checkVariable path name = .ok nothing ↔ isVariable name = true := by
  unfold checkVariable
  split <;> simp_all

namespace NameSupply

def Extends (later earlier : NameSupply) : Prop :=
  ∀ name, name ∈ earlier.taken → name ∈ later.taken

theorem extends_refl (names : NameSupply) : names.Extends names := fun _ member => member

theorem Extends.trans {last middle first : NameSupply} (later : last.Extends middle)
    (earlier : middle.Extends first) : last.Extends first :=
  fun name member => later name (earlier name member)

theorem extends_fresh (names : NameSupply) (base : String) :
    (names.fresh base).2.Extends names :=
  fun _ member => mem_taken_fresh.2 (Or.inr member)

end NameSupply

namespace Pattern

/-! ## Induction on a tree -/

/-- What is inherited from the children of a node by the node holds of every tree. -/
@[elab_as_elim]
theorem treeInduction {motive : Pattern → Prop}
    (leaf : ∀ className, motive (.leaf className))
    (constraint : ∀ className child, motive child → motive (.constraint className child))
    (related : ∀ relation quantifier child, motive child →
      motive (.related relation quantifier child))
    (choice : ∀ branches, (∀ branch ∈ branches, motive branch) → motive (.choice branches))
    (all : ∀ parts, (∀ part ∈ parts, motive part) → motive (.all parts)) :
    ∀ pattern, motive pattern
  | .leaf className => leaf className
  | .constraint className child =>
    constraint className child (treeInduction leaf constraint related choice all child)
  | .related relation quantifier child =>
    related relation quantifier child (treeInduction leaf constraint related choice all child)
  | .choice branches =>
    choice branches fun branch _ => treeInduction leaf constraint related choice all branch
  | .all parts => all parts fun part _ => treeInduction leaf constraint related choice all part

/-! ## One lemma for each form of pattern -/

section Forms

variable {aim : Aim} {path hook : String} {names later : NameSupply} {found : List Clause}

theorem clauses_leaf_eq_ok {className : String} :
    (Pattern.leaf className).clauses aim path hook names = .ok (found, later) ↔
      ∃ resolved, Identifier.classIri? aim.space className = some resolved ∧
        found = leafClauses aim hook resolved ∧ later = names := by
  rw [clauses, bind_eq_ok]
  simp only [Identifier.resolveClass_eq_ok, Except.ok.injEq, Prod.mk.injEq]
  grind

theorem clauses_constraint_eq_ok {className : String} {child : Pattern} :
    (Pattern.constraint className child).clauses aim path hook names = .ok (found, later) ↔
      ∃ resolved rest, Identifier.classIri? aim.space className = some resolved ∧
        child.clauses aim (Path.key path className) hook names = .ok (rest, later) ∧
        found = .hasType hook resolved :: rest := by
  rw [clauses]
  simp only [bind_eq_ok, Identifier.resolveClass_eq_ok, Except.ok.injEq, Prod.mk.injEq,
    Prod.exists]
  grind

theorem clauses_related_eq_ok {relation : Relation} {quantifier : Quantifier} {child : Pattern} :
    (Pattern.related relation quantifier child).clauses aim path hook names =
        .ok (found, later) ↔
      ∃ rest, child.clauses aim (Path.key path (relation.name ++ quantifier.mark))
          (farEnd aim names child).1 (farEnd aim names child).2 = .ok (rest, later) ∧
        found = .edge hook (aim.space.iri relation.name) quantifier
          (farEnd aim names child).1 :: rest := by
  rw [clauses]
  simp only [bind_eq_ok, Except.ok.injEq, Prod.mk.injEq, Prod.exists]
  grind

theorem clauses_choice_eq_ok {branches : List Pattern} :
    (Pattern.choice branches).clauses aim path hook names = .ok (found, later) ↔
      branches ≠ [] ∧ ∃ groups,
        groupsOfBranches aim path hook 0 names branches = .ok (groups, later) ∧
        found = [.union groups] := by
  rw [clauses]
  cases branches with
  | nil => simp [bind, Except.bind]
  | cons branch rest =>
      simp only [List.isEmpty_cons, Bool.false_eq_true, if_false, bind_eq_ok, Except.ok.injEq,
        Prod.mk.injEq, Prod.exists]
      grind

theorem clauses_all_eq_ok {parts : List Pattern} :
    (Pattern.all parts).clauses aim path hook names = .ok (found, later) ↔
      parts ≠ [] ∧ clausesOfParts aim path hook names parts = .ok (found, later) := by
  rw [clauses]
  cases parts with
  | nil => simp [bind, Except.bind]
  | cons part rest => simp

theorem groupsOfBranches_nil_eq_ok {index : Nat} {groups : List (List Clause)} :
    groupsOfBranches aim path hook index names [] = .ok (groups, later) ↔
      groups = [] ∧ later = names := by
  rw [groupsOfBranches, Except.ok.injEq, Prod.mk.injEq, eq_comm, @eq_comm _ names]

theorem groupsOfBranches_cons_eq_ok {index : Nat} {branch : Pattern} {rest : List Pattern}
    {groups : List (List Clause)} :
    groupsOfBranches aim path hook index names (branch :: rest) = .ok (groups, later) ↔
      ∃ group between others,
        branch.clauses aim (branchPath path index) hook names = .ok (group, between) ∧
        groupsOfBranches aim path hook (index + 1) between rest = .ok (others, later) ∧
        groups = group :: others := by
  rw [groupsOfBranches]
  simp only [bind_eq_ok, Except.ok.injEq, Prod.mk.injEq, Prod.exists]
  grind

theorem clausesOfParts_nil_eq_ok :
    clausesOfParts aim path hook names [] = .ok (found, later) ↔ found = [] ∧ later = names := by
  rw [clausesOfParts, Except.ok.injEq, Prod.mk.injEq, eq_comm, @eq_comm _ names]

theorem clausesOfParts_cons_eq_ok {part : Pattern} {rest : List Pattern} :
    clausesOfParts aim path hook names (part :: rest) = .ok (found, later) ↔
      ∃ first between others,
        part.clauses aim path hook names = .ok (first, between) ∧
        clausesOfParts aim path hook between rest = .ok (others, later) ∧
        found = first ++ others := by
  rw [clausesOfParts]
  simp only [bind_eq_ok, Except.ok.injEq, Prod.mk.injEq, Prod.exists]
  grind

end Forms

/-! ## Names only become taken -/

theorem farEnd_of_leaf (aim : Aim) (names : NameSupply) (className : String) :
    farEnd aim names (.leaf className) = (aim.target, names) := rfl

theorem farEnd_of_not_leaf (aim : Aim) (names : NameSupply) {child : Pattern}
    (notLeaf : child.isLeaf = false) : farEnd aim names child = names.fresh freshBase := by
  simp [farEnd, notLeaf]

theorem farEnd_extends (aim : Aim) (names : NameSupply) (child : Pattern) :
    (farEnd aim names child).2.Extends names := by
  unfold farEnd
  split
  · exact NameSupply.extends_refl names
  · exact NameSupply.extends_fresh names freshBase

theorem groupsOfBranches_extends {aim : Aim} {hook : String} (branches : List Pattern)
    (eachExtends : ∀ branch ∈ branches, ∀ path names found later,
      branch.clauses aim path hook names = .ok (found, later) → later.Extends names)
    {path : String} {index : Nat} {names later : NameSupply} {groups : List (List Clause)}
    (compiled : groupsOfBranches aim path hook index names branches = .ok (groups, later)) :
    later.Extends names := by
  induction branches generalizing index names groups with
  | nil =>
      rw [(groupsOfBranches_nil_eq_ok.1 compiled).2]
      exact NameSupply.extends_refl names
  | cons branch rest inductionHypothesis =>
      obtain ⟨group, between, others, first, second, _⟩ :=
        groupsOfBranches_cons_eq_ok.1 compiled
      have restExtends := inductionHypothesis
        (fun other member => eachExtends other (List.mem_cons_of_mem branch member)) second
      exact restExtends.trans (eachExtends branch List.mem_cons_self _ _ _ _ first)

theorem clausesOfParts_extends {aim : Aim} {hook : String} (parts : List Pattern)
    (eachExtends : ∀ part ∈ parts, ∀ path names found later,
      part.clauses aim path hook names = .ok (found, later) → later.Extends names)
    {path : String} {names later : NameSupply} {found : List Clause}
    (compiled : clausesOfParts aim path hook names parts = .ok (found, later)) :
    later.Extends names := by
  induction parts generalizing names found with
  | nil =>
      rw [(clausesOfParts_nil_eq_ok.1 compiled).2]
      exact NameSupply.extends_refl names
  | cons part rest inductionHypothesis =>
      obtain ⟨first, between, others, firstCompiled, restCompiled, _⟩ :=
        clausesOfParts_cons_eq_ok.1 compiled
      have restExtends := inductionHypothesis
        (fun other member => eachExtends other (List.mem_cons_of_mem part member)) restCompiled
      exact restExtends.trans (eachExtends part List.mem_cons_self _ _ _ _ firstCompiled)

theorem clauses_extends {aim : Aim} (pattern : Pattern) :
    ∀ {path hook : String} {names later : NameSupply} {found : List Clause},
      pattern.clauses aim path hook names = .ok (found, later) → later.Extends names := by
  induction pattern using treeInduction with
  | leaf className =>
      intro path hook names later found compiled
      obtain ⟨_, _, _, rfl⟩ := clauses_leaf_eq_ok.1 compiled
      exact NameSupply.extends_refl later
  | constraint className child inductionHypothesis =>
      intro path hook names later found compiled
      obtain ⟨_, _, _, below, _⟩ := clauses_constraint_eq_ok.1 compiled
      exact inductionHypothesis below
  | related relation quantifier child inductionHypothesis =>
      intro path hook names later found compiled
      obtain ⟨_, below, _⟩ := clauses_related_eq_ok.1 compiled
      exact (inductionHypothesis below).trans (farEnd_extends aim names child)
  | choice branches inductionHypothesis =>
      intro path hook names later found compiled
      obtain ⟨_, _, below, _⟩ := clauses_choice_eq_ok.1 compiled
      exact groupsOfBranches_extends branches
        (fun branch member _ _ _ _ => inductionHypothesis branch member) below
  | all parts inductionHypothesis =>
      intro path hook names later found compiled
      exact clausesOfParts_extends parts
        (fun part member _ _ _ _ => inductionHypothesis part member)
        (clauses_all_eq_ok.1 compiled).2

/-! ## Branches and parts one by one -/

/-- The pattern compiles to the clauses when these names are taken, and maybe others. -/
def CompilesTo (aim : Aim) (hook : String) (names : NameSupply) (pattern : Pattern)
    (found : List Clause) : Prop :=
  ∃ path, ∃ between later : NameSupply, between.Extends names ∧
    pattern.clauses aim path hook between = .ok (found, later)

theorem CompilesTo.of_extends {aim : Aim} {hook : String} {names earlier : NameSupply}
    (isLater : names.Extends earlier) (pattern : Pattern) (found : List Clause)
    (compiles : CompilesTo aim hook names pattern found) :
    CompilesTo aim hook earlier pattern found := by
  obtain ⟨path, between, later, wider, compiled⟩ := compiles
  exact ⟨path, between, later, wider.trans isLater, compiled⟩

theorem forall₂_groupsOfBranches {aim : Aim} (branches : List Pattern) {path hook : String}
    {index : Nat} {names later : NameSupply} {groups : List (List Clause)}
    (compiled : groupsOfBranches aim path hook index names branches = .ok (groups, later)) :
    List.Forall₂ (CompilesTo aim hook names) branches groups := by
  induction branches generalizing index names groups with
  | nil =>
      obtain ⟨rfl, -⟩ := groupsOfBranches_nil_eq_ok.1 compiled
      exact .nil
  | cons branch rest inductionHypothesis =>
      obtain ⟨group, between, others, first, second, rfl⟩ :=
        groupsOfBranches_cons_eq_ok.1 compiled
      exact .cons ⟨_, names, between, NameSupply.extends_refl names, first⟩
        ((inductionHypothesis second).imp (CompilesTo.of_extends (clauses_extends branch first)))

theorem forall₂_clausesOfParts {aim : Aim} (parts : List Pattern) {path hook : String}
    {names later : NameSupply} {found : List Clause}
    (compiled : clausesOfParts aim path hook names parts = .ok (found, later)) :
    ∃ founds, List.Forall₂ (CompilesTo aim hook names) parts founds ∧ found = founds.flatten := by
  induction parts generalizing names found with
  | nil =>
      obtain ⟨rfl, -⟩ := clausesOfParts_nil_eq_ok.1 compiled
      exact ⟨[], .nil, rfl⟩
  | cons part rest inductionHypothesis =>
      obtain ⟨first, between, others, firstCompiled, restCompiled, rfl⟩ :=
        clausesOfParts_cons_eq_ok.1 compiled
      obtain ⟨founds, restCompile, rfl⟩ := inductionHypothesis restCompiled
      have wider : between.Extends names := clauses_extends part firstCompiled
      exact ⟨first :: founds, .cons ⟨_, names, between, NameSupply.extends_refl names, firstCompiled⟩
        (restCompile.imp (CompilesTo.of_extends wider)), rfl⟩

end Pattern

/-! ## Queries -/

theorem Query.compile_eq_ok {space : Namespace} {className target : String} {pattern : Pattern}
    {query : Query} :
    compile space className target pattern = .ok query ↔
      target ≠ root ∧ Identifier.isVariable target = true ∧
      ∃ resolved found later, Identifier.classIri? space className = some resolved ∧
        pattern.clauses ⟨space, target⟩ (Path.definition target) root (names target) =
          .ok (found, later) ∧
        query = ⟨resolved, target, .hasType root resolved :: found⟩ := by
  unfold compile
  by_cases reserved : target = root
  · simp [reserved, bind, Except.bind]
  · simp only [beq_eq_false_iff_ne.2 reserved, Bool.false_eq_true, if_false, bind_eq_ok,
      Identifier.checkVariable_eq_ok, Identifier.resolveClass_eq_ok, Except.ok.injEq, Prod.exists]
    grind

end BuildingRules
