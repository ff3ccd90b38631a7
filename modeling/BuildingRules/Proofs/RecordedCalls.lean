import BuildingRules.Pattern.Defects
import BuildingRules.Proofs.Compilation
import BuildingRules.Query.Calls

/-!
# What compiling takes up

The calls that compiling makes are the nodes of the tree in their order, each with the path of its
place, up to the first node with a defect. With the record compiling gives what it gives without:
`follows_clauses`.
-/

set_option autoImplicit false

namespace BuildingRules

/-! ## Class identifiers -/

namespace Identifier

theorem isClass_iff {space : Namespace} {identifier : String} :
    IsClass identifier ↔ ∃ iri, classIri? space identifier = some iri := by
  unfold IsClass classIri?
  split
  next isLocal => simp [isLocal]
  next notLocal => simp [notLocal]

theorem resolveClass_eq_error {space : Namespace} {path identifier : String} {error : Error} :
    resolveClass space path identifier = .error error ↔
      ¬IsClass identifier ∧ error = .of (.malformedIdentifier identifier path) := by
  rw [@isClass_iff space, resolveClass]
  cases classIri? space identifier <;> simp [eq_comm]

end Identifier

namespace Pattern

/-! ## Records -/

theorem sound_nil : Sound [] := nofun

theorem sound_append {first second : List Spot} (firstSound : Sound first)
    (secondSound : Sound second) : Sound (first ++ second) :=
  List.forall_mem_append.2 ⟨firstSound, secondSound⟩

/-- The record of an outcome over some places: all of them are taken up if none has a defect, and
otherwise those up to the first that does. -/
inductive Follows {Result : Type} :
    List Spot → Except Error Result → Recorded Result → Prop
  | through {spots : List Spot} {result : Result} : Sound spots →
      Follows spots (.ok result) ⟨spots, .ok result⟩
  | stopped {before after : List Spot} {spot : Spot} {error : Error} : Sound before →
      spot.defect? = some error →
      Follows (before ++ spot :: after) (.error error) ⟨before ++ [spot], .error error⟩

namespace Follows

variable {Value Result : Type} {first second spots : List Spot} {spot : Spot}

theorem outcome_eq {plain : Except Error Result} {recorded : Recorded Result}
    (follows : Follows spots plain recorded) : recorded.outcome = plain := by
  cases follows <;> rfl

theorem pure (result : Result) : Follows [] (.ok result) (pure result) := .through sound_nil

/-- A node is taken up that has a defect or has none. -/
theorem enter {plain : Except Error Result}
    (isSound : ∀ result, plain = .ok result → spot.defect? = none)
    (isDefect : ∀ error, plain = .error error → spot.defect? = some error) :
    Follows [spot] plain (.enter spot plain) := by
  cases plain with
  | ok result => exact .through (List.forall_mem_singleton.2 (isSound result rfl))
  | error error => exact .stopped sound_nil (isDefect error rfl)

theorem after {plain : Except Error Result} {recorded : Recorded Result}
    (sound : Sound first) (follows : Follows second plain recorded) :
    Follows (first ++ second) plain ⟨first ++ recorded.calls, recorded.outcome⟩ := by
  cases follows with
  | through secondSound => exact .through (sound_append sound secondSound)
  | stopped beforeSound isDefect =>
    rw [← List.append_assoc, ← List.append_assoc]
    exact .stopped (sound_append sound beforeSound) isDefect

theorem bind {plain : Except Error Value} {recorded : Recorded Value}
    {next : Value → Except Error Result} {recordedNext : Value → Recorded Result}
    (follows : Follows first plain recorded)
    (followsNext : ∀ value, Follows second (next value) (recordedNext value)) :
    Follows (first ++ second) (plain >>= next) (recorded >>= recordedNext) := by
  cases follows with
  | through sound => exact .after sound (followsNext _)
  | stopped sound isDefect =>
    rw [List.append_assoc, List.cons_append]
    exact .stopped sound isDefect

/-- A node without a defect is taken up, and then what follows. -/
theorem entered {plain : Except Error Result} {value : Value}
    {recordedNext : Value → Recorded Result} (isSound : spot.defect? = none)
    (follows : Follows spots plain (recordedNext value)) :
    Follows (spot :: spots) plain (.enter spot (.ok value) >>= recordedNext) :=
  .after (List.forall_mem_singleton.2 isSound) follows

end Follows

/-! ## Trees -/

/-- A node that names a class is taken up, and the class is looked up. -/
theorem follows_resolveClass {space : Namespace} {path className : String} {node : Pattern}
    (names : Spot.defect? ⟨path, node⟩ =
      if Identifier.IsClass className then none
      else some (.of (.malformedIdentifier className path))) :
    Follows [⟨path, node⟩] (Identifier.resolveClass space path className)
      (.enter ⟨path, node⟩ (Identifier.resolveClass space path className)) := by
  refine .enter (fun resolved isResolved => ?_) fun error isError => ?_
  · have isClass : Identifier.IsClass className :=
      Identifier.isClass_iff.2 ⟨resolved, Identifier.resolveClass_eq_ok.1 isResolved⟩
    rw [names, if_pos isClass]
  · obtain ⟨notClass, rfl⟩ := Identifier.resolveClass_eq_error.1 isError
    rw [names, if_neg notClass]

/-- With the record, the clauses come out as they do without. -/
def Records (aim : Aim) (pattern : Pattern) : Prop :=
  ∀ (path hook : String) (names : NameSupply),
    Follows (pattern.spots path) (pattern.clauses aim path hook names)
      (pattern.recordedClauses aim path hook names)

section Trees

variable {aim : Aim}

theorem records_leaf (className : String) : Records aim (.leaf className) := by
  intro path hook names
  -- the clauses are put together without taking up anything more
  rw [clauses, recordedClauses, spots, ← List.append_nil [_]]
  exact (follows_resolveClass rfl).bind fun _ => .pure _

theorem records_constraint (className : String) {child : Pattern} (below : Records aim child) :
    Records aim (.constraint className child) := by
  intro path hook names
  rw [clauses, recordedClauses, spots, ← List.singleton_append]
  refine (follows_resolveClass rfl).bind fun resolved => ?_
  rw [← List.append_nil (spots _ _)]
  exact (below _ _ _).bind fun _ => .pure _

theorem records_related (relation : Relation) (quantifier : Quantifier) {child : Pattern}
    (below : Records aim child) : Records aim (.related relation quantifier child) := by
  intro path hook names
  rw [clauses, recordedClauses, spots, ← List.append_nil (spots _ _)]
  exact .entered rfl ((below _ _ _).bind fun _ => .pure _)

theorem records_branches (branches : List Pattern)
    (below : ∀ branch ∈ branches, Records aim branch) :
    ∀ (path hook : String) (index : Nat) (names : NameSupply),
      Follows (spotsOfBranches path index branches)
        (groupsOfBranches aim path hook index names branches)
        (recordedBranches aim path hook index names branches) := by
  induction branches with
  | nil =>
    intro path hook index names
    rw [spotsOfBranches, groupsOfBranches, recordedBranches]
    exact .pure _
  | cons branch rest inductionHypothesis =>
    intro path hook index names
    obtain ⟨belowBranch, belowRest⟩ := List.forall_mem_cons.1 below
    rw [spotsOfBranches, groupsOfBranches, recordedBranches]
    refine (belowBranch _ _ _).bind fun first => ?_
    rw [← List.append_nil (spotsOfBranches _ _ _)]
    exact (inductionHypothesis belowRest _ _ _ _).bind fun _ => .pure _

theorem records_parts (parts : List Pattern) (below : ∀ part ∈ parts, Records aim part) :
    ∀ (path hook : String) (names : NameSupply),
      Follows (spotsOfParts path parts) (clausesOfParts aim path hook names parts)
        (recordedParts aim path hook names parts) := by
  induction parts with
  | nil =>
    intro path hook names
    rw [spotsOfParts, clausesOfParts, recordedParts]
    exact .pure _
  | cons part rest inductionHypothesis =>
    intro path hook names
    obtain ⟨belowPart, belowRest⟩ := List.forall_mem_cons.1 below
    rw [spotsOfParts, clausesOfParts, recordedParts]
    refine (belowPart _ _ _).bind fun first => ?_
    rw [← List.append_nil (spotsOfParts _ _)]
    exact (inductionHypothesis belowRest _ _ _).bind fun _ => .pure _

theorem records (pattern : Pattern) : Records aim pattern := by
  induction pattern using treeInduction with
  | leaf className => exact records_leaf className
  | constraint className child inductionHypothesis =>
    exact records_constraint className inductionHypothesis
  | related relation quantifier child inductionHypothesis =>
    exact records_related relation quantifier inductionHypothesis
  | choice branches inductionHypothesis =>
    intro path hook names
    rw [clauses, recordedClauses, spots]
    cases branches with
    | nil => exact .stopped sound_nil rfl
    -- the test for emptiness is decided, so the branches come right behind the node
    | cons branch rest =>
      rw [← List.append_nil (spotsOfBranches _ _ _)]
      exact .entered rfl ((records_branches _ inductionHypothesis _ _ _ _).bind fun _ => .pure _)
  | all parts inductionHypothesis =>
    intro path hook names
    rw [clauses, recordedClauses, spots]
    cases parts with
    | nil => exact .stopped sound_nil rfl
    | cons part rest => exact .entered rfl (records_parts _ inductionHypothesis _ _ _)

end Trees

end Pattern

end BuildingRules
