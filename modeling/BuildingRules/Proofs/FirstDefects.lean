import BuildingRules.Proofs.PatternDocuments
import BuildingRules.Proofs.RecordedCalls

/-!
# Why compiling fails

Compiling fails for the first defect there is: of the target, of the class, or of the nodes of the
tree in their order. A tree that was read from a document can only fail for a class that it names.
-/

set_option autoImplicit false

namespace BuildingRules

theorem exists_error_iff {Reason Value : Type} {outcome : Except Reason Value} :
    (∃ reason, outcome = .error reason) ↔ ¬∃ value, outcome = .ok value := by
  cases outcome <;> simp

namespace Pattern

/-! ## Defects -/

theorem firstDefect_iff {spots : List Spot} {error : Error} :
    FirstDefect spots error ↔ spots.findSome? Spot.defect? = some error := by
  rw [List.findSome?_eq_some_iff]
  constructor
  · rintro ⟨before, spot, after, split, sound, isDefect⟩
    exact ⟨before, spot, after, split, isDefect, sound⟩
  · rintro ⟨before, spot, after, split, isDefect, sound⟩
    exact ⟨before, spot, after, split, sound, isDefect⟩

theorem sound_iff {spots : List Spot} :
    Sound spots ↔ spots.findSome? Spot.defect? = none :=
  List.findSome?_eq_none_iff.symm

namespace Follows

variable {Result : Type} {spots : List Spot} {plain : Except Error Result}
  {recorded : Recorded Result}

theorem ok_iff (follows : Follows spots plain recorded) :
    (∃ result, plain = .ok result) ↔ Sound spots := by
  cases follows with
  | through sound => exact ⟨fun _ => sound, fun _ => ⟨_, rfl⟩⟩
  | stopped _ isDefect =>
    refine ⟨nofun, fun sound => ?_⟩
    rw [sound _ (by simp)] at isDefect
    contradiction

theorem error_iff (follows : Follows spots plain recorded) (error : Error) :
    plain = .error error ↔ FirstDefect spots error := by
  cases follows with
  | through sound =>
    rw [firstDefect_iff, sound_iff.1 sound]
    exact ⟨nofun, nofun⟩
  | @stopped before after spot found sound isDefect =>
    have isFirst : FirstDefect (before ++ spot :: after) found :=
      ⟨before, spot, after, rfl, sound, isDefect⟩
    rw [firstDefect_iff, firstDefect_iff.1 isFirst, Except.error.injEq, Option.some.injEq]

end Follows

/-! ## Nodes -/

theorem nodesIn_eq_flatMap (patterns : List Pattern) :
    nodesIn patterns = patterns.flatMap nodes := by
  induction patterns with
  | nil => rw [nodesIn, List.flatMap_nil]
  | cons first rest inductionHypothesis =>
    rw [nodesIn, inductionHypothesis, List.flatMap_cons]

theorem map_node_spotsOfBranches (branches : List Pattern)
    (below : ∀ branch ∈ branches, ∀ path, (branch.spots path).map Spot.node = branch.nodes) :
    ∀ path index, (spotsOfBranches path index branches).map Spot.node = nodesIn branches := by
  induction branches with
  | nil =>
    intro path index
    rw [spotsOfBranches, nodesIn, List.map_nil]
  | cons branch rest inductionHypothesis =>
    intro path index
    obtain ⟨belowBranch, belowRest⟩ := List.forall_mem_cons.1 below
    rw [spotsOfBranches, nodesIn, List.map_append, belowBranch, inductionHypothesis belowRest]

theorem map_node_spotsOfParts (parts : List Pattern)
    (below : ∀ part ∈ parts, ∀ path, (part.spots path).map Spot.node = part.nodes) :
    ∀ path, (spotsOfParts path parts).map Spot.node = nodesIn parts := by
  induction parts with
  | nil =>
    intro path
    rw [spotsOfParts, nodesIn, List.map_nil]
  | cons part rest inductionHypothesis =>
    intro path
    obtain ⟨belowPart, belowRest⟩ := List.forall_mem_cons.1 below
    rw [spotsOfParts, nodesIn, List.map_append, belowPart, inductionHypothesis belowRest]

theorem map_node_spots (pattern : Pattern) :
    ∀ path, (pattern.spots path).map Spot.node = pattern.nodes := by
  induction pattern using treeInduction with
  | leaf className =>
    intro path
    rw [spots, nodes, List.map_singleton]
  | constraint className child inductionHypothesis =>
    intro path
    rw [spots, nodes, List.map_cons, inductionHypothesis]
  | related relation quantifier child inductionHypothesis =>
    intro path
    rw [spots, nodes, List.map_cons, inductionHypothesis]
  | choice branches inductionHypothesis =>
    intro path
    rw [spots, nodes, List.map_cons, map_node_spotsOfBranches branches inductionHypothesis]
  | all parts inductionHypothesis =>
    intro path
    rw [spots, nodes, List.map_cons, map_node_spotsOfParts parts inductionHypothesis]

theorem classNamesIn_eq (patterns : List Pattern)
    (below : ∀ pattern ∈ patterns, pattern.classNames = pattern.nodes.filterMap className?) :
    classNamesIn patterns = (nodesIn patterns).filterMap className? := by
  induction patterns with
  | nil => rw [classNamesIn, nodesIn, List.filterMap_nil]
  | cons first rest inductionHypothesis =>
    obtain ⟨belowFirst, belowRest⟩ := List.forall_mem_cons.1 below
    rw [classNamesIn, nodesIn, List.filterMap_append, belowFirst, inductionHypothesis belowRest]

/-- The classes that a tree names are those that its nodes name, in their order. -/
theorem classNames_eq (pattern : Pattern) :
    pattern.classNames = pattern.nodes.filterMap className? := by
  induction pattern using treeInduction with
  | leaf className => rw [classNames, nodes]; rfl
  | constraint className child inductionHypothesis =>
    rw [classNames, nodes, inductionHypothesis]
    rfl
  | related relation quantifier child inductionHypothesis =>
    rw [classNames, nodes, List.filterMap_cons_none rfl, inductionHypothesis]
  | choice branches inductionHypothesis =>
    rw [classNames, nodes, List.filterMap_cons_none rfl,
      classNamesIn_eq branches inductionHypothesis]
  | all parts inductionHypothesis =>
    rw [classNames, nodes, List.filterMap_cons_none rfl, classNamesIn_eq parts inductionHypothesis]

theorem Spot.defect?_eq_none_iff (spot : Spot) :
    spot.defect? = none ↔
      (∀ name, spot.node.className? = some name → Identifier.IsClass name) ∧
        spot.node ≠ .choice [] ∧ spot.node ≠ .all [] := by
  obtain ⟨path, node⟩ := spot
  cases node with
  | leaf className => simp [defect?, className?]
  | constraint className child => simp [defect?, className?]
  | related relation quantifier child => simp [defect?, className?]
  | choice branches => simp [defect?, className?]
  | all parts => simp [defect?, className?]

theorem Spot.defect?_eq_some_iff {spot : Spot} {error : Error} :
    spot.defect? = some error ↔
      (∃ name, spot.node.className? = some name ∧ ¬Identifier.IsClass name ∧
        error = .of (.malformedIdentifier name spot.path)) ∨
      spot.node = .choice [] ∧ error = Fault.choiceEmpty.error spot.path ∨
      spot.node = .all [] ∧ error = Fault.noParts.error spot.path := by
  obtain ⟨path, node⟩ := spot
  cases node with
  | leaf className => simp [defect?, className?, eq_comm]
  | constraint className child => simp [defect?, className?, eq_comm]
  | related relation quantifier child => simp [defect?, className?]
  | choice branches => simp [defect?, className?, @eq_comm _ _ error]
  | all parts => simp [defect?, className?, @eq_comm _ _ error]

theorem sound_spots_iff (pattern : Pattern) (path : String) :
    Sound (pattern.spots path) ↔ (∀ name ∈ pattern.classNames, Identifier.IsClass name) ∧
      .choice [] ∉ pattern.nodes ∧ .all [] ∉ pattern.nodes := by
  simp only [Sound, Spot.defect?_eq_none_iff, classNames_eq, ← map_node_spots pattern path,
    List.mem_filterMap, List.mem_map]
  grind

/-! ## Trees that were read -/

theorem Proper.of_mem_nodes (pattern : Pattern) :
    Proper pattern → ∀ node ∈ pattern.nodes, Proper node := by
  induction pattern using treeInduction with
  | leaf className =>
    intro proper
    rw [nodes, List.forall_mem_singleton]
    exact proper
  | constraint className child inductionHypothesis =>
    intro proper
    rw [nodes, List.forall_mem_cons]
    cases id proper with
    | constraint below => exact ⟨proper, inductionHypothesis below⟩
  | related relation quantifier child inductionHypothesis =>
    intro proper
    rw [nodes, List.forall_mem_cons]
    cases id proper with
    | related below => exact ⟨proper, inductionHypothesis below⟩
  | choice branches inductionHypothesis =>
    intro proper
    rw [nodes, List.forall_mem_cons, nodesIn_eq_flatMap]
    cases id proper with
    | choice _ below =>
      refine ⟨proper, fun node listed => ?_⟩
      obtain ⟨branch, inBranches, inBranch⟩ := List.mem_flatMap.1 listed
      exact inductionHypothesis branch inBranches (below branch inBranches) node inBranch
  | all parts inductionHypothesis =>
    intro proper
    rw [nodes, List.forall_mem_cons, nodesIn_eq_flatMap]
    cases id proper with
    | all _ below =>
      refine ⟨proper, fun node listed => ?_⟩
      obtain ⟨part, inParts, inPart⟩ := List.mem_flatMap.1 listed
      exact inductionHypothesis part inParts (below part inParts) node inPart

/-- A tree that is proper holds no choice and no conjunction of nothing. -/
theorem Proper.notEmpty {pattern : Pattern} (proper : Proper pattern) :
    .choice [] ∉ pattern.nodes ∧ .all [] ∉ pattern.nodes := by
  refine ⟨fun listed => ?_, fun listed => ?_⟩
  · cases proper.of_mem_nodes _ _ listed with | choice notEmpty => exact notEmpty rfl
  · cases proper.of_mem_nodes _ _ listed with | all several => exact absurd several (by simp)

/-- The first defect of a tree without empty nodes is the first name that is of no class. -/
theorem FirstDefect.names_first {pattern : Pattern} {path : String} {error : Error}
    (isFirst : FirstDefect (pattern.spots path) error)
    (notEmpty : .choice [] ∉ pattern.nodes ∧ .all [] ∉ pattern.nodes) :
    ∃ before name after place, pattern.classNames = before ++ name :: after ∧
      (∀ other ∈ before, Identifier.IsClass other) ∧ ¬Identifier.IsClass name ∧
      error = .of (.malformedIdentifier name place) := by
  obtain ⟨before, spot, after, split, sound, isDefect⟩ := isFirst
  have isNode : spot.node ∈ pattern.nodes := by
    rw [← map_node_spots pattern path, split]
    exact List.mem_map.2 ⟨spot, by simp, rfl⟩
  have names : pattern.classNames =
      (before ++ spot :: after).filterMap fun other => other.node.className? := by
    rw [classNames_eq, ← map_node_spots pattern path, split, List.filterMap_map]
    rfl
  rcases Spot.defect?_eq_some_iff.1 isDefect with
    ⟨name, named, notClass, isError⟩ | ⟨isEmpty, -⟩ | ⟨isEmpty, -⟩
  · rw [List.filterMap_append,
      List.filterMap_cons_some (f := fun other : Spot => other.node.className?) named] at names
    refine ⟨_, name, _, spot.path, names, fun other listed => ?_, notClass, isError⟩
    obtain ⟨earlier, inBefore, isNamed⟩ := List.mem_filterMap.1 listed
    exact ((Spot.defect?_eq_none_iff earlier).1 (sound earlier inBefore)).1 other isNamed
  · exact absurd (isEmpty ▸ isNode) notEmpty.1
  · exact absurd (isEmpty ▸ isNode) notEmpty.2

end Pattern

/-! ## Queries -/

namespace Query

/-- Compiling fails for the target if it can, then for the class, and then for the tree. -/
theorem compile_eq_error {space : Namespace} {className target : String} {pattern : Pattern}
    {error : Error} :
    compile space className target pattern = .error error ↔
      if target = root then error = .of (.reservedVariable target)
      else if ¬Identifier.isVariable target = true then
        error = .of (.malformedIdentifier target "definitions")
      else if ¬Identifier.IsClass className then
        error = .of (.malformedIdentifier className "applicability")
      else Pattern.FirstDefect (pattern.spots (Path.definition target)) error := by
  have records := @Pattern.records ⟨space, target⟩ pattern (Path.definition target) root
    (names target)
  unfold compile Identifier.checkVariable
  by_cases reserved : target = root
  · simp [reserved, bind, Except.bind, @eq_comm _ _ error]
  by_cases isVariable : Identifier.isVariable target = true
  · simp only [beq_eq_false_iff_ne.2 reserved, Bool.false_eq_true, if_false, bind_eq_error,
      isVariable, if_true, Identifier.resolveClass_eq_error, Identifier.resolveClass_eq_ok,
      records.error_iff, reserved, not_true_eq_false, reduceCtorEq, and_false, exists_false,
      or_false, false_or, true_and, exists_const]
    by_cases isClass : Identifier.IsClass className
    · obtain ⟨resolved, isResolved⟩ := (@Identifier.isClass_iff space className).1 isClass
      simp [isClass, isResolved]
    · have unresolved := mt (@Identifier.isClass_iff space className).2 isClass
      simp [isClass, not_exists.1 unresolved]
  · simp [reserved, isVariable, bind, Except.bind, @eq_comm _ _ error]

/-- When there is a query for a pattern, and otherwise which error tells why there is none. -/
structure CompileFaults (space : Namespace) (className target : String) (pattern : Pattern) :
    Prop where
  succeeds : (∃ query, compile space className target pattern = .ok query) ↔
    target ≠ root ∧ Identifier.isVariable target = true ∧ Identifier.IsClass className ∧
      (∀ name ∈ pattern.classNames, Identifier.IsClass name) ∧
      .choice [] ∉ pattern.nodes ∧ .all [] ∉ pattern.nodes
  fails : ∀ error, compile space className target pattern = .error error ↔
    if target = root then error = .of (.reservedVariable target)
    else if ¬Identifier.isVariable target = true then
      error = .of (.malformedIdentifier target "definitions")
    else if ¬Identifier.IsClass className then
      error = .of (.malformedIdentifier className "applicability")
    else Pattern.FirstDefect (pattern.spots (Path.definition target)) error
  document : target ≠ root → Identifier.isVariable target = true →
    Identifier.IsClass className → ∀ path value, Pattern.ofJson path value = .ok pattern →
      ((∃ error, compile space className target pattern = .error error) ↔
        ∃ name ∈ pattern.classNames, ¬Identifier.IsClass name) ∧
      ∀ error, compile space className target pattern = .error error →
        ∃ before name after place, pattern.classNames = before ++ name :: after ∧
          (∀ other ∈ before, Identifier.IsClass other) ∧ ¬Identifier.IsClass name ∧
          error = .of (.malformedIdentifier name place)

theorem compileFaults (space : Namespace) (className target : String) (pattern : Pattern) :
    CompileFaults space className target pattern := by
  have records := @Pattern.records ⟨space, target⟩ pattern (Path.definition target) root
    (names target)
  have succeeds : (∃ query, compile space className target pattern = .ok query) ↔
      target ≠ root ∧ Identifier.isVariable target = true ∧ Identifier.IsClass className ∧
        (∀ name ∈ pattern.classNames, Identifier.IsClass name) ∧
        .choice [] ∉ pattern.nodes ∧ .all [] ∉ pattern.nodes := by
    rw [← Pattern.sound_spots_iff pattern (Path.definition target), ← records.ok_iff]
    simp only [compile_eq_ok, @Identifier.isClass_iff space className, Prod.exists]
    tauto
  refine ⟨succeeds, fun _ => compile_eq_error, ?_⟩
  intro notRoot isVariable isClass path value read
  have notEmpty := (Pattern.restores_ofJson value path pattern read).2.notEmpty
  constructor
  · rw [exists_error_iff, succeeds]
    simp only [notRoot, isVariable, isClass, notEmpty, ne_eq, not_false_eq_true, true_and, and_true,
      not_forall, exists_prop]
  · intro error failed
    rw [compile_eq_error, if_neg notRoot, if_neg (not_not.2 isVariable), if_neg (not_not.2 isClass)]
      at failed
    exact failed.names_first notEmpty

/-- The second branch ends in what is no class; the third is a conjunction of nothing. -/
def brokenTree : Pattern :=
  .choice [.leaf "Sensor", .related .hasPart .zeroOrMore (.constraint "Good" (.leaf "no class")),
    .all []]

/-- The first conjunct ends in a choice of nothing; the second is no class. -/
def hollowTree : Pattern :=
  .all [.leaf "Sensor", .constraint "Good" (.related .hasPart .zeroOrOne (.choice [])),
    .leaf "no class"]

/-- The defect that comes first is blamed, at its place. -/
theorem compileFaults_of_brokenTree :
    CompileFaults .brick "VAV" "x" brokenTree ∧
    compile .brick "VAV" "x" brokenTree =
      .error ⟨.malformedIdentifier "no class" "definitions.x.choice[1].hasPart*.Good", none⟩ ∧
    CompileFaults .brick "VAV" "x" hollowTree ∧
    compile .brick "VAV" "x" hollowTree =
      .error ⟨.invalidPattern "definitions.x.Good.hasPart?" "choice has no branches", none⟩ :=
  ⟨compileFaults _ _ _ _, rfl, compileFaults _ _ _ _, rfl⟩

end Query

end BuildingRules
