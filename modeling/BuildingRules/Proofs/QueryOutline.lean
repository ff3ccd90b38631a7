import BuildingRules.Proofs.QueryScope
import BuildingRules.Query.Outline

/-!
# Outlines of compiled queries

The clauses of a pattern have the outline of its tree: its classes in their order, a link for each
relation and for each class that no relation leads to, and a union for each choice with a group for
each branch. So a compiled query mirrors its pattern: `Query.mirrorsTree`.
-/

set_option autoImplicit false

namespace BuildingRules

/-! ## Outlines of clauses -/

namespace Clause

@[simp]
theorem classes_nil : classes [] = [] := by
  simp [classes]

@[simp]
theorem classes_hasType (subject : String) (className : Iri) (rest : List Clause) :
    classes (.hasType subject className :: rest) = className :: classes rest := by
  have named : (hasType subject className).className? = some className := rfl
  rw [classes, triplesOfGroup_hasType, List.filterMap_cons_some named, classes]

@[simp]
theorem classes_edge (subject object : String) (predicate : Iri) (quantifier : Quantifier)
    (rest : List Clause) :
    classes (.edge subject predicate quantifier object :: rest) = classes rest := by
  rw [classes, triplesOfGroup_edge, List.filterMap_cons_none rfl, classes]

@[simp]
theorem links_nil : links [] = [] := by
  simp [links]

@[simp]
theorem links_hasType (subject : String) (className : Iri) (rest : List Clause) :
    links (.hasType subject className :: rest) = links rest := by
  rw [links, triplesOfGroup_hasType, List.filterMap_cons_none rfl, links]

@[simp]
theorem links_edge (subject object : String) (predicate : Iri) (quantifier : Quantifier)
    (rest : List Clause) :
    links (.edge subject predicate quantifier object :: rest) =
      ⟨predicate, quantifier⟩ :: links rest := by
  have linked : (edge subject predicate quantifier object).link? =
      some ⟨predicate, quantifier⟩ := rfl
  rw [links, triplesOfGroup_edge, List.filterMap_cons_some linked, links]

@[simp]
theorem classes_append (first second : List Clause) :
    classes (first ++ second) = classes first ++ classes second := by
  simp [classes]

@[simp]
theorem links_append (first second : List Clause) :
    links (first ++ second) = links first ++ links second := by
  simp [links]

/-- Opened, a union is its groups one after the other. -/
theorem triplesOfGroup_union_eq_flatten (groups : List (List Clause)) :
    triplesOfGroup [.union groups] = triplesOfGroup groups.flatten := by
  rw [triplesOfGroup_union, triplesOfGroup_nil, List.append_nil]
  induction groups with
  | nil => rw [List.flatMap_nil, List.flatten_nil, triplesOfGroup_nil]
  | cons group rest inductionHypothesis =>
    rw [List.flatMap_cons, List.flatten_cons, triplesOfGroup_append, inductionHypothesis]

@[simp]
theorem forksOfGroup_nil : forksOfGroup [] = [] := by
  rw [forksOfGroup]

@[simp]
theorem forksOfGroup_hasType (subject : String) (className : Iri) (rest : List Clause) :
    forksOfGroup (.hasType subject className :: rest) = forksOfGroup rest := by
  rw [forksOfGroup, forks, List.nil_append]

@[simp]
theorem forksOfGroup_edge (subject object : String) (predicate : Iri) (quantifier : Quantifier)
    (rest : List Clause) :
    forksOfGroup (.edge subject predicate quantifier object :: rest) = forksOfGroup rest := by
  rw [forksOfGroup, forks, List.nil_append]

theorem forksOfGroup_union (groups : List (List Clause)) :
    forksOfGroup [.union groups] = [outlinesOfGroups groups] := by
  rw [forksOfGroup, forks, forksOfGroup_nil, List.append_nil]

@[simp]
theorem forksOfGroup_append (first second : List Clause) :
    forksOfGroup (first ++ second) = forksOfGroup first ++ forksOfGroup second := by
  induction first with
  | nil => rw [List.nil_append, forksOfGroup_nil, List.nil_append]
  | cons clause rest inductionHypothesis =>
    rw [List.cons_append, forksOfGroup, inductionHypothesis, forksOfGroup, List.append_assoc]

end Clause

namespace Pattern

/-! ## Visits of a tree -/

theorem map_node_visitsIn (patterns : List Pattern)
    (below : ∀ pattern ∈ patterns, (pattern.visits false).map Visit.node = pattern.nodes) :
    (visitsIn patterns).map Visit.node = nodesIn patterns := by
  induction patterns with
  | nil => rw [visitsIn, nodesIn, List.map_nil]
  | cons first rest inductionHypothesis =>
    obtain ⟨belowFirst, belowRest⟩ := List.forall_mem_cons.1 below
    rw [visitsIn, nodesIn, List.map_append, belowFirst, inductionHypothesis belowRest]

theorem map_node_visits (pattern : Pattern) :
    ∀ isLedTo, (pattern.visits isLedTo).map Visit.node = pattern.nodes := by
  induction pattern using treeInduction with
  | leaf className =>
    intro isLedTo
    rw [visits, nodes, List.map_singleton]
  | constraint className child inductionHypothesis =>
    intro isLedTo
    rw [visits, nodes, List.map_cons, inductionHypothesis]
  | related relation quantifier child inductionHypothesis =>
    intro isLedTo
    rw [visits, nodes, List.map_cons, inductionHypothesis]
  | choice branches inductionHypothesis =>
    intro isLedTo
    rw [visits, nodes, List.map_cons,
      map_node_visitsIn branches fun branch listed => inductionHypothesis branch listed false]
  | all parts inductionHypothesis =>
    intro isLedTo
    rw [visits, nodes, List.map_cons,
      map_node_visitsIn parts fun part listed => inductionHypothesis part listed false]

theorem relationCounts_eq (patterns : List Pattern)
    (below : ∀ pattern ∈ patterns, pattern.relationCount = pattern.nodes.countP isRelated) :
    relationCounts patterns = (nodesIn patterns).countP isRelated := by
  induction patterns with
  | nil => rw [relationCounts, nodesIn, List.countP_nil]
  | cons first rest inductionHypothesis =>
    obtain ⟨belowFirst, belowRest⟩ := List.forall_mem_cons.1 below
    rw [relationCounts, nodesIn, List.countP_append, belowFirst, inductionHypothesis belowRest]

/-- The relations that a tree counts are its nodes that lead along one. -/
theorem relationCount_eq (pattern : Pattern) :
    pattern.relationCount = pattern.nodes.countP isRelated := by
  induction pattern using treeInduction with
  | leaf className => rw [relationCount, nodes]; rfl
  | constraint className child inductionHypothesis =>
    rw [relationCount, nodes, List.countP_cons_of_neg (by simp [isRelated]), inductionHypothesis]
  | related relation quantifier child inductionHypothesis =>
    rw [relationCount, nodes, List.countP_cons_of_pos (by simp [isRelated]), inductionHypothesis,
      Nat.add_comm]
  | choice branches inductionHypothesis =>
    rw [relationCount, nodes, List.countP_cons_of_neg (by simp [isRelated]),
      relationCounts_eq branches inductionHypothesis]
  | all parts inductionHypothesis =>
    rw [relationCount, nodes, List.countP_cons_of_neg (by simp [isRelated]),
      relationCounts_eq parts inductionHypothesis]

/-- A visit yields a link at a relation and at a class that is to be a point; no node is both. -/
theorem countP_isSome_link? (space : Namespace) (visits : List Visit) :
    visits.countP (fun visit => (visit.link? space).isSome) =
      (visits.map Visit.node).countP isRelated + visits.countP Visit.isPoint := by
  induction visits with
  | nil => rfl
  | cons visit rest inductionHypothesis =>
    have one : (if (visit.link? space).isSome then 1 else 0) =
        (if visit.node.isRelated then 1 else 0) + (if visit.isPoint then 1 else 0) := by
      obtain ⟨isLedTo, node⟩ := visit
      cases node <;> cases isLedTo <;> rfl
    simp only [List.map_cons, List.countP_cons, inductionHypothesis]
    omega

theorem length_links (space : Namespace) (pattern : Pattern) (isLedTo : Bool) :
    (pattern.links space isLedTo).length =
      pattern.relationCount + (pattern.visits isLedTo).countP Visit.isPoint := by
  rw [links, List.length_filterMap_eq_countP, countP_isSome_link?, map_node_visits,
    relationCount_eq]

/-! ## Clauses of a pattern -/

/-- The clauses have the outline of the pattern. -/
structure Agrees (space : Namespace) (isLedTo : Bool) (pattern : Pattern) (found : List Clause) :
    Prop where
  classes : (Clause.classes found).map some = pattern.classNames.map (Identifier.classIri? space)
  links : Clause.links found = pattern.links space isLedTo
  forks : Clause.forksOfGroup found = pattern.forks space

section Agreement

variable {space : Namespace} {isLedTo : Bool} {found : List Clause}

theorem Agrees.filterMap_classes {pattern : Pattern} (agrees : Agrees space isLedTo pattern found) :
    Clause.classes found = pattern.classes space := by
  have same := congrArg (List.filterMap id) agrees.classes
  simpa [Pattern.classes, List.filterMap_map, Function.comp_def] using same

theorem Agrees.constraint {className : String} {child : Pattern} {resolved : Iri}
    (isResolved : Identifier.classIri? space className = some resolved)
    (below : Agrees space false child found) (hook : String) :
    Agrees space isLedTo (.constraint className child) (.hasType hook resolved :: found) where
  classes := by
    rw [Clause.classes_hasType, classNames, List.map_cons, List.map_cons, isResolved, below.classes]
  links := by
    rw [Clause.links_hasType, below.links, Pattern.links, Pattern.links, visits,
      List.filterMap_cons_none rfl]
  forks := by
    rw [Clause.forksOfGroup_hasType, below.forks, Pattern.forks]

theorem Agrees.related {child : Pattern} (below : Agrees space true child found)
    (relation : Relation) (quantifier : Quantifier) (hook object : String) :
    Agrees space isLedTo (.related relation quantifier child)
      (.edge hook (space.iri relation.name) quantifier object :: found) where
  classes := by
    rw [Clause.classes_edge, classNames, below.classes]
  links := by
    have linked : (Visit.mk isLedTo (.related relation quantifier child)).link? space =
        some ⟨space.iri relation.name, quantifier⟩ := rfl
    rw [Clause.links_edge, below.links, Pattern.links, Pattern.links, visits,
      List.filterMap_cons_some linked]
  forks := by
    rw [Clause.forksOfGroup_edge, below.forks, Pattern.forks]

/-- A class that a relation leads to only says what the target is. -/
theorem agrees_leaf {aim : Aim} {className : String} {resolved : Iri}
    (isResolved : Identifier.classIri? aim.space className = some resolved) {hook : String}
    (atTarget : hook = aim.target ↔ isLedTo = true) :
    Agrees aim.space isLedTo (.leaf className) (leafClauses aim hook resolved) := by
  by_cases isTarget : hook = aim.target
  · have isLed := atTarget.1 isTarget
    subst isLed
    rw [leafClauses, if_pos (beq_iff_eq.2 isTarget)]
    exact ⟨by simp [classNames, isResolved], by simp [Pattern.links, visits, Visit.link?],
      by simp [Pattern.forks]⟩
  · have notLed := Bool.eq_false_iff.2 (mt atTarget.2 isTarget)
    subst notLed
    rw [leafClauses, if_neg (mt beq_iff_eq.1 isTarget)]
    exact ⟨by simp [classNames, isResolved], by simp [Pattern.links, visits, Visit.link?],
      by simp [Pattern.forks]⟩

/-- What is the same of each part is the same of all of them together. -/
theorem agrees_all {parts : List Pattern} {founds : List (List Clause)}
    (each : List.Forall₂ (Agrees space false) parts founds) :
    Agrees space isLedTo (.all parts) founds.flatten := by
  constructor
  · rw [classNames]
    induction each with
    | nil => rw [classNamesIn]; rfl
    | cons first _ inductionHypothesis =>
      rw [List.flatten_cons, Clause.classes_append, List.map_append, first.classes,
        inductionHypothesis, classNamesIn, List.map_append]
  · rw [Pattern.links, visits, List.filterMap_cons_none rfl]
    induction each with
    | nil => rw [visitsIn]; rfl
    | cons first _ inductionHypothesis =>
      rw [List.flatten_cons, Clause.links_append, first.links, inductionHypothesis, visitsIn,
        List.filterMap_append, Pattern.links]
  · rw [Pattern.forks]
    induction each with
    | nil => rw [forksIn]; rfl
    | cons first _ inductionHypothesis =>
      rw [List.flatten_cons, Clause.forksOfGroup_append, first.forks, inductionHypothesis, forksIn]

theorem agrees_choice {branches : List Pattern} {groups : List (List Clause)}
    (each : List.Forall₂ (Agrees space false) branches groups) :
    Agrees space isLedTo (.choice branches) [.union groups] := by
  have opened : Agrees space isLedTo (.all branches) groups.flatten := agrees_all each
  refine ⟨?classes, ?links, ?forks⟩
  case classes =>
    rw [Clause.classes, Clause.triplesOfGroup_union_eq_flatten, ← Clause.classes, opened.classes,
      classNames, classNames]
  case links =>
    rw [Clause.links, Clause.triplesOfGroup_union_eq_flatten, ← Clause.links, opened.links,
      Pattern.links, Pattern.links, visits, visits, List.filterMap_cons_none rfl,
      List.filterMap_cons_none rfl]
  case forks =>
    rw [Clause.forksOfGroup_union, Pattern.forks]
    congr 1
    clear opened
    induction each with
    | nil => rw [Clause.outlinesOfGroups, outlines]
    | cons first _ inductionHypothesis =>
      rw [Clause.outlinesOfGroups, outlines, first.filterMap_classes, first.links, first.forks,
        inductionHypothesis]

end Agreement

variable {aim : Aim}

/-- The pattern compiles to clauses of its outline, provided that the variable it starts at is the
target exactly for a class that a relation leads to. -/
def CompilesAlike (aim : Aim) (pattern : Pattern) : Prop :=
  ∀ (isLedTo : Bool) {path hook : String} {names later : NameSupply} {found : List Clause},
    pattern.clauses aim path hook names = .ok (found, later) → aim.target ∈ names.taken →
    (hook = aim.target ↔ isLedTo = true ∧ pattern.isLeaf = true) →
      Agrees aim.space isLedTo pattern found

theorem CompilesAlike.forall₂ {hook : String} {names : NameSupply} {patterns : List Pattern}
    {founds : List (List Clause)} (below : ∀ pattern ∈ patterns, CompilesAlike aim pattern)
    (notTarget : hook ≠ aim.target) (isTaken : aim.target ∈ names.taken)
    (compile : List.Forall₂ (CompilesTo aim hook names) patterns founds) :
    List.Forall₂ (Agrees aim.space false) patterns founds := by
  refine ((List.forall₂_and_left patterns founds).2 ⟨below, compile⟩).imp ?_
  intro pattern found both
  obtain ⟨alike, path, between, later, wider, compiled⟩ := both
  exact alike false compiled (wider _ isTaken) (by simp [notTarget])

/-- A relation leads to the target exactly if a bare class follows. -/
theorem farEnd_eq_target_iff {names : NameSupply} (isTaken : aim.target ∈ names.taken)
    (child : Pattern) : (farEnd aim names child).1 = aim.target ↔ child.isLeaf = true := by
  constructor
  · intro same
    exact (farEnd_ne_target isTaken child).resolve_left (not_not_intro same)
  · intro isLeaf
    rw [farEnd, if_pos isLeaf]

theorem compilesAlike (pattern : Pattern) : CompilesAlike aim pattern := by
  induction pattern using treeInduction with
  | leaf className =>
    intro isLedTo path hook names later found compiled _ atTarget
    obtain ⟨resolved, isResolved, rfl, -⟩ := clauses_leaf_eq_ok.1 compiled
    exact agrees_leaf isResolved (by simpa [isLeaf] using atTarget)
  | constraint className child inductionHypothesis =>
    intro isLedTo path hook names later found compiled isTaken atTarget
    obtain ⟨resolved, rest, isResolved, below, rfl⟩ := clauses_constraint_eq_ok.1 compiled
    have notTarget : hook ≠ aim.target := by simpa [isLeaf] using atTarget
    exact .constraint isResolved (inductionHypothesis false below isTaken (by simp [notTarget])) hook
  | related relation quantifier child inductionHypothesis =>
    intro isLedTo path hook names later found compiled isTaken atTarget
    obtain ⟨rest, below, rfl⟩ := clauses_related_eq_ok.1 compiled
    refine .related (inductionHypothesis true below (farEnd_extends aim names child _ isTaken) ?_)
      relation quantifier hook _
    rw [farEnd_eq_target_iff isTaken]
    simp
  | choice branches inductionHypothesis =>
    intro isLedTo path hook names later found compiled isTaken atTarget
    obtain ⟨-, groups, below, rfl⟩ := clauses_choice_eq_ok.1 compiled
    have notTarget : hook ≠ aim.target := by simpa [isLeaf] using atTarget
    exact agrees_choice (CompilesAlike.forall₂ inductionHypothesis notTarget isTaken
      (forall₂_groupsOfBranches branches below))
  | all parts inductionHypothesis =>
    intro isLedTo path hook names later found compiled isTaken atTarget
    have notTarget : hook ≠ aim.target := by simpa [isLeaf] using atTarget
    obtain ⟨founds, each, rfl⟩ := forall₂_clausesOfParts parts (clauses_all_eq_ok.1 compiled).2
    exact agrees_all (CompilesAlike.forall₂ inductionHypothesis notTarget isTaken each)

end Pattern

/-! ## Compiled queries -/

namespace Query

/-- The query mirrors the tree of the pattern: its classes are those of the equipment and of the
tree, its links those of the tree's relations and of the classes that are to be points, each in the
order of the tree; and a union stands for each choice, with a group for each branch. -/
structure MirrorsTree (space : Namespace) (className : String) (pattern : Pattern)
    (query : Query) : Prop where
  classes : (query.triples.filterMap Clause.className?).map some =
    (className :: pattern.classNames).map (Identifier.classIri? space)
  visited : (pattern.visits false).map Pattern.Visit.node = pattern.nodes
  links : query.triples.filterMap Clause.link? =
    (pattern.visits false).filterMap (Pattern.Visit.link? space)
  edges : query.triples.countP Clause.isEdge =
    pattern.relationCount + (pattern.visits false).countP Pattern.Visit.isPoint
  unions : Clause.forksOfGroup query.clauses = pattern.forks space

theorem countP_isEdge (clauses : List Clause) :
    clauses.countP Clause.isEdge = (clauses.filterMap Clause.link?).length := by
  rw [List.length_filterMap_eq_countP]
  apply List.countP_congr
  intro clause _
  cases clause <;> simp [Clause.isEdge, Clause.link?]

theorem mirrorsTree {space : Namespace} {className target : String} {pattern : Pattern}
    {query : Query} (compiled : compile space className target pattern = .ok query) :
    query.MirrorsTree space className pattern := by
  obtain ⟨notRoot, -, resolved, found, later, isResolved, below, rfl⟩ := compile_eq_ok.1 compiled
  have isTaken : target ∈ (names target).taken := by simp [names]
  have agrees : Pattern.Agrees space false pattern found :=
    Pattern.compilesAlike pattern false below isTaken (by simp [Ne.symm notRoot])
  have links : Clause.links (.hasType root resolved :: found) = pattern.links space false := by
    rw [Clause.links_hasType, agrees.links]
  refine ⟨?classes, Pattern.map_node_visits pattern false, links, ?edges, ?unions⟩
  case classes =>
    have classes := agrees.classes
    rw [triples, ← Clause.classes, Clause.classes_hasType, List.map_cons, List.map_cons, classes,
      isResolved]
  case edges =>
    rw [countP_isEdge, triples, ← Clause.links, links, Pattern.length_links]
  case unions =>
    rw [Clause.forksOfGroup_hasType, agrees.forks]

/-- A choice within a branch of a choice, and classes below a relation, a branch and a part. -/
def branchedPattern : Pattern :=
  .related .hasPart .one
    (.choice
      [.leaf "Fan",
        .constraint "VAV" (.choice
          [.related .feeds .oneOrMore (.leaf "Sensor"), .all [.leaf "Sensor", .leaf "Setpoint"]])])

theorem mirrorsTree_of_branchedPattern :
    ∃ query, compile .brick "AHU" "point" branchedPattern = .ok query ∧
      query.triples.countP Clause.isEdge = 5 ∧
      query.MirrorsTree .brick "AHU" branchedPattern := by
  have edges : (compile .brick "AHU" "point" branchedPattern).map
      (fun query => query.triples.countP Clause.isEdge) = .ok 5 := by decide +kernel
  obtain ⟨query, compiled, isFive⟩ := map_eq_ok.1 edges
  exact ⟨query, compiled, isFive, mirrorsTree compiled⟩

end Query

end BuildingRules
