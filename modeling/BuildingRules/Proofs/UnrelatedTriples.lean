import BuildingRules.Proofs.GraphListings
import BuildingRules.Proofs.LargerGraphs

/-!
# Triples that no rule looks at

A query of a pattern asks for types, and for edges of the relations that start at a variable which
has a value by then; so it never goes through all nodes of a graph. Graphs that have the same types
and the same edges of the relations answer it alike, row for row: `Graph.Agree.solutions_eq`. A
triple of another predicate is therefore of no account to any evaluation: `unseen_of_insert`.
-/

set_option autoImplicit false

namespace BuildingRules

/-! ## Rows keep their values -/

namespace Graph

variable {graph : Graph} {row result : Row}

theorem extends_of_mem_typeRows {subject : String} {className : Iri}
    (member : result ∈ graph.typeRows row subject className) : result.Extends row := by
  obtain ⟨node, allowed, -, rfl⟩ := mem_typeRows.1 member
  exact Row.extends_insert allowed

theorem extends_of_mem_edgeRows {subject object : String} {predicate : Iri}
    {quantifier : Quantifier}
    (member : result ∈ graph.edgeRows row subject predicate quantifier object) :
    result.Extends row := by
  cases hasSubject : row[subject]? with
  | some start =>
    obtain ⟨finish, allowed, -, rfl⟩ := (mem_edgeRows_of_bound hasSubject).1 member
    exact Row.extends_insert allowed
  | none =>
    have keepsSubject : ∀ start : Term, Row.Extends (row.insert subject start) row :=
      fun start => Row.extends_insert (Row.allows_of_eq_none start hasSubject)
    cases hasObject : row[object]? with
    | some finish =>
      obtain ⟨start, -, rfl⟩ := (mem_edgeRows_of_object hasSubject hasObject).1 member
      exact keepsSubject start
    | none =>
      obtain ⟨start, finish, agree, -, -, rfl⟩ :=
        (mem_edgeRows_of_free hasSubject hasObject).1 member
      have allowed := (Row.allows_insert_iff hasObject).2 agree
      exact (Row.extends_insert allowed).trans (keepsSubject start)

/-- A clause changes no value that a row has. -/
theorem extends_of_mem_clauseRows (clause : Clause) : ∀ row result : Row,
    result ∈ graph.clauseRows row clause → result.Extends row :=
  passes_of_mem_clauseRows (fun row result => result.Extends row) Row.extends_refl
    (fun _ _ _ first second => second.trans first)
    (fun _ _ _ _ => extends_of_mem_typeRows) (fun _ _ _ _ _ _ => extends_of_mem_edgeRows) clause

theorem extends_of_mem_groupRows {group : List Clause}
    (member : result ∈ graph.groupRows [row] group) : result.Extends row := by
  rw [← clauseRows_union_singleton] at member
  exact extends_of_mem_clauseRows (.union [group]) row result member

end Graph

/-! ## Graphs that agree -/

/-- The graphs have the same types, and the same edges of the relations. -/
structure Graph.Agree (space : Namespace) (left right : Graph) : Prop where
  types : SameEdges left right Vocabulary.rdfType
  relations : ∀ relation : Relation, SameEdges left right (space.iri relation.name)

namespace Graph

variable {left right : Graph} {row : Row}

theorem typeRows_congr (types : SameEdges left right Vocabulary.rdfType) (row : Row)
    (subject : String) (className : Iri) :
    left.typeRows row subject className = right.typeRows row subject className := by
  have sameTyped : ∀ node, left.hasType node className = right.hasType node className := by
    intro node
    rw [Bool.eq_iff_iff, hasType_iff, hasType_iff]
    exact types node (.iri className)
  have sameInstances : left.instancesOf className = right.instancesOf className :=
    types.subjects (.iri className)
  simp only [typeRows, sameTyped, sameInstances]

/-- What is reached from a node does not depend on what other nodes there are. -/
theorem reach_congr {predicate : Iri} (same : SameEdges left right predicate)
    (quantifier : Quantifier) (start : Term) :
    left.reach predicate quantifier .forward start =
      right.reach predicate quantifier .forward start := by
  simp only [reach, neighbours, arrows, same.objects, same.pairs]

theorem edgeRows_congr {predicate : Iri} (same : SameEdges left right predicate)
    {subject : String} (bound : subject ∈ row) (quantifier : Quantifier) (object : String) :
    left.edgeRows row subject predicate quantifier object =
      right.edgeRows row subject predicate quantifier object := by
  obtain ⟨start, has⟩ := Row.mem_iff_exists.1 bound
  have sameReach := reach_congr same quantifier start
  unfold edgeRows
  rw [has]
  cases row[object]? with
  | some finish =>
    dsimp only
    rw [sameReach]
  | none =>
    dsimp only
    rw [sameReach]

theorem groupRows_cons_congr {clause : Clause} {rest : List Clause}
    (first : left.clauseRows row clause = right.clauseRows row clause)
    (others : ∀ next ∈ right.clauseRows row clause,
      left.groupRows [next] rest = right.groupRows [next] rest) :
    left.groupRows [row] (clause :: rest) = right.groupRows [row] (clause :: rest) := by
  rw [groupRows_cons, groupRows_cons, first]
  exact List.flatMap_congr others

end Graph

namespace Pattern

variable {left right : Graph} {aim : Aim}

/-- From every row in which the hook has a value, the clauses of the pattern lead to the same rows
over both graphs. -/
def ReadAlike (left right : Graph) (aim : Aim) (pattern : Pattern) : Prop :=
  ∀ {path hook : String} {names later : NameSupply} {found : List Clause} {row : Row},
    pattern.clauses aim path hook names = .ok (found, later) → hook ∈ row →
      left.groupRows [row] found = right.groupRows [row] found

theorem readAlike_leaf (agree : left.Agree aim.space right) (className : String) :
    ReadAlike left right aim (.leaf className) := by
  intro path hook names later found row compiled bound
  obtain ⟨resolved, -, rfl, -⟩ := clauses_leaf_eq_ok.1 compiled
  have typed : ∀ next : Row, left.groupRows [next] [.hasType aim.target resolved] =
      right.groupRows [next] [.hasType aim.target resolved] := by
    intro next
    refine Graph.groupRows_cons_congr ?_ fun _ _ => rfl
    simpa only [Graph.clauseRows] using Graph.typeRows_congr agree.types next aim.target resolved
  unfold leafClauses
  split
  next => exact typed row
  next =>
    refine Graph.groupRows_cons_congr ?_ fun next _ => typed next
    simpa only [Graph.clauseRows] using
      Graph.edgeRows_congr (agree.relations .hasPoint) bound .one aim.target

theorem readAlike_constraint (agree : left.Agree aim.space right) (className : String)
    {child : Pattern} (childAlike : ReadAlike left right aim child) :
    ReadAlike left right aim (.constraint className child) := by
  intro path hook names later found row compiled bound
  obtain ⟨resolved, rest, -, below, rfl⟩ := clauses_constraint_eq_ok.1 compiled
  refine Graph.groupRows_cons_congr ?_ fun next inClause => childAlike below ?_
  · simpa only [Graph.clauseRows] using Graph.typeRows_congr agree.types row hook resolved
  · exact (Graph.extends_of_mem_clauseRows _ row next inClause).mem bound

/-- The variable that the edge leads to has a value behind it. -/
theorem readAlike_related (agree : left.Agree aim.space right) (relation : Relation)
    (quantifier : Quantifier) {child : Pattern} (childAlike : ReadAlike left right aim child) :
    ReadAlike left right aim (.related relation quantifier child) := by
  intro path hook names later found row compiled bound
  obtain ⟨rest, below, rfl⟩ := clauses_related_eq_ok.1 compiled
  refine Graph.groupRows_cons_congr ?_ fun next inClause => childAlike below ?_
  · simpa only [Graph.clauseRows] using
      Graph.edgeRows_congr (agree.relations relation) bound quantifier _
  · obtain ⟨start, has⟩ := Row.mem_iff_exists.1 bound
    rw [Graph.clauseRows, Graph.mem_edgeRows_of_bound has] at inClause
    obtain ⟨finish, -, -, rfl⟩ := inClause
    exact Row.mem_insert_iff.2 (.inr rfl)

theorem groupRows_branches_congr (branches : List Pattern)
    (eachAlike : ∀ branch ∈ branches, ReadAlike left right aim branch)
    {path hook : String} {index : Nat} {names later : NameSupply} {groups : List (List Clause)}
    {row : Row}
    (compiled : groupsOfBranches aim path hook index names branches = .ok (groups, later))
    (bound : hook ∈ row) :
    ∀ group ∈ groups, left.groupRows [row] group = right.groupRows [row] group := by
  induction branches generalizing index names groups with
  | nil =>
    simp only [groupsOfBranches, Except.ok.injEq, Prod.mk.injEq] at compiled
    rw [← compiled.1]
    exact List.forall_mem_nil _
  | cons branch rest inductionHypothesis =>
    obtain ⟨group, between, others, first, second, rfl⟩ := groupsOfBranches_cons_eq_ok.1 compiled
    obtain ⟨firstAlike, restAlike⟩ := List.forall_mem_cons.1 eachAlike
    exact List.forall_mem_cons.2
      ⟨firstAlike first bound, inductionHypothesis restAlike second⟩

theorem readAlike_choice {branches : List Pattern}
    (eachAlike : ∀ branch ∈ branches, ReadAlike left right aim branch) :
    ReadAlike left right aim (.choice branches) := by
  intro path hook names later found row compiled bound
  obtain ⟨-, groups, below, rfl⟩ := clauses_choice_eq_ok.1 compiled
  refine Graph.groupRows_cons_congr ?_ fun _ _ => rfl
  rw [Graph.clauseRows, Graph.clauseRows, Graph.unionRows_eq_flatMap, Graph.unionRows_eq_flatMap]
  exact List.flatMap_congr (groupRows_branches_congr branches eachAlike below bound)

theorem groupRows_parts_congr (parts : List Pattern)
    (eachAlike : ∀ part ∈ parts, ReadAlike left right aim part)
    {path hook : String} {names later : NameSupply} {found : List Clause} {row : Row}
    (compiled : clausesOfParts aim path hook names parts = .ok (found, later))
    (bound : hook ∈ row) : left.groupRows [row] found = right.groupRows [row] found := by
  induction parts generalizing names found row with
  | nil =>
    simp only [clausesOfParts, Except.ok.injEq, Prod.mk.injEq] at compiled
    rw [← compiled.1]
    rfl
  | cons part rest inductionHypothesis =>
    obtain ⟨first, between, others, firstCompiled, restCompiled, rfl⟩ :=
      clausesOfParts_cons_eq_ok.1 compiled
    obtain ⟨firstAlike, restAlike⟩ := List.forall_mem_cons.1 eachAlike
    rw [Graph.groupRows_append, Graph.groupRows_append, firstAlike firstCompiled bound]
    exact List.flatMap_congr fun next inFirst =>
      inductionHypothesis restAlike restCompiled
        ((Graph.extends_of_mem_groupRows inFirst).mem bound)

theorem readAlike (agree : left.Agree aim.space right) (pattern : Pattern) :
    ReadAlike left right aim pattern := by
  induction pattern using treeInduction with
  | leaf className => exact readAlike_leaf agree className
  | constraint className child inductionHypothesis =>
    exact readAlike_constraint agree className inductionHypothesis
  | related relation quantifier child inductionHypothesis =>
    exact readAlike_related agree relation quantifier inductionHypothesis
  | choice branches inductionHypothesis => exact readAlike_choice inductionHypothesis
  | all parts inductionHypothesis =>
    intro path hook names later found row compiled bound
    exact groupRows_parts_congr parts inductionHypothesis (clauses_all_eq_ok.1 compiled).2 bound

end Pattern

namespace Graph.Agree

variable {space : Namespace} {left right : Graph}

theorem solutions_eq (agree : left.Agree space right) {className target : String}
    {pattern : Pattern} {query : Query}
    (compiled : Query.compile space className target pattern = .ok query) :
    left.solutions query = right.solutions query := by
  obtain ⟨-, -, resolved, found, later, -, below, rfl⟩ := Query.compile_eq_ok.1 compiled
  have sameRows : left.groupRows [∅] (.hasType Query.root resolved :: found) =
      right.groupRows [∅] (.hasType Query.root resolved :: found) := by
    refine groupRows_cons_congr ?_ fun next inClause => Pattern.readAlike agree pattern below ?_
    · simpa only [clauseRows] using typeRows_congr agree.types ∅ Query.root resolved
    · rw [clauseRows, mem_typeRows] at inClause
      obtain ⟨equipment, -, -, rfl⟩ := inClause
      exact Row.mem_insert_iff.2 (.inr rfl)
  rw [solutions, solutions, sameRows]

theorem answer_eq (agree : left.Agree space right) {className target : String}
    {pattern : Pattern} {query : Query}
    (compiled : Query.compile space className target pattern = .ok query)
    (limit : Option Duration) : left.answer limit query = right.answer limit query := by
  simp only [answer, agree.solutions_eq compiled]

theorem answer_step_eq (agree : left.Agree space right) (limit : Option Duration) (rule : Rule) :
    ∀ step ∈ rule.steps space,
      step.answer left.store limit = step.answer right.store limit := by
  intro step listed
  simp only [Rule.steps, List.mem_flatMap, List.mem_map] at listed
  obtain ⟨className, -, definition, -, rfl⟩ := listed
  cases compiled : Query.compile space className definition.variableName definition.pattern with
  | error error => simp only [Step.answer, Except.bind]
  | ok query =>
    simp only [Step.answer, Except.bind, Graph.store, agree.answer_eq compiled limit]

variable {settings : Settings}

theorem outcome_eq (agree : left.Agree settings.space right) (rule : Rule) :
    rule.outcome settings left.store = rule.outcome settings right.store := by
  have sameFound : rule.found settings left.store = rule.found settings right.store := by
    unfold Rule.found
    rw [List.flatMap_congr fun step listed => ?_]
    simp only [Step.rows, agree.answer_step_eq settings.limit rule step listed]
  simp only [Rule.outcome, sameFound]

theorem failures_eq (agree : left.Agree settings.space right) (rule : Rule) :
    rule.failures settings left.store = rule.failures settings right.store := by
  apply List.filterMap_congr
  intro step listed
  simp only [Step.failure?, agree.answer_step_eq settings.limit rule step listed]

theorem evaluation_eq (agree : left.Agree settings.space right) (book : RuleBook) :
    Evaluation.ofBook settings left.store book = Evaluation.ofBook settings right.store book := by
  have outcomes : book.rules.map (Rule.outcome settings left.store) =
      book.rules.map (Rule.outcome settings right.store) :=
    List.map_congr_left fun rule _ => agree.outcome_eq rule
  have failures : book.rules.flatMap (Rule.failures settings left.store) =
      book.rules.flatMap (Rule.failures settings right.store) :=
    List.flatMap_congr fun rule _ => agree.failures_eq rule
  rw [Evaluation.ofBook, Evaluation.ofBook, outcomes, failures]

end Graph.Agree

/-! ## One more triple -/

theorem Graph.sameEdges_of_insert {graph larger : Graph} {triple : Triple} {isNew : Bool}
    (inserted : graph.insert triple = .ok (larger, isNew)) {predicate : Iri}
    (isOther : triple.predicate ≠ predicate) : larger.SameEdges graph predicate := by
  intro subject object
  unfold insert at inserted
  split at inserted
  next =>
    obtain ⟨rfl, -⟩ := Prod.mk.inj (Except.ok.inj inserted)
    rw [Std.ExtTreeSet.mem_insert, Std.LawfulEqCmp.compare_eq_iff_eq]
    refine or_iff_right ?_
    rintro rfl
    exact isOther rfl
  next => contradiction

/-- The larger graph is like the graph to all rules, and to every query of a pattern. -/
structure Unseen (settings : Settings) (graph larger : Graph) : Prop where
  answers : ∀ {className target : String} {pattern : Pattern} {query : Query},
    Query.compile settings.space className target pattern = .ok query → ∀ limit,
      larger.answer limit query = graph.answer limit query
  evaluations : ∀ book, Evaluation.ofBook settings larger.store book =
    Evaluation.ofBook settings graph.store book
  documents : ∀ document, Evaluation.ofDocument settings larger.store document =
    Evaluation.ofDocument settings graph.store document

theorem unseen_of_insert {settings : Settings} {graph larger : Graph} {triple : Triple}
    {isNew : Bool} (inserted : graph.insert triple = .ok (larger, isNew))
    (notType : triple.predicate ≠ Vocabulary.rdfType)
    (notRelation : ∀ relation : Relation,
      triple.predicate ≠ settings.space.iri relation.name) : Unseen settings graph larger := by
  have agree : larger.Agree settings.space graph :=
    ⟨Graph.sameEdges_of_insert inserted notType,
      fun relation => Graph.sameEdges_of_insert inserted (notRelation relation)⟩
  refine ⟨fun compiled => agree.answer_eq compiled, agree.evaluation_eq, fun document => ?_⟩
  rw [Evaluation.ofDocument, Evaluation.ofDocument, agree.evaluation_eq]

/-- The label adds two nodes to a graph. -/
def labelTriple : Triple := ⟨.blank "x", ⟨"http://www.w3.org/2000/01/rdf-schema#label"⟩, .blank "y"⟩

/-- No pattern has this query: its edge starts anywhere, so all nodes count. -/
def wanderingQuery : Query :=
  ⟨Namespace.brick.iri "VAV", "end",
    [.edge Query.root (Namespace.brick.iri "feeds") .zeroOrMore "end"]⟩

theorem unseen_of_insert_labelTriple :
    ∃ larger, Query.loopGraph.insert labelTriple = .ok (larger, true) ∧
      (larger.solutions wanderingQuery).length ≠
        (Query.loopGraph.solutions wanderingQuery).length ∧
      Unseen .default Query.loopGraph larger := by
  have inserted : Query.loopGraph.insert labelTriple =
      .ok (⟨Query.loopGraph.triples.insert labelTriple⟩, true) := rfl
  have notRelation : ∀ relation : Relation,
      labelTriple.predicate ≠ Settings.default.space.iri relation.name := by
    intro relation
    cases relation <;> decide
  exact ⟨_, inserted, by decide +kernel, unseen_of_insert inserted (by decide) notRelation⟩

end BuildingRules
