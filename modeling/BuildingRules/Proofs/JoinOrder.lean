import BuildingRules.Proofs.AddedValues
import Mathlib.Data.List.Perm.Basic

/-!
# The order of a join

Types and edges find exactly the rows that add values for their variables and make them true, each
once: `FindsExactly`. So two of them can be joined in either order, and with them any two clauses:
`clauseRows_comm`. Hence the rows of a query, counted as often as they are found, stay the same when
its clauses, the groups of its unions or the clauses of these are reordered:
`answer_perm_of_reordered`.
-/

set_option autoImplicit false

namespace BuildingRules

/-! ## Searches that can be exchanged -/

/-- A search takes a row to each row that adds values for its names and satisfies a condition on
these values, which are nodes. -/
structure FindsExactly (graph : Graph) (search : Row → List Row) (names : List String)
    (condition : Row → Prop) : Prop where
  mem_iff : ∀ {row : Row}, row.OfNodes graph → ∀ result,
    result ∈ search row ↔ result.Adds row names ∧ condition result
  nodup : ∀ {row : Row}, row.OfNodes graph → (search row).Nodup
  nodes : ∀ {row : Row}, condition row → ∀ name ∈ names, ∀ value,
    row[name]? = some value → value ∈ graph.nodes
  condition_iff : ∀ {later earlier : Row}, later.Extends earlier →
    (∀ name ∈ names, name ∈ earlier) → (condition later ↔ condition earlier)

/-- Joined in either order, two searches find the same rows, and each as often. -/
def Exchangeable (graph : Graph) (first second : Row → List Row) : Prop :=
  ∀ row : Row, row.OfNodes graph →
    ((first row).flatMap second).Perm ((second row).flatMap first)

def StaysInNodes (graph : Graph) (search : Row → List Row) : Prop :=
  ∀ row : Row, row.OfNodes graph → ∀ result ∈ search row, result.OfNodes graph

namespace FindsExactly

variable {graph : Graph} {first second : Row → List Row} {names otherNames : List String}
  {condition otherCondition : Row → Prop} {row : Row}

theorem staysInNodes (finds : FindsExactly graph first names condition) :
    StaysInNodes graph first := by
  intro row ofNodes result member name value has
  obtain ⟨adds, satisfied⟩ := (finds.mem_iff ofNodes result).1 member
  rcases (adds.names_iff name).1 (Row.mem_iff_exists.2 ⟨value, has⟩) with old | new
  · obtain ⟨before, hasBefore⟩ := Row.mem_iff_exists.1 old
    have kept := adds.keeps name before hasBefore
    rw [has] at kept
    rw [Option.some.inj kept]
    exact ofNodes name before hasBefore
  · exact finds.nodes satisfied name new value has

/-- Joined, two searches find the rows that add values for the names of both and satisfy the
conditions of both. -/
theorem mem_flatMap_iff (finds : FindsExactly graph first names condition)
    (findsOther : FindsExactly graph second otherNames otherCondition)
    (ofNodes : row.OfNodes graph) (result : Row) :
    result ∈ (first row).flatMap second ↔
      result.Adds row (names ++ otherNames) ∧ condition result ∧ otherCondition result := by
  rw [List.mem_flatMap]
  constructor
  · intro found
    obtain ⟨middle, inFirst, inSecond⟩ := found
    obtain ⟨adds, satisfied⟩ := (finds.mem_iff ofNodes middle).1 inFirst
    obtain ⟨addsOther, satisfiedOther⟩ :=
      (findsOther.mem_iff (finds.staysInNodes row ofNodes middle inFirst) result).1 inSecond
    have bound : ∀ name ∈ names, name ∈ middle :=
      fun name listed => (adds.names_iff name).2 (.inr listed)
    exact ⟨addsOther.trans adds, (finds.condition_iff addsOther.keeps bound).2 satisfied,
      satisfiedOther⟩
  · intro found
    obtain ⟨adds, satisfied, satisfiedOther⟩ := found
    obtain ⟨middle, addsFirst, addsSecond⟩ := adds.split
    have bound : ∀ name ∈ names, name ∈ middle :=
      fun name listed => (addsFirst.names_iff name).2 (.inr listed)
    have inFirst : middle ∈ first row := (finds.mem_iff ofNodes middle).2
      ⟨addsFirst, (finds.condition_iff addsSecond.keeps bound).1 satisfied⟩
    exact ⟨middle, inFirst, (findsOther.mem_iff (finds.staysInNodes row ofNodes middle inFirst)
      result).2 ⟨addsSecond, satisfiedOther⟩⟩

theorem nodup_flatMap (finds : FindsExactly graph first names condition)
    (findsOther : FindsExactly graph second otherNames otherCondition)
    (ofNodes : row.OfNodes graph) : ((first row).flatMap second).Nodup := by
  refine List.nodup_flatMap.2 ⟨?_, ?_⟩
  · intro middle inFirst
    exact findsOther.nodup (finds.staysInNodes row ofNodes middle inFirst)
  · apply (finds.nodup ofNodes).pairwise_of_forall_ne
    intro left inFirst right inFirstToo different result inLeft inRight
    have leftAdds := ((finds.mem_iff ofNodes left).1 inFirst).1
    have rightAdds := ((finds.mem_iff ofNodes right).1 inFirstToo).1
    have leftKept := ((findsOther.mem_iff (finds.staysInNodes row ofNodes left inFirst)
      result).1 inLeft).1.keeps
    have rightKept := ((findsOther.mem_iff (finds.staysInNodes row ofNodes right inFirstToo)
      result).1 inRight).1.keeps
    exact different (leftAdds.unique leftKept rightAdds rightKept)

theorem exchangeable (finds : FindsExactly graph first names condition)
    (findsOther : FindsExactly graph second otherNames otherCondition) :
    Exchangeable graph first second := by
  intro row ofNodes
  apply (List.perm_ext_iff_of_nodup (finds.nodup_flatMap findsOther ofNodes)
    (findsOther.nodup_flatMap finds ofNodes)).2
  intro result
  rw [finds.mem_flatMap_iff findsOther ofNodes, findsOther.mem_flatMap_iff finds ofNodes]
  constructor
  · rintro ⟨adds, satisfied, satisfiedOther⟩
    exact ⟨adds.swap, satisfiedOther, satisfied⟩
  · rintro ⟨adds, satisfiedOther, satisfied⟩
    exact ⟨adds.swap, satisfied, satisfiedOther⟩

end FindsExactly

namespace Exchangeable

variable {graph : Graph} {search first second : Row → List Row}

theorem symm (exchangeable : Exchangeable graph first second) : Exchangeable graph second first :=
  fun row ofNodes => (exchangeable row ofNodes).symm

theorem nothing (search : Row → List Row) : Exchangeable graph search fun _ => [] := by
  intro row _
  simp

theorem self (search : Row → List Row) : Exchangeable graph search fun row => [row] := by
  intro row _
  simp

/-- A search that can be exchanged with each of two can be exchanged with their alternative. -/
theorem append (exchangeFirst : Exchangeable graph search first)
    (exchangeSecond : Exchangeable graph search second) :
    Exchangeable graph search fun row => first row ++ second row := by
  intro row ofNodes
  rw [List.flatMap_append]
  exact (List.flatMap_append_perm (search row) first second).symm.trans
    ((exchangeFirst row ofNodes).append (exchangeSecond row ofNodes))

/-- A search that can be exchanged with each of two can be exchanged with one after the other. -/
theorem andThen (stays : StaysInNodes graph first)
    (exchangeFirst : Exchangeable graph search first)
    (exchangeSecond : Exchangeable graph search second) :
    Exchangeable graph search fun row => (first row).flatMap second := by
  intro row ofNodes
  calc (search row).flatMap (fun middle => (first middle).flatMap second)
      = ((search row).flatMap first).flatMap second := by rw [List.flatMap_assoc]
    List.Perm _ (((first row).flatMap search).flatMap second) :=
        (exchangeFirst row ofNodes).flatMap_right second
    _ = (first row).flatMap (fun middle => (search middle).flatMap second) := by
        rw [List.flatMap_assoc]
    List.Perm _ ((first row).flatMap fun middle => (second middle).flatMap search) :=
        List.Perm.flatMap_left _ fun middle inFirst =>
          exchangeSecond middle (stays row ofNodes middle inFirst)
    _ = ((first row).flatMap second).flatMap search := by rw [List.flatMap_assoc]

end Exchangeable

/-! ## Clauses -/

namespace Graph

variable {graph : Graph}

theorem findsExactly_typeRows (graph : Graph) (subject : String) (className : Iri) :
    FindsExactly graph (fun row => graph.typeRows row subject className) [subject]
      fun row => ∃ node, row[subject]? = some node ∧ typing node className ∈ graph.triples where
  mem_iff {row} _ result := by
    rw [mem_typeRows, Row.adds_singleton_iff]
    constructor
    · intro found
      obtain ⟨node, allowed, typed, rfl⟩ := found
      exact ⟨⟨node, allowed, rfl⟩, node, by simp, typed⟩
    · intro found
      obtain ⟨⟨value, allowed, rfl⟩, node, has, typed⟩ := found
      have sameNode : value = node := by simpa using has
      exact ⟨node, sameNode ▸ allowed, typed, by rw [sameNode]⟩
  nodup {row} _ := graph.nodup_typeRows row subject className
  nodes {row} found name listed value has := by
    obtain ⟨node, hasNode, typed⟩ := found
    rw [List.mem_singleton.1 listed, hasNode] at has
    rw [← Option.some.inj has]
    exact mem_nodes.2 ⟨_, typed, .inl rfl⟩
  condition_iff {later earlier} keeps bound := by
    obtain ⟨node, has⟩ := Row.mem_iff_exists.1 (bound subject List.mem_cons_self)
    rw [has, keeps subject node has]

theorem findsExactly_edgeRows (graph : Graph) (subject : String) (predicate : Iri)
    (quantifier : Quantifier) (object : String) :
    FindsExactly graph (fun row => graph.edgeRows row subject predicate quantifier object)
      [subject, object] fun row => ∃ start finish, row[subject]? = some start ∧
        row[object]? = some finish ∧ start ∈ graph.nodes ∧
        quantifier.Follows (graph.Edge predicate) start finish where
  mem_iff {row} ofNodes result := by
    rw [mem_edgeRows ofNodes, Row.adds_pair_iff]
    constructor
    · intro found
      obtain ⟨start, finish, allowed, allowedFinish, isNode, leads, rfl⟩ := found
      have keeps := Row.extends_insert allowedFinish
      exact ⟨⟨start, finish, allowed, allowedFinish, rfl⟩, start, finish,
        keeps subject start (by simp), by simp, isNode, leads⟩
    · intro found
      obtain ⟨⟨value, other, allowed, allowedOther, rfl⟩, start, finish, hasStart, hasFinish,
        isNode, leads⟩ := found
      have sameStart : value = start := by
        have kept := Row.extends_insert allowedOther subject value (by simp)
        exact Option.some.inj (kept.symm.trans hasStart)
      have sameFinish : other = finish := by simpa using hasFinish
      subst sameStart sameFinish
      exact ⟨value, other, allowed, allowedOther, isNode, leads, rfl⟩
  nodup {row} _ := graph.nodup_edgeRows row subject predicate quantifier object
  nodes {row} found name listed value has := by
    obtain ⟨start, finish, hasStart, hasFinish, isNode, leads⟩ := found
    rcases List.mem_pair.1 listed with rfl | rfl
    · rw [hasStart] at has
      rw [← Option.some.inj has]
      exact isNode
    · rw [hasFinish] at has
      rw [← Option.some.inj has]
      exact (mem_nodes_of_follows leads).1 isNode
  condition_iff {later earlier} keeps bound := by
    obtain ⟨start, hasStart⟩ := Row.mem_iff_exists.1 (bound subject (by simp))
    obtain ⟨finish, hasFinish⟩ := Row.mem_iff_exists.1 (bound object (by simp))
    rw [hasStart, hasFinish, keeps subject start hasStart, keeps object finish hasFinish]

theorem staysInNodes_clauseRows (graph : Graph) (clause : Clause) :
    StaysInNodes graph fun row => graph.clauseRows row clause := by
  intro row ofNodes result member
  refine passes_of_mem_clauseRows (fun row result => row.OfNodes graph → result.OfNodes graph)
    ?_ ?_ ?_ ?_ clause row result member ofNodes
  · exact fun _ ofNodes => ofNodes
  · exact fun _ _ _ firstStays secondStays ofNodes => secondStays (firstStays ofNodes)
  · intro subject className row result member ofNodes
    exact (graph.findsExactly_typeRows subject className).staysInNodes row ofNodes result member
  · intro subject predicate quantifier object row result member ofNodes
    exact (graph.findsExactly_edgeRows subject predicate quantifier object).staysInNodes row
      ofNodes result member

theorem staysInNodes_groupRows (graph : Graph) (group : List Clause) :
    StaysInNodes graph fun row => graph.groupRows [row] group := by
  simpa only [clauseRows_union_singleton] using graph.staysInNodes_clauseRows (.union [group])

section Exchange

variable {search : Row → List Row}

theorem exchangeable_groupRows (group : List Clause)
    (each : ∀ clause ∈ group, Exchangeable graph search fun row => graph.clauseRows row clause) :
    Exchangeable graph search fun row => graph.groupRows [row] group := by
  induction group with
  | nil =>
      simp only [groupRows_nil]
      exact Exchangeable.self search
  | cons clause rest inductionHypothesis =>
      simp only [groupRows_cons]
      exact Exchangeable.andThen (graph.staysInNodes_clauseRows clause)
        (each clause List.mem_cons_self)
        (inductionHypothesis fun other inRest => each other (List.mem_cons_of_mem clause inRest))

theorem exchangeable_unionRows (groups : List (List Clause))
    (each : ∀ group ∈ groups, ∀ clause ∈ group,
      Exchangeable graph search fun row => graph.clauseRows row clause) :
    Exchangeable graph search fun row => graph.unionRows row groups := by
  induction groups with
  | nil =>
      simp only [unionRows]
      exact Exchangeable.nothing search
  | cons group rest inductionHypothesis =>
      simp only [unionRows]
      exact Exchangeable.append (exchangeable_groupRows group (each group List.mem_cons_self))
        (inductionHypothesis fun other inRest => each other (List.mem_cons_of_mem group inRest))

/-- What can be exchanged with every type and every edge can be exchanged with every clause. -/
theorem exchangeable_clauseRows
    (types : ∀ subject className,
      Exchangeable graph search fun row => graph.typeRows row subject className)
    (edges : ∀ subject predicate quantifier object,
      Exchangeable graph search fun row => graph.edgeRows row subject predicate quantifier object)
    (clause : Clause) : Exchangeable graph search fun row => graph.clauseRows row clause := by
  induction clause using Clause.clauseInduction with
  | hasType subject className =>
      simp only [clauseRows]
      exact types subject className
  | edge subject predicate quantifier object =>
      simp only [clauseRows]
      exact edges subject predicate quantifier object
  | union groups inductionHypothesis =>
      simp only [clauseRows]
      exact exchangeable_unionRows groups inductionHypothesis

end Exchange

/-- Two clauses, joined in either order, find the same rows, and each as often. -/
theorem clauseRows_comm (graph : Graph) (first second : Clause) :
    Exchangeable graph (fun row => graph.clauseRows row first)
      fun row => graph.clauseRows row second := by
  have withTypes : ∀ subject className clause,
      Exchangeable graph (fun row => graph.typeRows row subject className)
        fun row => graph.clauseRows row clause := by
    intro subject className clause
    have finds := graph.findsExactly_typeRows subject className
    exact exchangeable_clauseRows
      (fun _ _ => finds.exchangeable (graph.findsExactly_typeRows _ _))
      (fun _ _ _ _ => finds.exchangeable (graph.findsExactly_edgeRows _ _ _ _)) clause
  have withEdges : ∀ subject predicate quantifier object clause,
      Exchangeable graph (fun row => graph.edgeRows row subject predicate quantifier object)
        fun row => graph.clauseRows row clause := by
    intro subject predicate quantifier object clause
    have finds := graph.findsExactly_edgeRows subject predicate quantifier object
    exact exchangeable_clauseRows
      (fun _ _ => finds.exchangeable (graph.findsExactly_typeRows _ _))
      (fun _ _ _ _ => finds.exchangeable (graph.findsExactly_edgeRows _ _ _ _)) clause
  exact exchangeable_clauseRows (fun subject className => (withTypes subject className first).symm)
    (fun subject predicate quantifier object =>
      (withEdges subject predicate quantifier object first).symm) second

/-! ## Groups -/

theorem groupRows_perm {left right : List Clause} (perm : left.Perm right) {row : Row}
    (ofNodes : row.OfNodes graph) :
    (graph.groupRows [row] left).Perm (graph.groupRows [row] right) := by
  induction perm generalizing row with
  | nil => exact .refl _
  | cons clause _ inductionHypothesis =>
      rw [groupRows_cons, groupRows_cons]
      exact List.Perm.flatMap_left _ fun middle inClause =>
        inductionHypothesis (graph.staysInNodes_clauseRows clause row ofNodes middle inClause)
  | swap first second rest =>
      simp only [groupRows_cons, ← List.flatMap_assoc]
      exact (graph.clauseRows_comm second first row ofNodes).flatMap_right _
  | trans _ _ firstHypothesis secondHypothesis =>
      exact (firstHypothesis ofNodes).trans (secondHypothesis ofNodes)

/-- A clause may be replaced by one that finds the same from every row. -/
theorem groupRows_replace {left right : Clause}
    (same : ∀ row : Row, row.OfNodes graph →
      (graph.clauseRows row left).Perm (graph.clauseRows row right))
    (before after : List Clause) {row : Row} (ofNodes : row.OfNodes graph) :
    (graph.groupRows [row] (before ++ left :: after)).Perm
      (graph.groupRows [row] (before ++ right :: after)) := by
  rw [groupRows_append, groupRows_append]
  refine List.Perm.flatMap_left _ fun middle inBefore => ?_
  have middleOfNodes := graph.staysInNodes_groupRows before row ofNodes middle inBefore
  rw [groupRows_cons, groupRows_cons]
  exact (same middle middleOfNodes).flatMap_right _

end Graph

/-- The clauses of a list are reordered, or those of a group of one of its unions, or the groups of
such a union, and this any number of times. -/
inductive Clause.Reordered : List Clause → List Clause → Prop
  | clauses {left right : List Clause} : left.Perm right → Reordered left right
  | groups {before after : List Clause} {left right : List (List Clause)} :
      left.Perm right → Reordered (before ++ .union left :: after) (before ++ .union right :: after)
  | group {before after : List Clause} {earlier later : List (List Clause)}
      {left right : List Clause} : Reordered left right →
      Reordered (before ++ .union (earlier ++ left :: later) :: after)
        (before ++ .union (earlier ++ right :: later) :: after)
  | trans {left middle right : List Clause} :
      Reordered left middle → Reordered middle right → Reordered left right

theorem Clause.Reordered.groupRows_perm {graph : Graph} {left right : List Clause}
    (reordered : Reordered left right) {row : Row} (ofNodes : row.OfNodes graph) :
    (graph.groupRows [row] left).Perm (graph.groupRows [row] right) := by
  induction reordered generalizing row with
  | clauses perm => exact Graph.groupRows_perm perm ofNodes
  | groups perm =>
      refine Graph.groupRows_replace ?_ _ _ ofNodes
      intro middle _
      rw [Graph.clauseRows, Graph.clauseRows, Graph.unionRows_eq_flatMap,
        Graph.unionRows_eq_flatMap]
      exact perm.flatMap_right _
  | group _ inductionHypothesis =>
      refine Graph.groupRows_replace ?_ _ _ ofNodes
      intro middle middleOfNodes
      simp only [Graph.clauseRows, Graph.unionRows_eq_flatMap, List.flatMap_append,
        List.flatMap_cons]
      exact ((inductionHypothesis middleOfNodes).append_right _).append_left _
  | trans _ _ firstHypothesis secondHypothesis =>
      exact (firstHypothesis ofNodes).trans (secondHypothesis ofNodes)

/-- The answer to a query has the same rows, and each as often, when its clauses, the groups of its
unions and the clauses of these are reordered. -/
theorem Graph.answer_perm_of_reordered {left right : List Clause}
    (reordered : Clause.Reordered left right) (graph : Graph) (className : Iri)
    (target : String) :
    ∃ leftRows rightRows, graph.answer none ⟨className, target, left⟩ = .ok leftRows ∧
      graph.answer none ⟨className, target, right⟩ = .ok rightRows ∧ leftRows.Perm rightRows :=
  ⟨_, _, rfl, rfl, (reordered.groupRows_perm (Row.ofNodes_empty graph)).map _⟩

namespace Clause

def isUnit (name : String) : Clause := .hasType name (Namespace.brick.iri "VAV")

def partOf (part whole : String) (quantifier : Quantifier) : Clause :=
  .edge part (Namespace.brick.iri "isPartOf") quantifier whole

/-- A unit that is a part of itself, and the target as another part of it or as another unit. -/
def partsOrUnits : List Clause :=
  [isUnit "root", partOf "root" "root" .oneOrMore,
    .union [[partOf "part" "root" .zeroOrMore, isUnit "part"], [isUnit "part"]]]

def unitsOrParts : List Clause :=
  [.union [[isUnit "part"], [isUnit "part", partOf "part" "root" .zeroOrMore]],
    partOf "root" "root" .oneOrMore, isUnit "root"]

theorem reordered_partsOrUnits : Reordered partsOrUnits unitsOrParts := by
  have swapped : Reordered [partOf "part" "root" .zeroOrMore, isUnit "part"]
      [isUnit "part", partOf "part" "root" .zeroOrMore] := .clauses (.swap _ _ _)
  have inUnion := @Reordered.group [isUnit "root", partOf "root" "root" .oneOrMore] [] []
    [[isUnit "part"]] _ _ swapped
  have ofUnion := @Reordered.groups [isUnit "root", partOf "root" "root" .oneOrMore] [] _ _
    (List.Perm.swap [isUnit "part"] [isUnit "part", partOf "part" "root" .zeroOrMore] [])
  have reversed := Reordered.clauses (List.reverse_perm unitsOrParts)
  exact inUnion.trans (ofUnion.trans reversed)

end Clause

/-- Two units that are parts of each other. -/
def Graph.mutualParts : Graph :=
  ⟨.ofList [Graph.typing (.blank "v") (Namespace.brick.iri "VAV"),
    Graph.typing (.blank "w") (Namespace.brick.iri "VAV"),
    ⟨.blank "v", Namespace.brick.iri "isPartOf", .blank "w"⟩,
    ⟨.blank "w", Namespace.brick.iri "isPartOf", .blank "v"⟩] compare⟩

theorem Graph.answer_perm_of_partsOrUnits :
    Clause.Reordered Clause.partsOrUnits Clause.unitsOrParts ∧
    ∃ leftRows rightRows,
      mutualParts.answer none ⟨Namespace.brick.iri "VAV", "part", Clause.partsOrUnits⟩ =
        .ok leftRows ∧
      mutualParts.answer none ⟨Namespace.brick.iri "VAV", "part", Clause.unitsOrParts⟩ =
        .ok rightRows ∧ leftRows.Perm rightRows :=
  ⟨Clause.reordered_partsOrUnits,
    answer_perm_of_reordered Clause.reordered_partsOrUnits mutualParts _ _⟩

end BuildingRules
