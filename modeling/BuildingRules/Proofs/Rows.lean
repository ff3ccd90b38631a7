import BuildingRules.Proofs.Reachability
import BuildingRules.Query.Solutions

/-!
# The rows a group of clauses leads to

A group takes each row on by itself, clause after clause: `groupRows_append` and
`groupRows_cons`. A clause whose subject has a value adds a value of its object, or keeps the row
if the object has that value already: `mem_typeRows` and `mem_edgeRows_of_bound`.
-/

set_option autoImplicit false

namespace BuildingRules

/-! ## Rows -/

namespace Row

/-- Every value of the earlier row is a value of the later one. -/
def Extends (later earlier : Row) : Prop :=
  ∀ (name : String) (value : Term), earlier[name]? = some value → later[name]? = some value

/-- The variable has this value, or none yet. -/
def Allows (row : Row) (name : String) (value : Term) : Prop :=
  ∀ other : Term, row[name]? = some other → other = value

@[simp]
theorem getElem?_insert (row : Row) (name other : String) (value : Term) :
    (row.insert name value)[other]? = if name = other then some value else row[other]? := by
  simp [Std.ExtTreeMap.getElem?_insert, Std.LawfulEqCmp.compare_eq_iff_eq]

@[simp]
theorem getElem?_restrict (row : Row) (names : List String) (name : String) :
    (row.restrict names)[name]? = if name ∈ names then row[name]? else none := by
  rw [restrict, Std.ExtTreeMap.getElem?_filter']
  cases row[name]? <;> simp [Option.filter]

theorem extends_refl (row : Row) : row.Extends row := fun _ _ has => has

theorem Extends.trans {last middle first : Row} (later : last.Extends middle)
    (earlier : middle.Extends first) : last.Extends first :=
  fun name value has => later name value (earlier name value has)

theorem extends_insert {row : Row} {name : String} {value : Term}
    (allowed : row.Allows name value) : Extends (row.insert name value) row := by
  intro other old has
  rw [getElem?_insert]
  split
  next same =>
    subst same
    rw [allowed old has]
  next => exact has

theorem insert_eq_self {row : Row} {name : String} {value : Term}
    (has : row[name]? = some value) : row.insert name value = row := by
  apply Std.ExtTreeMap.ext_getElem?
  intro other
  rw [getElem?_insert]
  split
  next same => rw [← same, has]
  next => rfl

theorem allows_of_eq_none {row : Row} {name : String} (value : Term) (free : row[name]? = none) :
    row.Allows name value := by
  intro other has
  rw [free] at has
  contradiction

theorem allows_iff_of_eq_some {row : Row} {name : String} {value other : Term}
    (has : row[name]? = some value) : row.Allows name other ↔ value = other := by
  constructor
  · intro allowed
    exact allowed value has
  · rintro rfl old hasOld
    exact Option.some.inj (hasOld.symm.trans has)

end Row

namespace Graph

/-! ## Groups -/

theorem groupRows_nil (graph : Graph) (rows : List Row) : graph.groupRows rows [] = rows := by
  rw [groupRows]

theorem groupRows_nil_rows (graph : Graph) (clauses : List Clause) :
    graph.groupRows [] clauses = [] := by
  induction clauses with
  | nil => rfl
  | cons clause rest inductionHypothesis => simpa [groupRows] using inductionHypothesis

theorem groupRows_append_rows (graph : Graph) (clauses : List Clause) (first second : List Row) :
    graph.groupRows (first ++ second) clauses =
      graph.groupRows first clauses ++ graph.groupRows second clauses := by
  induction clauses generalizing first second with
  | nil => rfl
  | cons clause rest inductionHypothesis =>
      simp only [groupRows, List.flatMap_append, inductionHypothesis]

/-- A group takes each row on by itself. -/
theorem groupRows_eq_flatMap (graph : Graph) (clauses : List Clause) (rows : List Row) :
    graph.groupRows rows clauses = rows.flatMap fun row => graph.groupRows [row] clauses := by
  induction rows with
  | nil => exact groupRows_nil_rows graph clauses
  | cons row rest inductionHypothesis =>
      rw [List.flatMap_cons, ← inductionHypothesis, ← groupRows_append_rows]
      rfl

theorem groupRows_cons (graph : Graph) (row : Row) (clause : Clause) (rest : List Clause) :
    graph.groupRows [row] (clause :: rest) =
      (graph.clauseRows row clause).flatMap fun next => graph.groupRows [next] rest := by
  rw [groupRows, List.flatMap_singleton, groupRows_eq_flatMap]

theorem groupRows_append (graph : Graph) (first second : List Clause) (row : Row) :
    graph.groupRows [row] (first ++ second) =
      (graph.groupRows [row] first).flatMap fun next => graph.groupRows [next] second := by
  induction first generalizing row with
  | nil => simp [groupRows]
  | cons clause rest inductionHypothesis =>
      simp only [List.cons_append, groupRows_cons, List.flatMap_assoc, inductionHypothesis]

theorem unionRows_eq_flatMap (graph : Graph) (row : Row) (groups : List (List Clause)) :
    graph.unionRows row groups = groups.flatMap fun group => graph.groupRows [row] group := by
  induction groups with
  | nil => rw [unionRows, List.flatMap_nil]
  | cons group rest inductionHypothesis =>
      rw [unionRows, List.flatMap_cons, inductionHypothesis]

theorem clauseRows_union_singleton (graph : Graph) (row : Row) (group : List Clause) :
    graph.clauseRows row (.union [group]) = graph.groupRows [row] group := by
  rw [clauseRows, unionRows_eq_flatMap, List.flatMap_singleton]

/-! ## What a row passes on -/

section Chains

variable {graph : Graph} (passes : Row → Row → Prop) (refl : ∀ row, passes row row)
  (trans : ∀ first middle last, passes first middle → passes middle last → passes first last)

include refl trans

theorem passes_of_mem_groupRows {group : List Clause}
    (each : ∀ clause ∈ group, ∀ row result : Row, result ∈ graph.clauseRows row clause →
      passes row result)
    {row result : Row} (member : result ∈ graph.groupRows [row] group) : passes row result := by
  induction group generalizing row with
  | nil =>
      rw [groupRows_nil, List.mem_singleton] at member
      rw [member]
      exact refl row
  | cons clause rest inductionHypothesis =>
      obtain ⟨first, others⟩ := List.forall_mem_cons.1 each
      rw [groupRows_cons] at member
      obtain ⟨middle, inClause, inRest⟩ := List.mem_flatMap.1 member
      exact trans row middle result (first row middle inClause) (inductionHypothesis others inRest)

/-- What types and edges pass on from a row to the next, every clause does. -/
theorem passes_of_mem_clauseRows
    (types : ∀ subject className (row result : Row),
      result ∈ graph.typeRows row subject className → passes row result)
    (edges : ∀ subject predicate quantifier object (row result : Row),
      result ∈ graph.edgeRows row subject predicate quantifier object → passes row result)
    (clause : Clause) : ∀ row result : Row, result ∈ graph.clauseRows row clause →
      passes row result := by
  induction clause using Clause.clauseInduction with
  | hasType subject className =>
      intro row result member
      rw [clauseRows] at member
      exact types subject className row result member
  | edge subject predicate quantifier object =>
      intro row result member
      rw [clauseRows] at member
      exact edges subject predicate quantifier object row result member
  | union groups inductionHypothesis =>
      intro row result member
      rw [clauseRows, unionRows_eq_flatMap] at member
      obtain ⟨group, inGroups, inGroup⟩ := List.mem_flatMap.1 member
      exact passes_of_mem_groupRows passes refl trans (inductionHypothesis group inGroups) inGroup

end Chains

/-! ## Clauses whose subject has a value -/

theorem mem_typeRows {graph : Graph} {row result : Row} {subject : String} {className : Iri} :
    result ∈ graph.typeRows row subject className ↔
      ∃ node, row.Allows subject node ∧ typing node className ∈ graph.triples ∧
        result = row.insert subject node := by
  unfold typeRows
  cases has : row[subject]? with
  | some node =>
      simp only [Row.allows_iff_of_eq_some has, exists_eq_left']
      rw [Row.insert_eq_self has]
      split
      next typed => simp [hasType_iff.1 typed]
      next untyped => simp [mt hasType_iff.2 untyped]
  | none =>
      simp only [List.mem_map, mem_instancesOf]
      constructor
      · intro found
        obtain ⟨node, typed, rfl⟩ := found
        exact ⟨node, Row.allows_of_eq_none node has, typed, rfl⟩
      · intro found
        obtain ⟨node, _, typed, rfl⟩ := found
        exact ⟨node, typed, rfl⟩

theorem mem_edgeRows_of_bound {graph : Graph} {row result : Row} {subject object : String}
    {predicate : Iri} {quantifier : Quantifier} {start : Term}
    (bound : row[subject]? = some start) :
    result ∈ graph.edgeRows row subject predicate quantifier object ↔
      ∃ finish, row.Allows object finish ∧
        quantifier.Follows (graph.Edge predicate) start finish ∧
        result = row.insert object finish := by
  unfold edgeRows
  rw [bound]
  cases has : row[object]? with
  | some finish =>
      simp only [Row.allows_iff_of_eq_some has, exists_eq_left']
      rw [Row.insert_eq_self has]
      split
      next reached =>
        simp [mem_reach_forward.1 (Std.ExtTreeSet.contains_iff_mem.1 reached)]
      next unreached =>
        have unled : ¬quantifier.Follows (graph.Edge predicate) start finish := fun leads =>
          unreached (Std.ExtTreeSet.contains_iff_mem.2 (mem_reach_forward.2 leads))
        simp [unled]
  | none =>
      simp only [List.mem_map, Std.ExtTreeSet.mem_toList, mem_reach_forward]
      constructor
      · intro found
        obtain ⟨finish, leads, rfl⟩ := found
        exact ⟨finish, Row.allows_of_eq_none finish has, leads, rfl⟩
      · intro found
        obtain ⟨finish, _, leads, rfl⟩ := found
        exact ⟨finish, leads, rfl⟩

end Graph

end BuildingRules
