import BuildingRules.Proofs.GraphListings
import BuildingRules.Proofs.Rows
import Mathlib.Data.List.Nodup

/-!
# Values added to a row

A type or an edge adds values for its variables to a row, as far as they have none yet. Whichever of
its ends have values, an edge finds the paths of the graph whose ends the row allows, each once:
`mem_edgeRows` and `nodup_edgeRows`. What is added to a row can be added in steps, and each step is
determined by the names that it is for: `Row.Adds.split` and `Row.Adds.unique`.
-/

set_option autoImplicit false

namespace BuildingRules

/-! ## Rows that add values -/

namespace Row

/-- The later row has values for the names besides those of the earlier row, which it keeps. -/
structure Adds (later earlier : Row) (names : List String) : Prop where
  keeps : later.Extends earlier
  names_iff : ∀ name, name ∈ later ↔ name ∈ earlier ∨ name ∈ names

theorem mem_iff_exists {row : Row} {name : String} :
    name ∈ row ↔ ∃ value, row[name]? = some value := by
  rw [Std.ExtTreeMap.mem_iff_isSome_getElem?, Option.isSome_iff_exists]

theorem Extends.mem {later earlier : Row} (keeps : later.Extends earlier) {name : String}
    (bound : name ∈ earlier) : name ∈ later := by
  obtain ⟨value, has⟩ := mem_iff_exists.1 bound
  exact mem_iff_exists.2 ⟨value, keeps name value has⟩

/-- What a row keeps is determined by the names that it is about. -/
theorem eq_of_extends {later left right : Row} (keepsLeft : later.Extends left)
    (keepsRight : later.Extends right) (same : ∀ name, name ∈ left ↔ name ∈ right) :
    left = right := by
  apply Std.ExtTreeMap.ext_getElem?
  intro name
  cases has : left[name]? with
  | some value =>
      obtain ⟨other, hasOther⟩ := mem_iff_exists.1 ((same name).1 (mem_iff_exists.2 ⟨value, has⟩))
      have sameValue : other = value := by
        have kept := keepsRight name other hasOther
        rw [keepsLeft name value has] at kept
        exact (Option.some.inj kept).symm
      rw [hasOther, sameValue]
  | none =>
      have notRight : name ∉ right := by
        intro member
        obtain ⟨value, hasValue⟩ := mem_iff_exists.1 ((same name).2 member)
        rw [has] at hasValue
        contradiction
      rw [Std.ExtTreeMap.getElem?_eq_none notRight]

namespace Adds

variable {later middle earlier : Row} {name : String} {first second : List String}

theorem trans (addsSecond : later.Adds middle second) (addsFirst : middle.Adds earlier first) :
    later.Adds earlier (first ++ second) where
  keeps := addsSecond.keeps.trans addsFirst.keeps
  names_iff name := by
    rw [addsSecond.names_iff, addsFirst.names_iff, List.mem_append, or_assoc]

/-- Values that are added can be added in two steps. -/
theorem split (adds : later.Adds earlier (first ++ second)) :
    ∃ middle : Row, middle.Adds earlier first ∧ later.Adds middle second := by
  have mem_part : ∀ name, name ∈ later.restrict (earlier.keys ++ first) ↔
      name ∈ earlier ∨ name ∈ first := by
    intro name
    rw [mem_iff_exists, getElem?_restrict]
    simp only [List.mem_append, Std.ExtTreeMap.mem_keys]
    split
    next listed =>
      have isBound : name ∈ later :=
        (adds.names_iff name).2 (listed.imp_right fun isFirst => List.mem_append_left _ isFirst)
      exact iff_of_true (mem_iff_exists.1 isBound) listed
    next unlisted => simp [unlisted]
  refine ⟨later.restrict (earlier.keys ++ first), ⟨?_, mem_part⟩, ?_, ?_⟩
  · intro name value has
    have listed : name ∈ earlier.keys ++ first :=
      List.mem_append_left _ (Std.ExtTreeMap.mem_keys.2 (mem_iff_exists.2 ⟨value, has⟩))
    rw [getElem?_restrict, if_pos listed]
    exact adds.keeps name value has
  · intro name value has
    rw [getElem?_restrict] at has
    split at has
    next => exact has
    next => contradiction
  · intro name
    rw [adds.names_iff, mem_part, List.mem_append, or_assoc]

theorem swap (adds : later.Adds earlier (first ++ second)) :
    later.Adds earlier (second ++ first) where
  keeps := adds.keeps
  names_iff name := by
    rw [adds.names_iff, List.mem_append, List.mem_append, or_comm (a := name ∈ first)]

/-- The step between two rows is determined by what it adds. -/
theorem unique {other : Row} (adds : middle.Adds earlier first) (kept : later.Extends middle)
    (addsOther : other.Adds earlier first) (keptOther : later.Extends other) : middle = other :=
  eq_of_extends kept keptOther fun name => by rw [adds.names_iff, addsOther.names_iff]

end Adds

theorem mem_insert_iff {row : Row} {name other : String} {value : Term} :
    other ∈ Std.ExtTreeMap.insert row name value ↔ other ∈ row ∨ other = name := by
  rw [Std.ExtTreeMap.mem_insert, Std.LawfulEqCmp.compare_eq_iff_eq, or_comm, eq_comm (a := name)]

theorem adds_singleton_iff {later earlier : Row} {name : String} :
    later.Adds earlier [name] ↔
      ∃ value, earlier.Allows name value ∧ later = earlier.insert name value := by
  constructor
  · intro adds
    obtain ⟨value, has⟩ := mem_iff_exists.1 ((adds.names_iff name).2 (.inr (by simp)))
    have allowed : earlier.Allows name value := by
      intro other hasOther
      have kept := adds.keeps name other hasOther
      rw [has] at kept
      exact (Option.some.inj kept).symm
    refine ⟨value, allowed, eq_of_extends (extends_refl later) ?_ ?_⟩
    · intro other old hasOther
      rw [getElem?_insert] at hasOther
      split at hasOther
      next same =>
        rw [← same, has]
        exact hasOther
      next => exact adds.keeps other old hasOther
    · intro other
      rw [adds.names_iff, mem_insert_iff, List.mem_singleton]
  · intro found
    obtain ⟨value, allowed, rfl⟩ := found
    exact ⟨extends_insert allowed, fun other => by rw [mem_insert_iff, List.mem_singleton]⟩

theorem adds_pair_iff {later earlier : Row} {first second : String} :
    later.Adds earlier [first, second] ↔
      ∃ value other, earlier.Allows first value ∧
        Allows (earlier.insert first value) second other ∧
        later = (earlier.insert first value).insert second other := by
  constructor
  · intro adds
    have inTwo : later.Adds earlier ([first] ++ [second]) := adds
    obtain ⟨middle, addsFirst, addsSecond⟩ := inTwo.split
    obtain ⟨value, allowed, rfl⟩ := adds_singleton_iff.1 addsFirst
    obtain ⟨other, allowedOther, rfl⟩ := adds_singleton_iff.1 addsSecond
    exact ⟨value, other, allowed, allowedOther, rfl⟩
  · intro found
    obtain ⟨value, other, allowed, allowedOther, rfl⟩ := found
    exact (adds_singleton_iff.2 ⟨other, allowedOther, rfl⟩).trans
      (adds_singleton_iff.2 ⟨value, allowed, rfl⟩)

end Row

/-! ## Nodes -/

section Nodes

variable {graph : Graph} {predicate : Iri} {quantifier : Quantifier} {start finish : Term}

/-- Where a path is not empty, it leaves its start by an edge and comes to its end by one. -/
theorem Quantifier.Follows.eq_or_edges {Node : Type} {quantifier : Quantifier}
    {edge : Node → Node → Prop} {start finish : Node}
    (leads : quantifier.Follows edge start finish) :
    (quantifier.allowsZero = true ∧ start = finish) ∨
      (∃ next, edge start next) ∧ ∃ last, edge last finish := by
  have ofPath : ∀ {start finish : Node}, Relation.TransGen edge start finish →
      (∃ next, edge start next) ∧ ∃ last, edge last finish := by
    intro start finish path
    obtain ⟨next, first, _⟩ := Relation.TransGen.head'_iff.1 path
    obtain ⟨last, _, lastEdge⟩ := Relation.TransGen.tail'_iff.1 path
    exact ⟨⟨next, first⟩, last, lastEdge⟩
  cases quantifier with
  | one => exact .inr ⟨⟨finish, leads⟩, start, leads⟩
  | zeroOrOne =>
      rcases (Relation.reflGen_iff _ _ _).1 leads with same | single
      · exact .inl ⟨rfl, same.symm⟩
      · exact .inr ⟨⟨finish, single⟩, start, single⟩
  | zeroOrMore =>
      rcases Relation.reflTransGen_iff_eq_or_transGen.1 leads with same | path
      · exact .inl ⟨rfl, same.symm⟩
      · exact .inr (ofPath path)
  | oneOrMore => exact .inr (ofPath leads)

theorem mem_nodes_of_follows (leads : quantifier.Follows (graph.Edge predicate) start finish) :
    start ∈ graph.nodes ↔ finish ∈ graph.nodes := by
  rcases leads.eq_or_edges with ⟨_, same⟩ | ⟨⟨next, first⟩, last, lastEdge⟩
  · rw [same]
  · exact iff_of_true (Graph.mem_nodes.2 ⟨_, first, .inl rfl⟩)
      (Graph.mem_nodes.2 ⟨_, lastEdge, .inr rfl⟩)

theorem mem_starts_of_follows (leads : quantifier.Follows (graph.Edge predicate) start finish) :
    start ∈ graph.starts predicate quantifier ↔ start ∈ graph.nodes := by
  rw [Graph.starts]
  split
  next => rfl
  next noZero =>
    obtain ⟨⟨next, first⟩, _⟩ := leads.eq_or_edges.resolve_left fun both => noZero both.1
    apply iff_of_true _ (Graph.mem_nodes.2 ⟨_, first, .inl rfl⟩)
    rw [Std.ExtTreeSet.mem_toList, Std.ExtTreeSet.mem_ofList, List.contains_iff_mem]
    exact List.mem_map.2 ⟨(start, next), Graph.mem_pairs.2 first, rfl⟩

end Nodes

/-- All values of the row are nodes of the graph. -/
def Row.OfNodes (row : Row) (graph : Graph) : Prop :=
  ∀ (name : String) (value : Term), row[name]? = some value → value ∈ graph.nodes

theorem Row.ofNodes_empty (graph : Graph) : Row.OfNodes ∅ graph := by
  intro name value has
  rw [Std.ExtTreeMap.getElem?_empty] at has
  contradiction

/-- A value stays when another variable is given its first one. -/
theorem Row.getElem?_insert_of_eq_none {row : Row} {name other : String} {value : Term}
    (free : row[name]? = none) (has : row[other]? = some value) (first : Term) :
    (row.insert name first)[other]? = some value := by
  have different : name ≠ other := by
    rintro rfl
    rw [free] at has
    contradiction
  rw [Row.getElem?_insert, if_neg different, has]

/-- After one variable is given a value, a free variable may have any, or the same if it is that
variable. -/
theorem Row.allows_insert_iff {row : Row} {name other : String} (free : row[other]? = none)
    {first second : Term} :
    Row.Allows (row.insert name first) other second ↔ name ≠ other ∨ second = first := by
  by_cases same : name = other
  · subst same
    have has : (row.insert name first)[name]? = some first := by simp
    rw [Row.allows_iff_of_eq_some has]
    simp [eq_comm]
  · have stillFree : (row.insert name first)[other]? = none := by
      rw [Row.getElem?_insert, if_neg same, free]
    exact iff_of_true (Row.allows_of_eq_none second stillFree) (.inl same)

/-! ## What types and edges add to a row -/

namespace Graph

variable {graph : Graph}

theorem nodup_subjects (graph : Graph) (predicate : Iri) (object : Term) :
    (graph.subjects predicate object).Nodup := by
  rw [subjects]
  apply List.Nodup.map_on _ ((nodup_toList_set graph.triples).filter _)
  intro left inLeft right inRight same
  simp only [List.mem_filter, Bool.and_eq_true, beq_iff_eq] at inLeft inRight
  obtain ⟨_, leftPredicate, leftObject⟩ := inLeft
  obtain ⟨_, rightPredicate, rightObject⟩ := inRight
  exact Triple.ext same (leftPredicate.trans rightPredicate.symm)
    (leftObject.trans rightObject.symm)

theorem nodup_starts (graph : Graph) (predicate : Iri) (quantifier : Quantifier) :
    (graph.starts predicate quantifier).Nodup := by
  rw [starts]
  split
  · exact nodup_toList_set _
  · exact nodup_toList_set _

theorem nodup_map_insert {values : List Term} (distinct : values.Nodup) (row : Row)
    (name : String) : (values.map fun value => row.insert name value).Nodup := by
  apply distinct.map
  intro left right same
  have sameValue := congrArg (fun result : Row => result[name]?) same
  simpa using sameValue

theorem nodup_typeRows (graph : Graph) (row : Row) (subject : String) (className : Iri) :
    (graph.typeRows row subject className).Nodup := by
  unfold typeRows
  split
  next =>
    split
    · exact List.nodup_singleton row
    · exact List.nodup_nil
  next => exact nodup_map_insert (graph.nodup_subjects _ _) row subject

section Edges

variable {row result : Row} {subject object : String} {predicate : Iri} {quantifier : Quantifier}

theorem mem_edgeRows_of_object {finish : Term} (free : row[subject]? = none)
    (bound : row[object]? = some finish) :
    result ∈ graph.edgeRows row subject predicate quantifier object ↔
      ∃ start, quantifier.Follows (graph.Edge predicate) start finish ∧
        result = row.insert subject start := by
  simp only [edgeRows, free, bound, List.mem_map, Std.ExtTreeSet.mem_toList, mem_reach_backward,
    eq_comm]

theorem mem_edgeRows_of_free (freeSubject : row[subject]? = none)
    (freeObject : row[object]? = none) :
    result ∈ graph.edgeRows row subject predicate quantifier object ↔
      ∃ start finish, (subject ≠ object ∨ finish = start) ∧ start ∈ graph.nodes ∧
        quantifier.Follows (graph.Edge predicate) start finish ∧
        result = (row.insert subject start).insert object finish := by
  simp only [edgeRows, freeSubject, freeObject, List.mem_flatMap, List.mem_map, List.mem_filter,
    Std.ExtTreeSet.mem_toList, mem_reach_forward, Bool.or_eq_true, bne_iff_ne, beq_iff_eq]
  constructor
  · intro found
    obtain ⟨start, isStart, finish, ⟨leads, agree⟩, rfl⟩ := found
    exact ⟨start, finish, agree, (mem_starts_of_follows leads).1 isStart, leads, rfl⟩
  · intro found
    obtain ⟨start, finish, agree, isNode, leads, rfl⟩ := found
    exact ⟨start, (mem_starts_of_follows leads).2 isNode, finish, ⟨leads, agree⟩, rfl⟩

/-- However many of its ends have values, an edge finds the same: a path of the graph whose ends
the row allows. -/
theorem mem_edgeRows (ofNodes : row.OfNodes graph) :
    result ∈ graph.edgeRows row subject predicate quantifier object ↔
      ∃ start finish, row.Allows subject start ∧
        Row.Allows (row.insert subject start) object finish ∧ start ∈ graph.nodes ∧
        quantifier.Follows (graph.Edge predicate) start finish ∧
        result = (row.insert subject start).insert object finish := by
  cases hasSubject : row[subject]? with
  | some start =>
      rw [mem_edgeRows_of_bound hasSubject]
      simp only [Row.allows_iff_of_eq_some hasSubject]
      constructor
      · intro found
        obtain ⟨finish, allowed, leads, rfl⟩ := found
        rw [← Row.insert_eq_self hasSubject] at allowed
        exact ⟨start, finish, rfl, allowed, ofNodes subject start hasSubject, leads,
          by rw [Row.insert_eq_self hasSubject]⟩
      · intro found
        obtain ⟨_, finish, rfl, allowed, _, leads, rfl⟩ := found
        rw [Row.insert_eq_self hasSubject] at allowed ⊢
        exact ⟨finish, allowed, leads, rfl⟩
  | none =>
      cases hasObject : row[object]? with
      | some finish =>
          have stillHas : ∀ start : Term, (row.insert subject start)[object]? = some finish :=
            Row.getElem?_insert_of_eq_none hasSubject hasObject
          rw [mem_edgeRows_of_object hasSubject hasObject]
          simp only [Row.allows_iff_of_eq_some (stillHas _)]
          constructor
          · intro found
            obtain ⟨start, leads, rfl⟩ := found
            exact ⟨start, finish, Row.allows_of_eq_none start hasSubject, rfl,
              (mem_nodes_of_follows leads).2 (ofNodes object finish hasObject), leads,
              (Row.insert_eq_self (stillHas start)).symm⟩
          · intro found
            obtain ⟨start, _, _, rfl, _, leads, rfl⟩ := found
            exact ⟨start, leads, Row.insert_eq_self (stillHas start)⟩
      | none =>
          rw [mem_edgeRows_of_free hasSubject hasObject]
          simp only [Row.allows_insert_iff hasObject]
          constructor
          · intro found
            obtain ⟨start, finish, agree, isNode, leads, rfl⟩ := found
            exact ⟨start, finish, Row.allows_of_eq_none start hasSubject, agree, isNode, leads, rfl⟩
          · intro found
            obtain ⟨start, finish, _, agree, isNode, leads, rfl⟩ := found
            exact ⟨start, finish, agree, isNode, leads, rfl⟩

theorem nodup_edgeRows (graph : Graph) (row : Row) (subject : String) (predicate : Iri)
    (quantifier : Quantifier) (object : String) :
    (graph.edgeRows row subject predicate quantifier object).Nodup := by
  unfold edgeRows
  split
  next =>
    split
    · exact List.nodup_singleton row
    · exact List.nodup_nil
  next => exact nodup_map_insert (nodup_toList_set _) row object
  next => exact nodup_map_insert (nodup_toList_set _) row subject
  next =>
    refine List.nodup_flatMap.2 ⟨?_, ?_⟩
    · intro start _
      exact nodup_map_insert ((nodup_toList_set _).filter _) _ object
    · -- a row found from some start has it for a value, so no other start leads to it
      have hasStart : ∀ start result, result ∈ ((graph.reach predicate quantifier .forward
          start).toList.filter fun finish => subject != object || finish == start).map
            (fun finish => (row.insert subject start).insert object finish) →
          result[subject]? = some start := by
        intro start result member
        obtain ⟨finish, found, rfl⟩ := List.mem_map.1 member
        have allowed := (List.mem_filter.1 found).2
        rw [Row.getElem?_insert]
        split
        next same =>
          simp only [same, bne_self_eq_false, Bool.false_or, beq_iff_eq] at allowed
          rw [allowed]
        next => simp
      apply (graph.nodup_starts predicate quantifier).imp
      intro left right different result inLeft inRight
      have sameStart := (hasStart left result inLeft).symm.trans (hasStart right result inRight)
      exact different (Option.some.inj sameStart)

end Edges

end Graph

end BuildingRules
