import BuildingRules.Evaluation
import BuildingRules.Proofs.Rows
import Mathlib.Data.List.Perm.Subperm

/-!
# Bindings merged from rows

Of all rows merged into a binding, the last one that has a value for a variable gives it:
`get?_foldl_mergeRow`. Absorbing rows sorts them by equipment and merges those of each one:
`getElem?_foldl_absorb`. As long as a binding has values only for the equipment and a rule's
variables, it is complete by size exactly when it has them all: `size_eq_iff`.
-/

set_option autoImplicit false

namespace BuildingRules

namespace Binding

/-! ## Rows into a binding -/

theorem values_foldl_set (entries : List (String × Term)) (binding : Binding) :
    (entries.foldl (fun merged entry => merged.set entry.1 entry.2) binding).values =
      binding.values.insertMany entries := by
  rw [Std.ExtTreeMap.insertMany_list_eq_foldl]
  induction entries generalizing binding with
  | nil => rfl
  | cons entry rest inductionHypothesis => exact inductionHypothesis (binding.set entry.1 entry.2)

@[simp]
theorem get?_mergeRow (binding : Binding) (row : Row) (name : String) :
    (binding.mergeRow row).get? name = row[name]?.or (binding.get? name) := by
  simp only [get?, mergeRow, values_foldl_set]
  cases has : row[name]? with
  | some value =>
      rw [Std.ExtTreeMap.getElem?_insertMany_list_of_mem (Std.LawfulEqCmp.compare_eq_iff_eq.2 rfl)
        Std.ExtTreeMap.distinct_keys_toList
        (Std.ExtTreeMap.mem_toList_iff_getElem?_eq_some.2 has)]
      rfl
  | none =>
      rw [Std.ExtTreeMap.getElem?_insertMany_list_of_contains_eq_false, Option.none_or]
      rw [Std.ExtTreeMap.map_fst_toList_eq_keys, List.contains_eq_mem, decide_eq_false_iff_not,
        Std.ExtTreeMap.mem_keys, Std.ExtTreeMap.mem_iff_isSome_getElem?, has]
      simp

/-- The last row that has a value for the variable gives it. -/
theorem get?_foldl_mergeRow (rows : List Row) (binding : Binding) (name : String) :
    (rows.foldl mergeRow binding).get? name =
      (rows.reverse.findSome? fun row => row[name]?).or (binding.get? name) := by
  induction rows generalizing binding with
  | nil => rfl
  | cons row rest inductionHypothesis =>
      rw [List.foldl_cons, inductionHypothesis, get?_mergeRow, List.reverse_cons,
        List.findSome?_append, Option.or_assoc]
      simp [List.findSome?]
      cases row[name]? <;> rfl

theorem mem_values_iff {binding : Binding} {name : String} :
    name ∈ binding.values ↔ ∃ value, binding.get? name = some value := by
  rw [get?, Std.ExtTreeMap.mem_iff_isSome_getElem?, Option.isSome_iff_exists]

theorem exists_row_of_get?_merged {rows : List Row} {name : String} {value : Term}
    (found : (rows.foldl mergeRow .empty).get? name = some value) :
    ∃ row ∈ rows, row[name]? = some value := by
  rw [get?_foldl_mergeRow, show empty.get? name = none from rfl, Option.or_none] at found
  obtain ⟨row, member, has⟩ := List.exists_of_findSome?_eq_some found
  exact ⟨row, List.mem_reverse.1 member, has⟩

theorem mem_values_merged {rows : List Row} {row : Row} (member : row ∈ rows) {name : String}
    {value : Term} (has : row[name]? = some value) :
    name ∈ (rows.foldl mergeRow .empty).values := by
  rw [mem_values_iff, get?_foldl_mergeRow, ← Option.isSome_iff_exists, Option.isSome_or,
    List.findSome?_isSome_iff.2 ⟨row, List.mem_reverse.2 member, by simp [has]⟩, Bool.true_or]

/-! ## Complete bindings -/

/-- A binding of the equipment and some of the variables has one value more than there are
variables exactly when it has a value for each of them, and none is named like the equipment. -/
theorem size_eq_iff {binding : Binding} {names : List String} (distinct : names.Nodup)
    (hasRoot : Query.root ∈ binding.values)
    (only : ∀ name ∈ binding.values, name = Query.root ∨ name ∈ names) :
    binding.size = names.length + 1 ↔
      Query.root ∉ names ∧ ∀ name ∈ names, name ∈ binding.values := by
  have keysDistinct : binding.values.keys.Nodup := Std.ExtTreeMap.nodup_keys
  have sizeIs : binding.size = binding.values.keys.length := Std.ExtTreeMap.length_keys.symm
  have keysOnly : binding.values.keys ⊆ Query.root :: names := by
    intro name member
    exact List.mem_cons.2 (only name (Std.ExtTreeMap.mem_keys.1 member))
  rw [sizeIs]
  constructor
  · intro complete
    have rootFree : Query.root ∉ names := by
      intro rootListed
      have withinNames : binding.values.keys ⊆ names :=
        fun name member => (List.mem_cons.1 (keysOnly member)).elim (· ▸ rootListed) id
      have bound := keysDistinct.length_le_of_subset withinNames
      omega
    -- as many distinct keys as there are names to choose from are all of them
    have allKeys := (keysDistinct.subperm keysOnly).perm_of_length_le (by simp [complete])
    refine ⟨rootFree, fun name listed => ?_⟩
    exact Std.ExtTreeMap.mem_keys.1 (allKeys.mem_iff.2 (List.mem_cons_of_mem _ listed))
  · intro found
    obtain ⟨rootFree, allBound⟩ := found
    have listedBound : Query.root :: names ⊆ binding.values.keys := by
      intro name listed
      rcases List.mem_cons.1 listed with rfl | listed
      · exact Std.ExtTreeMap.mem_keys.2 hasRoot
      · exact Std.ExtTreeMap.mem_keys.2 (allBound name listed)
    have atMost := keysDistinct.length_le_of_subset keysOnly
    have atLeast := (List.nodup_cons.2 ⟨rootFree, distinct⟩).length_le_of_subset listedBound
    simp only [List.length_cons] at atMost atLeast
    omega

end Binding

/-! ## Rows by equipment -/

def rowsAbout (equipment : Term) (rows : List Row) : List Row :=
  rows.filter fun row => row[Query.root]? == some equipment

theorem mem_rowsAbout {equipment : Term} {rows : List Row} {row : Row} :
    row ∈ rowsAbout equipment rows ↔ row ∈ rows ∧ row[Query.root]? = some equipment := by
  simp [rowsAbout]

theorem getElem?_absorb (found : Found) (row : Row) (equipment : Term) :
    (absorb found row)[equipment]? =
      if row[Query.root]? = some equipment then
        some ((found[equipment]?.getD .empty).mergeRow row)
      else found[equipment]? := by
  unfold absorb
  cases row[Query.root]? with
  | none => simp
  | some other =>
      simp only [Std.ExtTreeMap.getElem?_insert, Std.LawfulEqCmp.compare_eq_iff_eq,
        Option.some.injEq]
      split
      next same => rw [same]
      next => rfl

theorem getElem?_foldl_absorb_from (rows : List Row) (found : Found) (equipment : Term) :
    (rows.foldl absorb found)[equipment]? =
      if rowsAbout equipment rows = [] then found[equipment]?
      else some ((rowsAbout equipment rows).foldl Binding.mergeRow
        (found[equipment]?.getD .empty)) := by
  induction rows generalizing found with
  | nil => rfl
  | cons row rest inductionHypothesis =>
      rw [List.foldl_cons, inductionHypothesis, getElem?_absorb]
      by_cases about : row[Query.root]? = some equipment
      · have isFirst : rowsAbout equipment (row :: rest) = row :: rowsAbout equipment rest := by
          simp [rowsAbout, about]
        rw [isFirst, if_pos about]
        by_cases isLast : rowsAbout equipment rest = []
        · simp [isLast]
        · simp [isLast]
      · have isNone : rowsAbout equipment (row :: rest) = rowsAbout equipment rest := by
          simp [rowsAbout, about]
        rw [isNone, if_neg about]

/-- What is found for an equipment is merged from the rows about it. -/
theorem getElem?_foldl_absorb (rows : List Row) (equipment : Term) :
    (rows.foldl absorb ∅)[equipment]? =
      if rowsAbout equipment rows = [] then none
      else some ((rowsAbout equipment rows).foldl Binding.mergeRow .empty) := by
  simpa using getElem?_foldl_absorb_from rows ∅ equipment

namespace Rule

def rows (settings : Settings) (store : Store) (rule : Rule) : List Row :=
  (rule.steps settings.space).flatMap (Step.rows store settings.limit)

def merged (settings : Settings) (store : Store) (rule : Rule) (equipment : Term) : Binding :=
  (rowsAbout equipment (rule.rows settings store)).foldl Binding.mergeRow .empty

theorem getElem?_found {settings : Settings} {store : Store} {rule : Rule} {equipment : Term} :
    (rule.found settings store)[equipment]? =
      if rowsAbout equipment (rule.rows settings store) = [] then none
      else some (rule.merged settings store equipment) :=
  getElem?_foldl_absorb (rule.rows settings store) equipment

/-- An equipment satisfies a rule when some row is about it, and the rows about it merge into a
binding of the expected size. -/
theorem getElem?_instances_eq_some {settings : Settings} {store : Store} {rule : Rule}
    {equipment : Term} {binding : Binding} :
    (rule.outcome settings store).instances[equipment]? = some binding ↔
      rowsAbout equipment (rule.rows settings store) ≠ [] ∧
      binding = rule.merged settings store equipment ∧
      binding.size = rule.expectedSize := by
  simp only [outcome, Std.ExtTreeMap.getElem?_filter', getElem?_found, Option.filter_eq_some_iff,
    beq_iff_eq]
  grind

end Rule

end BuildingRules
