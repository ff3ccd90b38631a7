import BuildingRules.Json.Reader
import Mathlib.Data.List.Nodup

/-!
# Settled values

A value is settled if no object in it repeats a key, as in every value that is read from a text
(`Json.settled_of_read?`). What an entry of such an object holds is then what is found under its
key.
-/

set_option autoImplicit false

namespace BuildingRules.Json

/-- No object of the value repeats a key. -/
inductive Settled : Json → Prop
  | null : Settled .null
  | bool (value : Bool) : Settled (.bool value)
  | number (value : JsonNumber) : Settled (.number value)
  | string (text : String) : Settled (.string text)
  | array {items : List Json} : (∀ item ∈ items, Settled item) → Settled (.array items)
  | object {entries : List (String × Json)} : (entries.map Prod.fst).Nodup →
      (∀ entry ∈ entries, Settled entry.2) → Settled (.object entries)

theorem Settled.entries {entries : List (String × Json)} (settled : Settled (.object entries)) :
    (entries.map Prod.fst).Nodup ∧ ∀ entry ∈ entries, Settled entry.2 := by
  cases settled with
  | object distinct settled => exact ⟨distinct, settled⟩

/-! ## Keys -/

variable {Value : Type}

theorem find?_eq_some_iff {entries : List (String × Value)}
    (distinct : (entries.map Prod.fst).Nodup) {key : String} {value : Value} :
    find? key entries = some value ↔ (key, value) ∈ entries := by
  induction entries with
  | nil => simp [find?]
  | cons entry rest inductionHypothesis =>
    obtain ⟨other, held⟩ := entry
    obtain ⟨isNew, restDistinct⟩ := List.nodup_cons.1 distinct
    rw [find?, List.mem_cons, Prod.mk.injEq]
    by_cases same : other = key
    · subst same
      have notLater : (other, value) ∉ rest := fun later =>
        isNew (List.mem_map.2 ⟨_, later, rfl⟩)
      rw [if_pos (beq_self_eq_true other), Option.some.injEq]
      simp only [notLater, or_false, true_and]
      exact eq_comm
    · rw [if_neg (by simpa using same), inductionHypothesis restDistinct]
      simp only [Ne.symm same, false_and, false_or]

theorem find?_eq_none_iff {entries : List (String × Value)} {key : String} :
    find? key entries = none ↔ ∀ value, (key, value) ∉ entries := by
  induction entries with
  | nil => simp [find?]
  | cons entry rest inductionHypothesis =>
    obtain ⟨other, held⟩ := entry
    rw [find?]
    by_cases same : other = key
    · subst same
      rw [if_pos (beq_self_eq_true other)]
      exact ⟨nofun, fun absent => absurd (List.mem_cons_self ..) (absent held)⟩
    · rw [if_neg (by simpa using same), inductionHypothesis]
      simp [Ne.symm same]

theorem mem_setEntry {key : String} {value : Value} {entries : List (String × Value)}
    {entry : String × Value} (listed : entry ∈ setEntry key value entries) :
    entry = (key, value) ∨ entry ∈ entries := by
  induction entries with
  | nil => exact .inl (List.mem_singleton.1 listed)
  | cons first rest inductionHypothesis =>
    rw [setEntry] at listed
    split at listed
    next same =>
      rw [beq_iff_eq.1 same] at listed
      rcases List.mem_cons.1 listed with rfl | later
      · exact .inl rfl
      · exact .inr (List.mem_cons_of_mem first later)
    next =>
      rcases List.mem_cons.1 listed with rfl | later
      · exact .inr (List.mem_cons_self ..)
      · exact (inductionHypothesis later).imp_right (List.mem_cons_of_mem first)

/-- A key that is set keeps its place, and comes last when it is new. -/
theorem keys_setEntry (key : String) (value : Value) (entries : List (String × Value)) :
    (setEntry key value entries).map Prod.fst =
      if key ∈ entries.map Prod.fst then entries.map Prod.fst
      else entries.map Prod.fst ++ [key] := by
  induction entries with
  | nil => rfl
  | cons first rest inductionHypothesis =>
    obtain ⟨other, held⟩ := first
    rw [setEntry]
    by_cases same : other = key
    · simp [same]
    · rw [if_neg (by simpa using same), List.map_cons, inductionHypothesis]
      simp only [List.map_cons, List.mem_cons, Ne.symm same, false_or]
      split <;> rfl

theorem nodup_keys_setEntry (key : String) (value : Value) {entries : List (String × Value)}
    (distinct : (entries.map Prod.fst).Nodup) :
    ((setEntry key value entries).map Prod.fst).Nodup := by
  rw [keys_setEntry]
  split
  next => exact distinct
  next isNew =>
    rw [← List.concat_eq_append]
    exact List.Nodup.concat isNew distinct

theorem distinctEntries_spec (entries : List (String × Value)) :
    ((distinctEntries entries).map Prod.fst).Nodup ∧
      ∀ entry ∈ distinctEntries entries, entry ∈ entries := by
  suffices fromAny : ∀ settled : List (String × Value), (settled.map Prod.fst).Nodup →
      let result := entries.foldl (fun settled entry => setEntry entry.1 entry.2 settled) settled
      (result.map Prod.fst).Nodup ∧ ∀ entry ∈ result, entry ∈ settled ∨ entry ∈ entries by
    obtain ⟨distinct, listed⟩ := fromAny [] List.nodup_nil
    exact ⟨distinct, fun entry member => (listed entry member).resolve_left List.not_mem_nil⟩
  induction entries with
  | nil => exact fun settled distinct => ⟨distinct, fun entry member => .inl member⟩
  | cons first rest inductionHypothesis =>
    intro settled distinct
    obtain ⟨stillDistinct, listed⟩ := inductionHypothesis (setEntry first.1 first.2 settled)
      (nodup_keys_setEntry first.1 first.2 distinct)
    refine ⟨stillDistinct, fun entry member => ?_⟩
    rcases listed entry member with early | later
    · rcases mem_setEntry early with rfl | kept
      · exact .inr (List.mem_cons_self ..)
      · exact .inl kept
    · exact .inr (List.mem_cons_of_mem first later)

theorem setEntry_of_new {key : String} {value : Value} {entries : List (String × Value)}
    (isNew : key ∉ entries.map Prod.fst) :
    setEntry key value entries = entries ++ [(key, value)] := by
  induction entries with
  | nil => rfl
  | cons first rest inductionHypothesis =>
    obtain ⟨other, held⟩ := first
    obtain ⟨notSame, notLater⟩ := not_or.1 (mt List.mem_cons.2 isNew)
    rw [setEntry, if_neg (by simpa using Ne.symm notSame), inductionHypothesis notLater]
    rfl

/-- Settling leaves entries as they are exactly when no key is repeated. -/
theorem distinctEntries_eq_self_iff {entries : List (String × Value)} :
    distinctEntries entries = entries ↔ (entries.map Prod.fst).Nodup := by
  constructor
  · intro same
    rw [← same]
    exact (distinctEntries_spec entries).1
  · intro distinct
    -- what is settled already and what is still to come have different keys
    suffices fromAny : ∀ settled : List (String × Value),
        ((settled ++ entries).map Prod.fst).Nodup →
        entries.foldl (fun settled entry => setEntry entry.1 entry.2 settled) settled =
          settled ++ entries from fromAny [] distinct
    clear distinct
    induction entries with
    | nil => exact fun settled _ => (List.append_nil settled).symm
    | cons first rest inductionHypothesis =>
      intro settled distinct
      rw [List.append_cons] at distinct ⊢
      have isNew : first.1 ∉ settled.map Prod.fst := by
        rw [List.map_append, List.map_append] at distinct
        intro listed
        exact List.disjoint_of_nodup_append distinct.of_append_left listed
          (List.mem_singleton_self first.1)
      rw [List.foldl_cons, setEntry_of_new isNew, inductionHypothesis _ distinct]

/-! ## Settling -/

mutual

theorem settled_settle : ∀ value : Json, value.settle.Settled
  | .null => .null
  | .bool value => .bool value
  | .number value => .number value
  | .string text => .string text
  | .array items => .array (settled_settleItems items)
  | .object entries =>
    .object (distinctEntries_spec _).1 fun entry listed =>
      settled_settleEntries entries entry ((distinctEntries_spec _).2 entry listed)

theorem settled_settleItems : ∀ items : List Json, ∀ item ∈ settleItems items, item.Settled
  | [] => nofun
  | first :: rest =>
    List.forall_mem_cons.2 ⟨settled_settle first, settled_settleItems rest⟩

theorem settled_settleEntries : ∀ entries : List (String × Json),
    ∀ entry ∈ settleEntries entries, entry.2.Settled
  | [] => nofun
  | (_, value) :: rest =>
    List.forall_mem_cons.2 ⟨settled_settle value, settled_settleEntries rest⟩

end

theorem settled_of_read? {text : String} {value : Json} (read : read? text = some value) :
    value.Settled := by
  obtain ⟨written, -, rfl⟩ := Option.map_eq_some_iff.1 read
  exact settled_settle written

end BuildingRules.Json
