import BuildingRules.Proofs.RowMerging
import Mathlib.Data.Finset.Card

/-!
# Merging bindings

If a union keeps the values of its first map, merging by it is an algebra of bindings in which the
later one wins: associative and idempotent, with the empty binding on either side for nothing, and
commutative only between bindings that agree. Merging a row is the same as merging the binding of
the row. `Row.unite` keeps the values of the larger map instead, so the merge that is used is this
one if and only if the later binding is no smaller or both agree. All of this is told by
`mergesByLater`.
-/

set_option autoImplicit false

namespace BuildingRules

/-- A union of maps that keeps the values of the first one, and takes from the second one what the
first has no value for. -/
structure KeepsFirst (unite : Row → Row → Row) : Prop where
  kept : ∀ (first second : Row) (name : String),
    name ∈ first → (unite first second)[name]? = first[name]?
  added : ∀ (first second : Row) (name : String),
    name ∉ first → (unite first second)[name]? = second[name]?

theorem KeepsFirst.getElem? {unite : Row → Row → Row} (keeps : KeepsFirst unite)
    (first second : Row) (name : String) :
    (unite first second)[name]? = first[name]?.or second[name]? := by
  by_cases bound : name ∈ first
  · rw [keeps.kept first second name bound]
    rw [Std.ExtTreeMap.mem_iff_isSome_getElem?] at bound
    exact (Option.or_of_isSome bound).symm
  · rw [keeps.added first second name bound, Std.ExtTreeMap.getElem?_eq_none bound, Option.none_or]

theorem keepsFirst_over : KeepsFirst Row.over where
  kept first second name bound := by
    rw [Std.ExtTreeMap.mem_iff_isSome_getElem?] at bound
    rw [Row.getElem?_over, Option.or_of_isSome bound]
  added first second name unbound := by
    rw [Row.getElem?_over, Std.ExtTreeMap.getElem?_eq_none unbound, Option.none_or]

namespace Binding

/-! ## The names of a binding -/

def names (binding : Binding) : Finset String := binding.values.keys.toFinset

theorem contains_iff {binding : Binding} {name : String} :
    binding.contains name = true ↔ (binding.get? name).isSome = true := by
  rw [contains, Std.ExtTreeMap.contains_eq_isSome_getElem?, get?]

theorem mem_names {binding : Binding} {name : String} :
    name ∈ binding.names ↔ (binding.get? name).isSome = true := by
  rw [names, List.mem_toFinset, Std.ExtTreeMap.mem_keys, Std.ExtTreeMap.mem_iff_isSome_getElem?,
    get?]

theorem size_eq_card (binding : Binding) : binding.size = binding.names.card := by
  rw [names, List.toFinset_card_of_nodup Std.ExtTreeMap.nodup_keys, Std.ExtTreeMap.length_keys,
    size]

/-- On the names that both bindings have, they have the same values. -/
def Agrees (left right : Binding) : Prop :=
  ∀ name, left.contains name = true → right.contains name = true →
    left.get? name = right.get? name

/-- Bindings agree if and only if it makes no difference whose value stays. -/
theorem agrees_iff {left right : Binding} :
    left.Agrees right ↔
      ∀ name, (left.get? name).or (right.get? name) = (right.get? name).or (left.get? name) := by
  simp only [Agrees, contains_iff]
  refine forall_congr' fun name => ?_
  cases left.get? name <;> cases right.get? name <;> simp

@[simp]
theorem get?_empty (name : String) : empty.get? name = none :=
  Std.ExtTreeMap.getElem?_empty

theorem get?_ofRow (row : Row) (name : String) : (ofRow row).get? name = row[name]? := by
  rw [ofRow, get?_mergeRow, get?_empty, Option.or_none]

/-! ## Merging by a union that keeps the first map -/

section Merging

variable {unite : Row → Row → Row} {a b c : Binding}

theorem get?_mergeBy (keeps : KeepsFirst unite) (earlier later : Binding) (name : String) :
    (earlier.mergeBy unite later).get? name = (later.get? name).or (earlier.get? name) :=
  keeps.getElem? later.values earlier.values name

theorem names_mergeBy (keeps : KeepsFirst unite) (earlier later : Binding) :
    (earlier.mergeBy unite later).names = earlier.names ∪ later.names := by
  ext name
  rw [Finset.mem_union, mem_names, mem_names, mem_names, get?_mergeBy keeps, Option.isSome_or,
    Bool.or_eq_true, or_comm]

theorem mergeBy_assoc (keeps : KeepsFirst unite) (a b c : Binding) :
    (a.mergeBy unite b).mergeBy unite c = a.mergeBy unite (b.mergeBy unite c) := by
  apply ext_get?
  intro name
  simp only [get?_mergeBy keeps, Option.or_assoc]

theorem mergeBy_self (keeps : KeepsFirst unite) (a : Binding) : a.mergeBy unite a = a := by
  apply ext_get?
  intro name
  rw [get?_mergeBy keeps, Option.or_self]

theorem empty_mergeBy (keeps : KeepsFirst unite) (a : Binding) : empty.mergeBy unite a = a := by
  apply ext_get?
  intro name
  rw [get?_mergeBy keeps, get?_empty, Option.or_none]

theorem mergeBy_empty (keeps : KeepsFirst unite) (a : Binding) : a.mergeBy unite empty = a := by
  apply ext_get?
  intro name
  rw [get?_mergeBy keeps, get?_empty, Option.none_or]

theorem mergeBy_comm_iff (keeps : KeepsFirst unite) (a b : Binding) :
    a.mergeBy unite b = b.mergeBy unite a ↔ a.Agrees b := by
  rw [agrees_iff]
  constructor
  · intro same name
    rw [← get?_mergeBy keeps, ← get?_mergeBy keeps, same]
  · intro agrees
    apply ext_get?
    intro name
    rw [get?_mergeBy keeps, get?_mergeBy keeps, agrees name]

theorem mergeRow_eq_mergeBy (keeps : KeepsFirst unite) (a : Binding) (row : Row) :
    a.mergeRow row = a.mergeBy unite (ofRow row) := by
  apply ext_get?
  intro name
  rw [get?_mergeRow, get?_mergeBy keeps, get?_ofRow]

/-- The larger binding keeps its values, so it is the later one that wins if it is no smaller, and
who wins makes no difference if the bindings agree. -/
theorem merge_eq_mergeBy_iff (keeps : KeepsFirst unite) (a b : Binding) :
    a.merge b = a.mergeBy unite b ↔ a.size ≤ b.size ∨ a.Agrees b := by
  constructor
  · intro same
    by_cases fits : a.size ≤ b.size
    · exact .inl fits
    · refine .inr (agrees_iff.2 fun name => ?_)
      calc (a.get? name).or (b.get? name) = (a.merge b).get? name := by
            rw [get?_merge, if_neg fits]
        _ = (b.get? name).or (a.get? name) := by rw [same, get?_mergeBy keeps]
  · intro wins
    apply ext_get?
    intro name
    rw [get?_merge, get?_mergeBy keeps]
    split
    next => rfl
    next larger => exact agrees_iff.1 (wins.resolve_left larger) name

end Merging

/-! ## Rows merged one after the other -/

theorem get?_foldl_mergeRow_of_last {rows later : List Row} {row : Row} {name : String}
    {value : Term} (has : row[name]? = some value) (isLast : ∀ other ∈ later, name ∉ other)
    (binding : Binding) :
    ((rows ++ row :: later).foldl mergeRow binding).get? name = some value := by
  have without : later.reverse.findSome? (fun row => row[name]?) = none :=
    List.findSome?_eq_none_iff.2 fun other listed =>
      Std.ExtTreeMap.getElem?_eq_none (isLast other (List.mem_reverse.1 listed))
  simp [get?_foldl_mergeRow, without, has]

theorem get?_foldl_mergeRow_of_none {rows : List Row} {name : String}
    (unbound : ∀ row ∈ rows, name ∉ row) (binding : Binding) :
    (rows.foldl mergeRow binding).get? name = binding.get? name := by
  have without : rows.reverse.findSome? (fun row => row[name]?) = none :=
    List.findSome?_eq_none_iff.2 fun row listed =>
      Std.ExtTreeMap.getElem?_eq_none (unbound row (List.mem_reverse.1 listed))
  rw [get?_foldl_mergeRow, without, Option.none_or]

/-! ## The algebra of merges -/

/-- What merging by a union says of three bindings, a row and a list of rows. -/
structure MergesByLater (unite : Row → Row → Row) (a b c : Binding) (row : Row)
    (rows : List Row) : Prop where
  laterWins : ∀ name, b.contains name = true → (a.mergeBy unite b).get? name = b.get? name
  earlierStays : ∀ name, ¬b.contains name = true →
    (a.mergeBy unite b).get? name = a.get? name
  nothingElse : ∀ name, (a.mergeBy unite b).contains name = true →
    a.contains name = true ∨ b.contains name = true
  size : (a.mergeBy unite b).size = (a.names ∪ b.names).card
  assoc : (a.mergeBy unite b).mergeBy unite c = a.mergeBy unite (b.mergeBy unite c)
  idempotent : a.mergeBy unite a = a
  emptyEarlier : empty.mergeBy unite a = a
  emptyLater : a.mergeBy unite empty = a
  comm : a.mergeBy unite b = b.mergeBy unite a ↔ a.Agrees b
  rowAsBinding : a.mergeRow row = a.mergeBy unite (ofRow row)
  lastRow : ∀ (before after : List Row) (last : Row) (name : String) (value : Term),
    rows = before ++ last :: after → last[name]? = some value →
    (∀ other ∈ after, name ∉ other) → (rows.foldl mergeRow a).get? name = some value
  noRow : ∀ name, (∀ other ∈ rows, name ∉ other) →
    (rows.foldl mergeRow a).get? name = a.get? name
  /-- The merge that is used keeps the values of the larger binding, which is the later one or
  makes no difference. -/
  used : a.merge b = a.mergeBy unite b ↔ a.size ≤ b.size ∨ a.Agrees b

theorem mergesByLater {unite : Row → Row → Row} (keeps : KeepsFirst unite) (a b c : Binding)
    (row : Row) (rows : List Row) : MergesByLater unite a b c row rows where
  laterWins name bound := by
    rw [get?_mergeBy keeps, Option.or_of_isSome (contains_iff.1 bound)]
  earlierStays name unbound := by
    rw [get?_mergeBy keeps, Option.not_isSome_iff_eq_none.1 (mt contains_iff.2 unbound),
      Option.none_or]
  nothingElse name bound := by
    rw [contains_iff, get?_mergeBy keeps, Option.isSome_or, Bool.or_eq_true] at bound
    exact bound.symm.imp contains_iff.2 contains_iff.2
  size := by rw [size_eq_card, names_mergeBy keeps]
  assoc := mergeBy_assoc keeps a b c
  idempotent := mergeBy_self keeps a
  emptyEarlier := empty_mergeBy keeps a
  emptyLater := mergeBy_empty keeps a
  comm := mergeBy_comm_iff keeps a b
  rowAsBinding := mergeRow_eq_mergeBy keeps a row
  lastRow before after last name value isRows has isLast := by
    subst isRows
    exact get?_foldl_mergeRow_of_last has isLast a
  noRow name unbound := get?_foldl_mergeRow_of_none unbound a
  used := merge_eq_mergeBy_iff keeps a b

/-- A unit with a flow sensor, as it was found first. -/
def firstFlow : Binding := ofList [("root", .iri ⟨"urn:vav"⟩), ("flow", .iri ⟨"urn:sensor1"⟩)]

def secondFlow : Binding := ofList [("root", .iri ⟨"urn:vav"⟩), ("flow", .iri ⟨"urn:sensor2"⟩)]

def damper : Binding := ofList [("root", .iri ⟨"urn:vav"⟩), ("damper", .iri ⟨"urn:damper"⟩)]

/-- The two flows disagree and are of one size, so the merge that is used is by later here. -/
theorem mergesByLater_of_flows :
    KeepsFirst Row.over ∧ ¬firstFlow.Agrees secondFlow ∧
    firstFlow.merge secondFlow = firstFlow.mergeBy Row.over secondFlow ∧
    secondFlow.merge firstFlow = secondFlow.mergeBy Row.over firstFlow ∧
    (firstFlow.merge secondFlow).merge damper =
      (firstFlow.mergeBy Row.over secondFlow).mergeBy Row.over damper ∧
    firstFlow.merge (secondFlow.merge damper) =
      firstFlow.mergeBy Row.over (secondFlow.mergeBy Row.over damper) ∧
    MergesByLater Row.over firstFlow secondFlow damper secondFlow.values
      [firstFlow.values, secondFlow.values, damper.values] := by
  have used : ∀ earlier later : Binding, earlier.size ≤ later.size →
      earlier.merge later = earlier.mergeBy Row.over later :=
    fun earlier later fits =>
      (mergesByLater keepsFirst_over earlier later earlier earlier.values []).used.2 (.inl fits)
  refine ⟨keepsFirst_over, ?_, used _ _ (by decide +kernel), used _ _ (by decide +kernel), ?_, ?_,
    mergesByLater keepsFirst_over ..⟩
  · intro agrees
    have sameFlow := agrees "flow" (by decide +kernel) (by decide +kernel)
    exact absurd sameFlow (by decide +kernel)
  · rw [used firstFlow secondFlow (by decide +kernel)]
    exact used _ _ (by decide +kernel)
  · rw [used secondFlow damper (by decide +kernel)]
    exact used _ _ (by decide +kernel)

end Binding

end BuildingRules
