import BuildingRules.Proofs.GraphListings
import BuildingRules.Shape.Indexed

/-!
# What a grouping by shape and node keeps

An insertion adds its attribution and leaves all others as they were, and says whether it was new.
No shape is kept without a node, and no node without a reason: `NoneEmpty.insert`. The groups are
listed once each, in the order of terms, and their reasons are counted without repetition:
`NoneEmpty.wellKept`. They are the groups of the set of attributions: `Describes.groups_eq`.
-/

set_option autoImplicit false

namespace BuildingRules

/-- By shape, and then by node. -/
def Group.order (left right : Group) : Ordering :=
  compareLex (compareOn Group.shape) (compareOn Group.focus) left right

instance : Std.TransCmp Group.order :=
  inferInstanceAs (Std.TransCmp (compareLex (compareOn Group.shape) (compareOn Group.focus)))

theorem Group.order_eq_lt {left right : Group} :
    Group.order left right = .lt ↔ compare left.shape right.shape = .lt ∨
      left.shape = right.shape ∧ compare left.focus right.focus = .lt := by
  simp only [Group.order, compareLex, compareOn, Ordering.then_eq_lt,
    Std.LawfulEqCmp.compare_eq_iff_eq]

/-- Groups in ascending order, first by shape and then by node. -/
theorem ascending_flatMap_map {Outer Inner : Type} {outers : List Outer} {inners : Outer → List Inner}
    {make : Outer → Inner → Group} {shape : Outer → Term} {focus : Inner → Term}
    (shapes : outers.Pairwise fun left right => compare (shape left) (shape right) = .lt)
    (foci : ∀ outer, (inners outer).Pairwise fun left right =>
      compare (focus left) (focus right) = .lt)
    (place : ∀ outer inner, (make outer inner).shape = shape outer ∧
      (make outer inner).focus = focus inner) :
    Ascending Group.order (outers.flatMap fun outer => (inners outer).map (make outer)) := by
  refine List.pairwise_flatMap.2 ⟨fun outer _ => List.pairwise_map.2 ((foci outer).imp ?_),
    shapes.imp ?_⟩
  · intro left right isBefore
    rw [Group.order_eq_lt, (place outer left).1, (place outer right).1, (place outer left).2,
      (place outer right).2]
    exact .inr ⟨rfl, isBefore⟩
  · intro earlier later isBefore left inLeft right inRight
    obtain ⟨_, _, rfl⟩ := List.mem_map.1 inLeft
    obtain ⟨_, _, rfl⟩ := List.mem_map.1 inRight
    rw [Group.order_eq_lt, (place earlier _).1, (place later _).1]
    exact .inl isBefore

namespace IndexedGrouping

/-! ## Insertions -/

def Holds (grouping : IndexedGrouping) (attribution : Attribution) : Prop :=
  ∃ reasons, grouping.reasons? attribution.shape attribution.focus = some reasons ∧
    attribution.reason ∈ reasons

theorem holds_iff {grouping : IndexedGrouping} {attribution : Attribution} :
    grouping.Holds attribution ↔ attribution.reason ∈
      (grouping.reasons? attribution.shape attribution.focus).getD ∅ := by
  unfold Holds
  cases grouping.reasons? attribution.shape attribution.focus <;> simp

theorem foci?_insert (grouping : IndexedGrouping) (attribution : Attribution) (shape : Term) :
    (grouping.insert attribution).1.foci? shape =
      if attribution.shape = shape then
        some (((grouping.foci? shape).getD ∅).insert attribution.focus
          (((grouping.reasons? shape attribution.focus).getD ∅).insert attribution.reason))
      else grouping.foci? shape := by
  simp only [insert, foci?, reasons?, Std.ExtTreeMap.getElem?_insert,
    Std.LawfulEqCmp.compare_eq_iff_eq]
  by_cases same : attribution.shape = shape
  · subst same
    cases grouping.byShape[attribution.shape]? <;> simp
  · simp [same]

theorem reasons?_insert (grouping : IndexedGrouping) (attribution : Attribution)
    (shape focus : Term) :
    (grouping.insert attribution).1.reasons? shape focus =
      if attribution.shape = shape ∧ attribution.focus = focus then
        some (((grouping.reasons? shape focus).getD ∅).insert attribution.reason)
      else grouping.reasons? shape focus := by
  rw [reasons?, foci?_insert]
  by_cases sameShape : attribution.shape = shape
  · rw [if_pos sameShape, Option.bind_some, Std.ExtTreeMap.getElem?_insert]
    by_cases sameFocus : attribution.focus = focus
    · subst sameFocus
      simp [sameShape]
    · simp only [Std.LawfulEqCmp.compare_eq_iff_eq, sameFocus, and_false, if_false, reasons?]
      cases grouping.foci? shape <;> simp
  · simp [sameShape, reasons?]

theorem holds_insert {grouping : IndexedGrouping} {attribution other : Attribution} :
    (grouping.insert attribution).1.Holds other ↔ other = attribution ∨ grouping.Holds other := by
  rw [holds_iff, holds_iff, reasons?_insert, Attribution.ext_iff]
  by_cases same : attribution.shape = other.shape ∧ attribution.focus = other.focus
  · rw [if_pos same, Option.getD_some, Std.ExtTreeSet.mem_insert,
      Std.LawfulEqCmp.compare_eq_iff_eq]
    simp only [same.1, same.2, true_and, eq_comm]
  · rw [if_neg same]
    grind

/-- An insertion says whether its attribution was not yet there. -/
theorem insert_isNew_iff {grouping : IndexedGrouping} {attribution : Attribution} :
    (grouping.insert attribution).2 = true ↔ ¬grouping.Holds attribution := by
  rw [holds_iff, insert, reasons?, foci?, Bool.not_eq_true', ← Bool.not_eq_true,
    Std.ExtTreeSet.contains_iff_mem]
  cases grouping.byShape[attribution.shape]? <;> simp

theorem not_holds_empty (attribution : Attribution) : ¬empty.Holds attribution := by
  simp [Holds, reasons?, foci?, empty]

theorem holds_foldl_insert (attributions : List Attribution) (grouping : IndexedGrouping)
    (attribution : Attribution) :
    (attributions.foldl (fun grouping other => (grouping.insert other).1) grouping).Holds
        attribution ↔
      attribution ∈ attributions ∨ grouping.Holds attribution := by
  induction attributions generalizing grouping with
  | nil => simp
  | cons first rest inductionHypothesis =>
    rw [List.foldl_cons, inductionHypothesis, holds_insert, List.mem_cons, or_left_comm, or_assoc]

theorem holds_ofList {attributions : List Attribution} {attribution : Attribution} :
    (ofList attributions).Holds attribution ↔ attribution ∈ attributions := by
  rw [ofList, holds_foldl_insert, or_iff_left (not_holds_empty attribution)]

/-! ## Nothing empty is kept -/

/-- No shape is kept without a node, and no node without a reason. -/
structure NoneEmpty (grouping : IndexedGrouping) : Prop where
  shapes : ∀ shape foci, grouping.foci? shape = some foci → ∃ focus, focus ∈ foci
  foci : ∀ shape focus reasons, grouping.reasons? shape focus = some reasons →
    ∃ reason, reason ∈ reasons

theorem noneEmpty_empty : NoneEmpty empty := by
  constructor <;> simp [reasons?, foci?, empty]

theorem NoneEmpty.insert {grouping : IndexedGrouping} (noneEmpty : grouping.NoneEmpty)
    (attribution : Attribution) : (grouping.insert attribution).1.NoneEmpty where
  shapes shape foci has := by
    rw [foci?_insert] at has
    split at has
    next =>
      obtain rfl := Option.some.inj has
      exact ⟨attribution.focus, Std.ExtTreeMap.mem_insert_self⟩
    next => exact noneEmpty.shapes shape foci has
  foci shape focus reasons has := by
    rw [reasons?_insert] at has
    split at has
    next =>
      obtain rfl := Option.some.inj has
      exact ⟨attribution.reason, Std.ExtTreeSet.mem_insert_self⟩
    next => exact noneEmpty.foci shape focus reasons has

theorem noneEmpty_foldl_insert (attributions : List Attribution) {grouping : IndexedGrouping}
    (noneEmpty : grouping.NoneEmpty) :
    (attributions.foldl (fun grouping other => (grouping.insert other).1) grouping).NoneEmpty := by
  induction attributions generalizing grouping with
  | nil => exact noneEmpty
  | cons first rest inductionHypothesis => exact inductionHypothesis (noneEmpty.insert first)

theorem noneEmpty_ofList (attributions : List Attribution) : (ofList attributions).NoneEmpty :=
  noneEmpty_foldl_insert attributions noneEmpty_empty

/-! ## Groups -/

theorem mem_groups {grouping : IndexedGrouping} {group : Group} :
    group ∈ grouping.groups ↔
      ∃ reasons, grouping.reasons? group.shape group.focus = some reasons ∧
        group.reasons = reasons.toList := by
  obtain ⟨shape, focus, listed⟩ := group
  simp only [groups, List.mem_flatMap, List.mem_map, Prod.exists,
    Std.ExtTreeMap.mem_toList_iff_getElem?_eq_some, reasons?, foci?, Option.bind_eq_some_iff,
    Group.mk.injEq]
  constructor
  · intro found
    obtain ⟨_, foci, hasFoci, _, reasons, hasReasons, rfl, rfl, rfl⟩ := found
    exact ⟨reasons, ⟨foci, hasFoci, hasReasons⟩, rfl⟩
  · intro found
    obtain ⟨reasons, ⟨foci, hasFoci, hasReasons⟩, rfl⟩ := found
    exact ⟨shape, foci, hasFoci, focus, reasons, hasReasons, rfl, rfl, rfl⟩

theorem ascending_groups (grouping : IndexedGrouping) :
    Ascending Group.order grouping.groups :=
  ascending_flatMap_map Std.ExtTreeMap.ordered_keys_toList
    (fun _ => Std.ExtTreeMap.ordered_keys_toList) fun _ _ => ⟨rfl, rfl⟩

/-! ## Counting -/

theorem mem_flatMap_attributionsOf {grouping : IndexedGrouping} {attribution : Attribution} :
    attribution ∈ grouping.groups.flatMap attributionsOf ↔ grouping.Holds attribution := by
  simp only [List.mem_flatMap, mem_groups, attributionsOf, List.mem_map]
  constructor
  · intro found
    obtain ⟨group, ⟨reasons, has, isList⟩, reason, listed, rfl⟩ := found
    rw [isList, Std.ExtTreeSet.mem_toList] at listed
    exact ⟨reasons, has, listed⟩
  · intro holds
    obtain ⟨reasons, has, listed⟩ := holds
    exact ⟨⟨attribution.shape, attribution.focus, reasons.toList⟩, ⟨reasons, has, rfl⟩,
      attribution.reason, Std.ExtTreeSet.mem_toList.2 listed, rfl⟩

theorem nodup_flatMap_attributionsOf (grouping : IndexedGrouping) :
    (grouping.groups.flatMap attributionsOf).Nodup := by
  refine List.nodup_flatMap.2 ⟨fun group listed => ?_, ?_⟩
  · obtain ⟨reasons, -, isList⟩ := mem_groups.1 listed
    have ascending : Ascending compare reasons.toList := Std.ExtTreeSet.ordered_toList
    rw [attributionsOf, isList]
    exact ascending.nodup.map fun left right same => congrArg Attribution.reason same
  · refine grouping.ascending_groups.imp ?_
    intro earlier later isBefore attribution inEarlier inLater
    obtain ⟨_, _, rfl⟩ := List.mem_map.1 inEarlier
    obtain ⟨_, _, same⟩ := List.mem_map.1 inLater
    simp only [Attribution.mk.injEq] at same
    simp [Group.order_eq_lt, same] at isBefore

theorem length_flatMap_attributionsOf (groups : List Group) :
    (groups.flatMap attributionsOf).length =
      groups.foldr (fun group count => group.reasons.length + count) 0 := by
  induction groups with
  | nil => rfl
  | cons group rest inductionHypothesis =>
    rw [List.flatMap_cons, List.length_append, inductionHypothesis, attributionsOf, List.length_map,
      List.foldr_cons]

/-- The reasons of all groups are the attributions, each counted once. -/
theorem encard_holds (grouping : IndexedGrouping) :
    {attribution | grouping.Holds attribution}.encard = grouping.reasonCount := by
  have listed : {attribution | grouping.Holds attribution} =
      ((grouping.groups.flatMap attributionsOf).toFinset : Set Attribution) := by
    ext attribution
    simp only [Set.mem_ofPred_eq, List.coe_toFinset, mem_flatMap_attributionsOf]
  have counted : (grouping.groups.flatMap attributionsOf).length = grouping.reasonCount :=
    length_flatMap_attributionsOf grouping.groups
  rw [listed, Set.encard_coe_eq_coe_finsetCard,
    List.toFinset_card_of_nodup grouping.nodup_flatMap_attributionsOf, counted]

/-! ## Groupings that are well kept -/

/-- What holds of a grouping by shape and node however it was filled. -/
structure WellKept (grouping : IndexedGrouping) : Prop where
  noneEmpty : grouping.NoneEmpty
  isNew_iff : ∀ attribution, (grouping.insert attribution).2 = true ↔ ¬grouping.Holds attribution
  inserted : ∀ attribution other, (grouping.insert attribution).1.Holds other ↔
    other = attribution ∨ grouping.Holds other
  counted : {attribution | grouping.Holds attribution}.encard = grouping.reasonCount
  ascending : Ascending Group.order grouping.groups
  listed : ∀ group, group ∈ grouping.groups ↔
    ∃ reasons, grouping.reasons? group.shape group.focus = some reasons ∧
      group.reasons = reasons.toList

theorem NoneEmpty.wellKept {grouping : IndexedGrouping} (noneEmpty : grouping.NoneEmpty) :
    grouping.WellKept where
  noneEmpty := noneEmpty
  isNew_iff _ := insert_isNew_iff
  inserted _ _ := holds_insert
  counted := grouping.encard_holds
  ascending := grouping.ascending_groups
  listed _ := mem_groups

end IndexedGrouping

/-! ## The set of attributions -/

namespace Grouping

theorem ascending_reasons (grouping : Grouping) (shape focus : Term) :
    Ascending compare (grouping.reasons shape focus) := by
  have ascending : Ascending compare grouping.attributions.toList :=
    Std.ExtTreeSet.ordered_toList
  refine List.pairwise_map.2 ((ascending.filter _).imp_of_mem ?_)
  intro earlier later inEarlier inLater isBefore
  have isHere := (List.mem_filter.1 inEarlier).2
  have isHereToo := (List.mem_filter.1 inLater).2
  simp only [Bool.and_eq_true, beq_iff_eq] at isHere isHereToo
  change (compare earlier.shape later.shape).then
    ((compare earlier.focus later.focus).then (compare earlier.reason later.reason)) = .lt
    at isBefore
  simpa [isHere, isHereToo] using isBefore

theorem mem_groups {grouping : Grouping} {group : Group} :
    group ∈ grouping.groups ↔
      (∃ attribution ∈ grouping.attributions,
        attribution.shape = group.shape ∧ attribution.focus = group.focus) ∧
      group.reasons = grouping.reasons group.shape group.focus := by
  obtain ⟨shape, focus, reasons⟩ := group
  simp only [groups, List.mem_flatMap, List.mem_map, mem_shapes, mem_foci, Group.mk.injEq]
  grind

theorem shape_mem_of_mem_groups {grouping : Grouping} {group : Group}
    (listed : group ∈ grouping.groups) : group.shape ∈ grouping.shapes := by
  obtain ⟨⟨attribution, member, isShape, -⟩, -⟩ := mem_groups.1 listed
  exact mem_shapes.2 ⟨attribution, member, isShape⟩

theorem ascending_groups (grouping : Grouping) : Ascending Group.order grouping.groups :=
  ascending_flatMap_map Std.ExtTreeSet.ordered_toList (fun _ => Std.ExtTreeSet.ordered_toList)
    fun _ _ => ⟨rfl, rfl⟩

end Grouping

namespace IndexedGrouping

/-- The maps hold just the attributions of the grouping. -/
structure Describes (stored : IndexedGrouping) (grouping : Grouping) : Prop where
  holds : ∀ attribution, stored.Holds attribution ↔ attribution ∈ grouping.attributions
  noneEmpty : stored.NoneEmpty

variable {stored : IndexedGrouping} {grouping : Grouping}

theorem describes_empty : Describes .empty .empty where
  holds attribution := by
    simp [not_holds_empty, Grouping.empty]
  noneEmpty := noneEmpty_empty

theorem NoneEmpty.describes_toGrouping (noneEmpty : stored.NoneEmpty) :
    stored.Describes stored.toGrouping where
  holds attribution := by
    rw [toGrouping, Std.ExtTreeSet.mem_ofList, List.contains_iff_mem, mem_flatMap_attributionsOf]
  noneEmpty := noneEmpty

theorem Describes.insert (describes : stored.Describes grouping) (attribution : Attribution) :
    (stored.insert attribution).1.Describes (grouping.insert attribution).1 where
  holds other := by
    rw [holds_insert, describes.holds, Grouping.insert, Std.ExtTreeSet.mem_insert,
      Std.LawfulEqCmp.compare_eq_iff_eq, eq_comm]
  noneEmpty := describes.noneEmpty.insert attribution

theorem Describes.toList_reasons (describes : stored.Describes grouping) {shape focus : Term}
    {reasons : Reasons} (has : stored.reasons? shape focus = some reasons) :
    reasons.toList = grouping.reasons shape focus := by
  have ascending : Ascending compare reasons.toList := Std.ExtTreeSet.ordered_toList
  refine eq_of_ascending ascending (grouping.ascending_reasons shape focus) fun reason => ?_
  rw [Std.ExtTreeSet.mem_toList, Grouping.mem_reasons, ← describes.holds, holds_iff, has,
    Option.getD_some]

/-- What the maps are run through for is what the set is. -/
theorem Describes.groups_eq (describes : stored.Describes grouping) :
    stored.groups = grouping.groups := by
  refine eq_of_ascending stored.ascending_groups grouping.ascending_groups fun group => ?_
  rw [mem_groups, Grouping.mem_groups]
  constructor
  · intro listed
    obtain ⟨reasons, has, isList⟩ := listed
    obtain ⟨reason, member⟩ := describes.noneEmpty.foci _ _ _ has
    refine ⟨⟨⟨group.shape, group.focus, reason⟩, ?_, rfl, rfl⟩, ?_⟩
    · exact (describes.holds _).1 ⟨reasons, has, member⟩
    · rw [isList, describes.toList_reasons has]
  · intro listed
    obtain ⟨⟨attribution, member, sameShape, sameFocus⟩, isReasons⟩ := listed
    obtain ⟨reasons, has, -⟩ := (describes.holds attribution).2 member
    rw [sameShape, sameFocus] at has
    exact ⟨reasons, has, by rw [isReasons, describes.toList_reasons has]⟩

end IndexedGrouping

end BuildingRules
