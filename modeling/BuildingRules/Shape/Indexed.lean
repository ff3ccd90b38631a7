import BuildingRules.Shape.Grouping
import Std.Data.ExtTreeMap

/-!
# Groupings by shape and node

To be looked up by shape and by node, attributions are kept in a map from shapes to nodes to
reasons. Batches of diagnostics are aggregated one after the other with one resolver, so that what
one batch has found out shortens the walks of the next.
-/

set_option autoImplicit false

namespace BuildingRules

abbrev Reasons := Std.ExtTreeSet String compare

/-- The nodes that failed a shape, each with the reasons. -/
abbrev Foci := Std.ExtTreeMap Term Reasons compare

@[ext]
structure IndexedGrouping where
  byShape : Std.ExtTreeMap Term Foci compare

namespace IndexedGrouping

def empty : IndexedGrouping := ⟨∅⟩

/-- The answer says whether the attribution was new. -/
def insert (grouping : IndexedGrouping) (attribution : Attribution) : IndexedGrouping × Bool :=
  let foci := grouping.byShape[attribution.shape]?.getD ∅
  let reasons := foci[attribution.focus]?.getD ∅
  (⟨grouping.byShape.insert attribution.shape
      (foci.insert attribution.focus (reasons.insert attribution.reason))⟩,
    !reasons.contains attribution.reason)

def ofList (attributions : List Attribution) : IndexedGrouping :=
  attributions.foldl (fun grouping attribution => (grouping.insert attribution).1) empty

/-! ## Questions -/

def foci? (grouping : IndexedGrouping) (shape : Term) : Option Foci := grouping.byShape[shape]?

def reasons? (grouping : IndexedGrouping) (shape focus : Term) : Option Reasons :=
  (grouping.foci? shape).bind fun foci => foci[focus]?

def shapes (grouping : IndexedGrouping) : List Term := grouping.byShape.keys

def groups (grouping : IndexedGrouping) : List Group :=
  grouping.byShape.toList.flatMap fun entry =>
    entry.2.toList.map fun inner => ⟨entry.1, inner.1, inner.2.toList⟩

def size (grouping : IndexedGrouping) : Nat := grouping.byShape.size

def isEmpty (grouping : IndexedGrouping) : Bool := grouping.byShape.isEmpty

def reasonCount (grouping : IndexedGrouping) : Nat :=
  grouping.groups.foldr (fun group count => group.reasons.length + count) 0

def attributionsOf (group : Group) : List Attribution :=
  group.reasons.map fun reason => ⟨group.shape, group.focus, reason⟩

/-- The set of the attributions that the maps hold. -/
def toGrouping (grouping : IndexedGrouping) : Grouping :=
  ⟨.ofList (grouping.groups.flatMap attributionsOf) compare⟩

end IndexedGrouping

/-! ## Aggregation -/

structure IndexedAggregation where
  grouping : IndexedGrouping
  failures : List ResolutionFailure

namespace IndexedAggregation

def empty : IndexedAggregation := ⟨.empty, []⟩

def add (enclosing : Term → List Term) (state : IndexedAggregation × Resolver)
    (diagnostic : Diagnostic) : IndexedAggregation × Resolver :=
  let (aggregation, resolver) := state
  let attributed (shape : Term) : IndexedGrouping :=
    (aggregation.grouping.insert ⟨shape, diagnostic.focus, diagnostic.reason⟩).1
  match resolver.resolve enclosing diagnostic.failedShape with
  | (.ok origin, resolver) => ({ aggregation with grouping := attributed origin }, resolver)
  | (.error unresolved, resolver) =>
    (⟨attributed unresolved.lastKnown, aggregation.failures ++ [⟨diagnostic, unresolved⟩]⟩, resolver)

def ofBatch (enclosing : Term → List Term) (resolver : Resolver) (batch : List Diagnostic) :
    IndexedAggregation × Resolver :=
  batch.foldl (add enclosing) (empty, resolver)

/-- What each of the batches comes to, and the resolver after them. -/
def ofBatches (enclosing : Term → List Term) (resolver : Resolver) :
    List (List Diagnostic) → List IndexedAggregation × Resolver
  | [] => ([], resolver)
  | batch :: rest =>
    let (aggregation, next) := ofBatch enclosing resolver batch
    let (others, last) := ofBatches enclosing next rest
    (aggregation :: others, last)

end IndexedAggregation

end BuildingRules
