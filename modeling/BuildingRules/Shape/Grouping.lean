import BuildingRules.Shape.Resolver

/-!
# Grouping diagnostics

A diagnostic says that a node failed a shape for a reason. Diagnostics are grouped by the authoring
shape and then by the node; a grouping is the set of the attributions it holds, so it does not
depend on the order in which they were made.
-/

set_option autoImplicit false

namespace BuildingRules

/-- A node failed a shape for a reason. -/
structure Diagnostic where
  focus : Term
  failedShape : Term
  reason : String
  deriving DecidableEq, Repr

def Diagnostic.display (diagnostic : Diagnostic) : String :=
  diagnostic.focus.display ++ " failed " ++ diagnostic.failedShape.display ++ ": "
    ++ diagnostic.reason

/-! ## Attributions -/

@[ext]
structure Attribution where
  shape : Term
  focus : Term
  reason : String
  deriving DecidableEq, Repr

namespace Attribution

instance : Ord Attribution :=
  ⟨compareLex (compareOn shape) (compareLex (compareOn focus) (compareOn reason))⟩

instance : Std.TransOrd Attribution :=
  inferInstanceAs (Std.TransCmp
    (compareLex (compareOn shape) (compareLex (compareOn focus) (compareOn reason))))

instance : Std.LawfulEqOrd Attribution where
  eq_of_compare {left right} same := by
    have both := compareLex_eq_eq.1 (show compareLex _ _ left right = .eq from same)
    have rest := compareLex_eq_eq.1 both.2
    exact Attribution.ext (Std.LawfulEqCmp.eq_of_compare both.1)
      (Std.LawfulEqCmp.eq_of_compare rest.1) (Std.LawfulEqCmp.eq_of_compare rest.2)

end Attribution

/-! ## Groupings -/

@[ext]
structure Grouping where
  attributions : Std.ExtTreeSet Attribution compare

structure Group where
  shape : Term
  focus : Term
  reasons : List String
  deriving DecidableEq, Repr

namespace Grouping

def empty : Grouping := ⟨∅⟩

def insert (grouping : Grouping) (attribution : Attribution) : Grouping × Bool :=
  (⟨grouping.attributions.insert attribution⟩, !grouping.attributions.contains attribution)

def shapes (grouping : Grouping) : List Term :=
  (Std.ExtTreeSet.ofList (grouping.attributions.toList.map (·.shape)) compare).toList

@[simp]
theorem mem_shapes {grouping : Grouping} {shape : Term} :
    shape ∈ grouping.shapes ↔ ∃ a ∈ grouping.attributions, a.shape = shape := by
  simp [shapes, Std.ExtTreeSet.mem_ofList]

def foci (grouping : Grouping) (shape : Term) : List Term :=
  (Std.ExtTreeSet.ofList
    ((grouping.attributions.toList.filter (·.shape == shape)).map (·.focus)) compare).toList

@[simp]
theorem mem_foci {grouping : Grouping} {shape focus : Term} :
    focus ∈ grouping.foci shape ↔
      ∃ a ∈ grouping.attributions, a.shape = shape ∧ a.focus = focus := by
  simp [foci, Std.ExtTreeSet.mem_ofList, and_assoc]

def reasons (grouping : Grouping) (shape focus : Term) : List String :=
  (grouping.attributions.toList.filter fun a => a.shape == shape && a.focus == focus).map (·.reason)

@[simp]
theorem mem_reasons {grouping : Grouping} {shape focus : Term} {reason : String} :
    reason ∈ grouping.reasons shape focus ↔ ⟨shape, focus, reason⟩ ∈ grouping.attributions := by
  simp only [reasons, List.mem_map, List.mem_filter, Std.ExtTreeSet.mem_toList, Bool.and_eq_true,
    beq_iff_eq]
  constructor
  · rintro ⟨attribution, ⟨member, rfl, rfl⟩, rfl⟩
    exact member
  · intro member
    exact ⟨_, ⟨member, rfl, rfl⟩, rfl⟩

def groups (grouping : Grouping) : List Group :=
  grouping.shapes.flatMap fun shape =>
    (grouping.foci shape).map fun focus => ⟨shape, focus, grouping.reasons shape focus⟩

def size (grouping : Grouping) : Nat := grouping.shapes.length

def isEmpty (grouping : Grouping) : Bool := grouping.attributions.isEmpty

def reasonCount (grouping : Grouping) : Nat := grouping.attributions.size

end Grouping

/-! ## Aggregation -/

structure ResolutionFailure where
  diagnostic : Diagnostic
  unresolved : Unresolved
  deriving DecidableEq, Repr

structure Aggregation where
  grouping : Grouping
  failures : List ResolutionFailure

namespace Aggregation

def empty : Aggregation := ⟨.empty, []⟩

/-- The aggregation with one more diagnostic. It is attributed to its authoring shape, or to the
shape at which the search was cut off. -/
def add (enclosing : Term → List Term) (state : Aggregation × Resolver)
    (diagnostic : Diagnostic) : Aggregation × Resolver :=
  let (aggregation, resolver) := state
  let attributed (shape : Term) : Grouping :=
    (aggregation.grouping.insert ⟨shape, diagnostic.focus, diagnostic.reason⟩).1
  match resolver.resolve enclosing diagnostic.failedShape with
  | (.ok origin, resolver) => ({ aggregation with grouping := attributed origin }, resolver)
  | (.error unresolved, resolver) =>
    (⟨attributed unresolved.lastKnown, aggregation.failures ++ [⟨diagnostic, unresolved⟩]⟩, resolver)

def ofBatch (enclosing : Term → List Term) (resolver : Resolver) (batch : List Diagnostic) :
    Aggregation × Resolver :=
  batch.foldl (add enclosing) (empty, resolver)

end Aggregation

end BuildingRules
