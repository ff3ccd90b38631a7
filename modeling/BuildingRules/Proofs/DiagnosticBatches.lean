import BuildingRules.Proofs.GroupingOrder
import BuildingRules.Proofs.IndexedGroupings

/-!
# Batches of diagnostics

Each diagnostic of a batch is attributed by what the resolver answers when it is its turn, after all
that failed before it, in earlier batches or in its own. A batch comes to just these attributions
and failures, and does so too when it is cut into parts: `aggregatesAll`.
-/

set_option autoImplicit false

namespace BuildingRules

variable {enclosing : Term → List Term} {maxDepth : Nat}

namespace Resolver

theorem after_append (history more : List Term) :
    after enclosing maxDepth (history ++ more) =
      more.foldl (fun resolver shape => (resolver.resolve enclosing shape).2)
        (after enclosing maxDepth history) := by
  rw [after, List.foldl_append, after]

theorem after_concat (history : List Term) (shape : Term) :
    after enclosing maxDepth (history ++ [shape]) =
      ((after enclosing maxDepth history).resolve enclosing shape).2 := by
  rw [after_append]
  rfl

/-- How often a shape was to be resolved. -/
def calls (resolver : Resolver) : Nat := resolver.hits + resolver.misses

theorem calls_resolve (resolver : Resolver) (shape : Term) :
    (resolver.resolve enclosing shape).2.calls = resolver.calls + 1 := by
  cases lookup : resolver.origins[shape]? with
  | some origin =>
    rw [resolve_of_known lookup]
    exact Nat.add_right_comm _ _ _
  | none =>
    rw [resolve_of_unknown lookup]
    cases (resolver.walk enclosing shape).answer <;> exact (Nat.add_assoc _ _ _).symm

theorem calls_after (enclosing : Term → List Term) (maxDepth : Nat) (history more : List Term) :
    (after enclosing maxDepth (history ++ more)).calls =
      (after enclosing maxDepth history).calls + more.length := by
  induction more generalizing history with
  | nil => rw [List.append_nil]; rfl
  | cons shape rest inductionHypothesis =>
    rw [List.append_cons, inductionHypothesis, after_concat, calls_resolve, List.length_cons]
    omega

end Resolver

/-! ## Turns -/

/-- The diagnostics of a batch, each with what the resolver answers when it is its turn: after the
shapes of the history and those that failed before it in the batch. -/
def turns (enclosing : Term → List Term) (maxDepth : Nat) (history : List Term)
    (batch : List Diagnostic) : List Verdict :=
  batch.mapIdx fun index diagnostic =>
    let resolver :=
      Resolver.after enclosing maxDepth (history ++ (batch.take index).map (·.failedShape))
    ⟨diagnostic, (resolver.resolve enclosing diagnostic.failedShape).1⟩

theorem turns_cons (history : List Term) (diagnostic : Diagnostic) (rest : List Diagnostic) :
    turns enclosing maxDepth history (diagnostic :: rest) =
      ⟨diagnostic,
        ((Resolver.after enclosing maxDepth history).resolve enclosing diagnostic.failedShape).1⟩ ::
        turns enclosing maxDepth (history ++ [diagnostic.failedShape]) rest := by
  simp [turns, List.mapIdx_cons]

theorem turns_append (history : List Term) (first second : List Diagnostic) :
    turns enclosing maxDepth history (first ++ second) =
      turns enclosing maxDepth history first ++
        turns enclosing maxDepth (history ++ first.map (·.failedShape)) second := by
  induction first generalizing history with
  | nil => simp [turns]
  | cons diagnostic rest inductionHypothesis =>
    rw [List.cons_append, turns_cons, turns_cons, inductionHypothesis, List.cons_append,
      List.map_cons, List.append_assoc, List.singleton_append]

namespace IndexedAggregation

/-! ## One batch -/

theorem add_eq (aggregation : IndexedAggregation) (resolver : Resolver) (diagnostic : Diagnostic) :
    add enclosing (aggregation, resolver) diagnostic =
      let verdict : Verdict :=
        ⟨diagnostic, (resolver.resolve enclosing diagnostic.failedShape).1⟩
      (⟨(aggregation.grouping.insert verdict.attribution).1,
        aggregation.failures ++ verdict.failure?.toList⟩,
        (resolver.resolve enclosing diagnostic.failedShape).2) := by
  cases resolved : resolver.resolve enclosing diagnostic.failedShape with
  | mk answer next =>
    cases answer <;> simp [add, resolved, Verdict.attribution, Verdict.failure?]

/-- The diagnostics are attributed in their turn, and those that fail are listed. -/
theorem foldl_add (batch : List Diagnostic) (history : List Term)
    (aggregation : IndexedAggregation) :
    batch.foldl (add enclosing) (aggregation, Resolver.after enclosing maxDepth history) =
      (⟨((turns enclosing maxDepth history batch).map Verdict.attribution).foldl
          (fun grouping attribution => (grouping.insert attribution).1) aggregation.grouping,
        aggregation.failures ++
          (turns enclosing maxDepth history batch).filterMap Verdict.failure?⟩,
        Resolver.after enclosing maxDepth (history ++ batch.map (·.failedShape))) := by
  induction batch generalizing history aggregation with
  | nil => simp [turns]
  | cons diagnostic rest inductionHypothesis =>
    rw [List.foldl_cons, add_eq, ← Resolver.after_concat, inductionHypothesis, turns_cons,
      List.filterMap_cons, List.append_assoc, List.append_assoc]
    cases Verdict.failure? ⟨diagnostic, _⟩ <;> rfl

theorem ofBatch_after (history : List Term) (batch : List Diagnostic) :
    ofBatch enclosing (Resolver.after enclosing maxDepth history) batch =
      (⟨.ofList ((turns enclosing maxDepth history batch).map Verdict.attribution),
        (turns enclosing maxDepth history batch).filterMap Verdict.failure?⟩,
        Resolver.after enclosing maxDepth (history ++ batch.map (·.failedShape))) := by
  rw [ofBatch, foldl_add]
  rfl

/-! ## Batches one after the other -/

theorem resolver_ofBatches (history : List Term) (batches : List (List Diagnostic)) :
    (ofBatches enclosing (Resolver.after enclosing maxDepth history) batches).2 =
      Resolver.after enclosing maxDepth (history ++ batches.flatten.map (·.failedShape)) := by
  induction batches generalizing history with
  | nil => simp [ofBatches]
  | cons batch rest inductionHypothesis =>
    rw [ofBatches, ofBatch_after]
    dsimp only
    rw [inductionHypothesis, List.flatten_cons, List.map_append, List.append_assoc]

theorem failures_ofBatches (history : List Term) (batches : List (List Diagnostic)) :
    (ofBatches enclosing (Resolver.after enclosing maxDepth history) batches).1.flatMap
        (·.failures) =
      (turns enclosing maxDepth history batches.flatten).filterMap Verdict.failure? := by
  induction batches generalizing history with
  | nil => simp [ofBatches, turns]
  | cons batch rest inductionHypothesis =>
    rw [ofBatches, ofBatch_after]
    dsimp only
    rw [List.flatMap_cons, inductionHypothesis, List.flatten_cons, turns_append,
      List.filterMap_append]

theorem holds_ofBatches (history : List Term) (batches : List (List Diagnostic))
    (attribution : Attribution) :
    (∃ part ∈ (ofBatches enclosing (Resolver.after enclosing maxDepth history) batches).1,
        part.grouping.Holds attribution) ↔
      attribution ∈ (turns enclosing maxDepth history batches.flatten).map Verdict.attribution := by
  induction batches generalizing history with
  | nil => simp [ofBatches, turns]
  | cons batch rest inductionHypothesis =>
    rw [ofBatches, ofBatch_after]
    dsimp only
    rw [List.exists_mem_cons_iff, inductionHypothesis, IndexedGrouping.holds_ofList,
      List.flatten_cons, turns_append, List.map_append, List.mem_append]

/-! ## The set of attributions -/

/-- Over maps, a batch comes to the same as over the set of attributions. -/
theorem foldl_add_describes (batch : List Diagnostic) (resolver : Resolver)
    {stored : IndexedAggregation} {plain : Aggregation}
    (describes : stored.grouping.Describes plain.grouping)
    (sameFailures : stored.failures = plain.failures) :
    (batch.foldl (add enclosing) (stored, resolver)).1.grouping.Describes
        (batch.foldl (Aggregation.add enclosing) (plain, resolver)).1.grouping ∧
      (batch.foldl (add enclosing) (stored, resolver)).1.failures =
        (batch.foldl (Aggregation.add enclosing) (plain, resolver)).1.failures := by
  induction batch generalizing resolver stored plain with
  | nil => exact ⟨describes, sameFailures⟩
  | cons diagnostic rest inductionHypothesis =>
    rw [List.foldl_cons, List.foldl_cons, add_eq, Aggregation.add_eq]
    refine inductionHypothesis _ (describes.insert _) ?_
    dsimp only
    rw [sameFailures]

/-! ## What a batch comes to -/

/-- A batch loses and invents nothing: its attributions and failures are those of its turns, every
diagnostic is resolved once, and it does not matter how the batch is cut into parts. -/
structure AggregatesAll (enclosing : Term → List Term) (resolver : Resolver)
    (verdicts : List Verdict) (batch : List Diagnostic) (result : IndexedAggregation × Resolver) :
    Prop where
  grouped : ∀ shape focus reason, result.1.grouping.Holds ⟨shape, focus, reason⟩ ↔
    ∃ verdict ∈ verdicts, verdict.diagnostic.focus = focus ∧ verdict.diagnostic.reason = reason ∧
      (verdict.answer = .ok shape ∨ ∃ error, verdict.answer = .error ⟨shape, error⟩)
  failures : result.1.failures = verdicts.filterMap Verdict.failure?
  wellKept : result.1.grouping.WellKept
  calls : result.2.hits + result.2.misses = resolver.hits + resolver.misses + batch.length
  cut : ∀ parts : List (List Diagnostic), parts.flatten = batch →
    (∀ attribution, result.1.grouping.Holds attribution ↔
      ∃ part ∈ (ofBatches enclosing resolver parts).1, part.grouping.Holds attribution) ∧
    result.1.failures = (ofBatches enclosing resolver parts).1.flatMap (·.failures) ∧
    result.2 = (ofBatches enclosing resolver parts).2
  plain : result.1.grouping.Describes (Aggregation.ofBatch enclosing resolver batch).1.grouping ∧
    result.1.failures = (Aggregation.ofBatch enclosing resolver batch).1.failures

theorem attribution_eq_iff {verdict : Verdict} {shape focus : Term} {reason : String} :
    verdict.attribution = ⟨shape, focus, reason⟩ ↔
      verdict.diagnostic.focus = focus ∧ verdict.diagnostic.reason = reason ∧
        (verdict.answer = .ok shape ∨ ∃ error, verdict.answer = .error ⟨shape, error⟩) := by
  obtain ⟨diagnostic, answer⟩ := verdict
  cases answer with
  | ok origin =>
    simp only [Verdict.attribution, Attribution.mk.injEq, Except.ok.injEq, reduceCtorEq,
      exists_false, or_false]
    tauto
  | error unresolved =>
    obtain ⟨lastKnown, error⟩ := unresolved
    simp only [Verdict.attribution, Attribution.mk.injEq, reduceCtorEq, Except.error.injEq,
      Unresolved.mk.injEq, exists_and_left, exists_eq', and_true, false_or]
    tauto

theorem aggregatesAll_after (history : List Term) (batch : List Diagnostic) :
    AggregatesAll enclosing (.after enclosing maxDepth history)
      (turns enclosing maxDepth history batch) batch
      (ofBatch enclosing (.after enclosing maxDepth history) batch) where
  grouped shape focus reason := by
    rw [ofBatch_after, IndexedGrouping.holds_ofList, List.mem_map]
    simp only [attribution_eq_iff]
  failures := by
    rw [ofBatch_after]
  wellKept := by
    rw [ofBatch_after]
    exact (IndexedGrouping.noneEmpty_ofList _).wellKept
  calls := by
    rw [ofBatch_after]
    have counted := Resolver.calls_after enclosing maxDepth history
      (batch.map (·.failedShape))
    rwa [List.length_map] at counted
  cut parts isBatch := by
    subst isBatch
    rw [ofBatch_after, failures_ofBatches, resolver_ofBatches]
    refine ⟨fun attribution => ?_, rfl, rfl⟩
    rw [holds_ofBatches, IndexedGrouping.holds_ofList]
  plain := foldl_add_describes batch _ IndexedGrouping.describes_empty rfl

/-- However its groupings are filled, they are well kept, and whatever batches came before, the next
one loses and invents nothing. -/
theorem aggregatesAll (enclosing : Term → List Term) (maxDepth : Nat) :
    (∀ attributions, (IndexedGrouping.ofList attributions).WellKept) ∧
    ∀ (earlier : List (List Diagnostic)) (batch : List Diagnostic),
      AggregatesAll enclosing (ofBatches enclosing (.new maxDepth) earlier).2
        (turns enclosing maxDepth (earlier.flatten.map (·.failedShape)) batch) batch
        (ofBatch enclosing (ofBatches enclosing (.new maxDepth) earlier).2 batch) := by
  refine ⟨fun attributions => (IndexedGrouping.noneEmpty_ofList attributions).wellKept,
    fun earlier batch => ?_⟩
  have resolver : (ofBatches enclosing (.new maxDepth) earlier).2 =
      Resolver.after enclosing maxDepth (earlier.flatten.map (·.failedShape)) :=
    resolver_ofBatches [] earlier
  rw [resolver]
  exact aggregatesAll_after _ batch

end IndexedAggregation

end BuildingRules
