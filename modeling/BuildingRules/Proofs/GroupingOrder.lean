import BuildingRules.Proofs.Resolution
import BuildingRules.Shape.Enclosure
import BuildingRules.Shape.Grouping

/-!
# The order of diagnostics

A walk that is too long is cut off, unless an earlier and shorter one has left something to meet. So
what a diagnostic is attributed to may depend on those before it, and a batch comes to the same in
every order exactly when none of its walks helps another so: `same_in_every_order_iff`.
-/

set_option autoImplicit false

namespace BuildingRules

variable {enclosing : Term → List Term}

theorem CutOffAfter.unique {steps : Nat} {shape : Term} {left right : Except Unresolved Term}
    (leftCut : CutOffAfter enclosing steps shape left)
    (rightCut : CutOffAfter enclosing steps shape right) : left = right := by
  obtain ⟨lastKnown, arrives, rfl⟩ := leftCut
  obtain ⟨other, otherArrives, rfl⟩ := rightCut
  obtain rfl := Option.some.inj (arrives.symm.trans otherArrives)
  rfl

/-- The walk from `long` goes on over the limit but meets within it the walk from `short`, which
does not. -/
structure Rescues (enclosing : Term → List Term) (limit : Nat) (short long : Term) : Prop where
  short_ends : ∃ count ≤ limit, ∃ origin, EndsAfter enclosing count short origin
  long_ends : ∃ count origin, limit < count ∧ EndsAfter enclosing count long origin
  meets : ∃ early ≤ limit, ∃ late met,
    outward enclosing early long = some met ∧ outward enclosing late short = some met

namespace Resolver

variable {maxDepth : Nat} {resolver : Resolver}

/-! ## Answers of a new resolver -/

theorem isKnown_new (maxDepth : Nat) (shape : Term) : (new maxDepth).isKnown shape = false := by
  rw [isKnown_eq_false_iff, new, Std.ExtTreeMap.getElem?_empty]

theorem not_meetsKnown_new (enclosing : Term → List Term) (maxDepth : Nat) (shape : Term) :
    ¬(new maxDepth).MeetsKnown enclosing maxDepth shape := by
  intro meets
  obtain ⟨_, _, met, _, isKnown⟩ := meets
  rw [isKnown_new] at isKnown
  contradiction

/-- What is remembered makes a difference only to a walk over the limit. -/
theorem Sound.resolve_eq_new (sound : resolver.Sound enclosing maxDepth) {shape : Term}
    (noHelp : ∀ count origin, EndsAfter enclosing count shape origin → maxDepth < count →
      ¬resolver.MeetsKnown enclosing maxDepth shape) :
    (resolver.resolve enclosing shape).1 = ((new maxDepth).resolve enclosing shape).1 := by
  have correct := sound.correct
  have correctNew := (sound_new enclosing maxDepth).correct
  -- both are correct, and apart from what is remembered that settles the answer
  by_cases ends : ∃ count origin, EndsAfter enclosing count shape origin
  · obtain ⟨count, origin, ends⟩ := ends
    rcases Nat.lt_or_ge maxDepth count with isLong | isShort
    · have answerCut := correct.answers_long_unknown _ _ _ ends isLong (noHelp _ _ ends isLong)
      have newCut := correctNew.answers_long_unknown _ _ _ ends isLong (not_meetsKnown_new _ _ _)
      exact answerCut.unique newCut
    · rw [correct.answers_short _ _ _ ends isShort, correctNew.answers_short _ _ _ ends isShort]
  · have noEnd : ∀ count origin, ¬EndsAfter enclosing count shape origin :=
      fun count origin isEnd => ends ⟨count, origin, isEnd⟩
    by_cases returns : ∃ count, ReturnsAfter enclosing count shape
    · obtain ⟨_, returns⟩ := returns
      exact (correct.answers_returning _ _ returns).unique (correctNew.answers_returning _ _ returns)
    · have noReturn : ∀ count, ¬ReturnsAfter enclosing count shape :=
        fun count isReturn => returns ⟨count, isReturn⟩
      exact (correct.answers_endless _ noEnd noReturn).unique
        (correctNew.answers_endless _ noEnd noReturn)

theorem endsAfter_of_new_answer {shape origin : Term}
    (answered : ((new maxDepth).resolve enclosing shape).1 = .ok origin) :
    ∃ count ≤ maxDepth, EndsAfter enclosing count shape origin := by
  have sound := sound_new enclosing maxDepth
  obtain ⟨count, ends⟩ := sound.endsAfter answered
  refine ⟨count, ?_, ends⟩
  apply Nat.le_of_not_lt
  intro isLong
  obtain ⟨_, _, isError⟩ :=
    sound.correct.answers_long_unknown _ _ _ ends isLong (not_meetsKnown_new _ _ _)
  rw [answered] at isError
  contradiction

/-! ## What is remembered -/

theorem Sound.isKnown_of_answer (sound : resolver.Sound enclosing maxDepth) {shape origin : Term}
    (answered : (resolver.resolve enclosing shape).1 = .ok origin) {known : Term} :
    (resolver.resolve enclosing shape).2.isKnown known = true ↔
      resolver.isKnown known = true ∨ resolver.Walks enclosing shape known := by
  simp only [isKnown_iff, sound.learns_walk answered]
  constructor
  · intro found
    obtain ⟨value, isKnown | ⟨walks, _⟩⟩ := found
    · exact .inl ⟨value, isKnown⟩
    · exact .inr walks
  · intro found
    rcases found with ⟨value, isKnown⟩ | walks
    · exact ⟨value, .inl isKnown⟩
    · exact ⟨origin, .inr ⟨walks, rfl⟩⟩

theorem Sound.isKnown_of_error (sound : resolver.Sound enclosing maxDepth) {shape : Term}
    {unresolved : Unresolved}
    (answered : (resolver.resolve enclosing shape).1 = .error unresolved) (known : Term) :
    (resolver.resolve enclosing shape).2.isKnown known = resolver.isKnown known := by
  rw [isKnown, isKnown, sound.correct.learns_nothing _ _ answered]

theorem Sound.isKnown_resolve (sound : resolver.Sound enclosing maxDepth) (shape : Term)
    {known : Term} (isKnown : resolver.isKnown known = true) :
    (resolver.resolve enclosing shape).2.isKnown known = true := by
  cases answered : (resolver.resolve enclosing shape).1 with
  | ok origin => exact (sound.isKnown_of_answer answered).2 (.inl isKnown)
  | error unresolved => rw [sound.isKnown_of_error answered, isKnown]

theorem walks_new {count : Nat} {shape met : Term} (arrives : outward enclosing count shape = some met) :
    (new maxDepth).Walks enclosing shape met :=
  ⟨count, arrives, fun _ _ before _ => isKnown_new maxDepth before⟩

end Resolver

/-! ## Verdicts -/

structure Verdict where
  diagnostic : Diagnostic
  answer : Except Unresolved Term

namespace Verdict

def attribution (verdict : Verdict) : Attribution where
  shape :=
    match verdict.answer with
    | .ok origin => origin
    | .error unresolved => unresolved.lastKnown
  focus := verdict.diagnostic.focus
  reason := verdict.diagnostic.reason

def failure? (verdict : Verdict) : Option ResolutionFailure :=
  match verdict.answer with
  | .ok _ => none
  | .error unresolved => some ⟨verdict.diagnostic, unresolved⟩

end Verdict

namespace Aggregation

def verdicts (enclosing : Term → List Term) : Resolver → List Diagnostic → List Verdict
  | _, [] => []
  | resolver, diagnostic :: rest =>
    ⟨diagnostic, (resolver.resolve enclosing diagnostic.failedShape).1⟩ ::
      verdicts enclosing (resolver.resolve enclosing diagnostic.failedShape).2 rest

theorem add_eq (aggregation : Aggregation) (resolver : Resolver) (diagnostic : Diagnostic) :
    add enclosing (aggregation, resolver) diagnostic =
      let verdict : Verdict :=
        ⟨diagnostic, (resolver.resolve enclosing diagnostic.failedShape).1⟩
      (⟨(aggregation.grouping.insert verdict.attribution).1,
        aggregation.failures ++ verdict.failure?.toList⟩,
        (resolver.resolve enclosing diagnostic.failedShape).2) := by
  cases resolved : resolver.resolve enclosing diagnostic.failedShape with
  | mk answer next =>
      cases answer <;> simp [add, resolved, Verdict.attribution, Verdict.failure?]

theorem failures_foldl_add (aggregation : Aggregation) (resolver : Resolver)
    (batch : List Diagnostic) :
    (batch.foldl (add enclosing) (aggregation, resolver)).1.failures =
      aggregation.failures ++ (verdicts enclosing resolver batch).filterMap Verdict.failure? := by
  induction batch generalizing aggregation resolver with
  | nil => simp [verdicts]
  | cons diagnostic rest inductionHypothesis =>
      rw [List.foldl_cons, add_eq, inductionHypothesis, verdicts, List.filterMap_cons,
        List.append_assoc]
      cases Verdict.failure? ⟨diagnostic, (resolver.resolve enclosing diagnostic.failedShape).1⟩ <;>
        rfl

theorem mem_grouping_foldl_add (aggregation : Aggregation) (resolver : Resolver)
    (batch : List Diagnostic) (attribution : Attribution) :
    attribution ∈ (batch.foldl (add enclosing) (aggregation, resolver)).1.grouping.attributions ↔
      attribution ∈ aggregation.grouping.attributions ∨
      ∃ verdict ∈ verdicts enclosing resolver batch, verdict.attribution = attribution := by
  induction batch generalizing aggregation resolver with
  | nil => simp [verdicts]
  | cons diagnostic rest inductionHypothesis =>
      rw [List.foldl_cons, add_eq, inductionHypothesis, verdicts, Grouping.insert]
      simp only [Std.ExtTreeSet.mem_insert, Std.LawfulEqCmp.compare_eq_iff_eq, List.mem_cons,
        exists_eq_or_imp]
      rw [or_assoc, or_left_comm]

theorem same_of_verdicts_perm {resolver : Resolver} {left right : List Diagnostic}
    (same : (verdicts enclosing resolver left).Perm (verdicts enclosing resolver right)) :
    (ofBatch enclosing resolver left).1.grouping = (ofBatch enclosing resolver right).1.grouping ∧
    (ofBatch enclosing resolver left).1.failures.Perm
      (ofBatch enclosing resolver right).1.failures := by
  constructor
  · apply Grouping.ext
    apply Std.ExtTreeSet.ext_mem
    intro attribution
    simp only [ofBatch, mem_grouping_foldl_add, same.mem_iff]
  · simp only [ofBatch, failures_foldl_add]
    exact (same.filterMap Verdict.failure?).append_left _

/-! ## Independent diagnostics -/

/-- No walk of the batch rescues another. -/
def Independent (enclosing : Term → List Term) (maxDepth : Nat) (batch : List Diagnostic) : Prop :=
  ∀ short ∈ batch, ∀ long ∈ batch,
    ¬Rescues enclosing maxDepth short.failedShape long.failedShape

/-- The invariant of a run over independent diagnostics: what is remembered is of walks that end
within the limit. -/
structure Learnt (enclosing : Term → List Term) (maxDepth : Nat) (batch : List Diagnostic)
    (resolver : Resolver) : Prop where
  sound : resolver.Sound enclosing maxDepth
  of_short : ∀ shape, resolver.isKnown shape = true → ∃ diagnostic ∈ batch,
    (∃ count ≤ maxDepth, ∃ origin, EndsAfter enclosing count diagnostic.failedShape origin) ∧
    ∃ late, outward enclosing late diagnostic.failedShape = some shape

theorem learnt_new (enclosing : Term → List Term) (maxDepth : Nat) (batch : List Diagnostic) :
    Learnt enclosing maxDepth batch (.new maxDepth) := by
  refine ⟨Resolver.sound_new enclosing maxDepth, fun shape isKnown => ?_⟩
  rw [Resolver.isKnown_new] at isKnown
  contradiction

section

variable {maxDepth : Nat} {batch : List Diagnostic}

theorem Learnt.answer_eq_new {resolver : Resolver}
    (learnt : Learnt enclosing maxDepth batch resolver)
    (independent : Independent enclosing maxDepth batch) {diagnostic : Diagnostic}
    (member : diagnostic ∈ batch) :
    (resolver.resolve enclosing diagnostic.failedShape).1 =
      ((Resolver.new maxDepth).resolve enclosing diagnostic.failedShape).1 := by
  apply learnt.sound.resolve_eq_new
  intro count origin ends isLong meets
  obtain ⟨early, inTime, met, arrives, isKnown⟩ := meets
  obtain ⟨short, shortMember, shortEnds, late, shortArrives⟩ := learnt.of_short met isKnown
  exact independent short shortMember diagnostic member
    ⟨shortEnds, ⟨count, origin, isLong, ends⟩, early, inTime, late, met, arrives, shortArrives⟩

theorem Learnt.resolve {resolver : Resolver} (learnt : Learnt enclosing maxDepth batch resolver)
    (independent : Independent enclosing maxDepth batch) {diagnostic : Diagnostic}
    (member : diagnostic ∈ batch) :
    Learnt enclosing maxDepth batch
      (resolver.resolve enclosing diagnostic.failedShape).2 := by
  refine ⟨learnt.sound.resolve _, fun shape isKnown => ?_⟩
  cases answered : (resolver.resolve enclosing diagnostic.failedShape).1 with
  | error unresolved =>
      rw [learnt.sound.isKnown_of_error answered] at isKnown
      exact learnt.of_short shape isKnown
  | ok origin =>
      rcases (learnt.sound.isKnown_of_answer answered).1 isKnown with wasKnown | walks
      · exact learnt.of_short shape wasKnown
      · rw [learnt.answer_eq_new independent member] at answered
        obtain ⟨count, inTime, ends⟩ := Resolver.endsAfter_of_new_answer answered
        obtain ⟨steps, arrives, _⟩ := walks
        exact ⟨diagnostic, member, ⟨count, inTime, origin, ends⟩, steps, arrives⟩

/-- On independent diagnostics, a resolver answers as if each were the first. -/
theorem verdicts_eq_map (independent : Independent enclosing maxDepth batch)
    (part : List Diagnostic) (within : ∀ diagnostic ∈ part, diagnostic ∈ batch)
    {resolver : Resolver} (learnt : Learnt enclosing maxDepth batch resolver) :
    verdicts enclosing resolver part = part.map fun diagnostic =>
      ⟨diagnostic, ((Resolver.new maxDepth).resolve enclosing diagnostic.failedShape).1⟩ := by
  induction part generalizing resolver with
  | nil => rfl
  | cons diagnostic rest inductionHypothesis =>
      have member := within diagnostic List.mem_cons_self
      rw [verdicts, List.map_cons, learnt.answer_eq_new independent member,
        inductionHypothesis (fun other isRest => within other (List.mem_cons_of_mem _ isRest))
          (learnt.resolve independent member)]

theorem verdicts_perm (independent : Independent enclosing maxDepth batch)
    {permuted : List Diagnostic} (perm : batch.Perm permuted) :
    (verdicts enclosing (.new maxDepth) batch).Perm
      (verdicts enclosing (.new maxDepth) permuted) := by
  have learnt := learnt_new enclosing maxDepth batch
  rw [verdicts_eq_map independent batch (fun _ member => member) learnt,
    verdicts_eq_map independent permuted (fun _ member => perm.mem_iff.2 member) learnt]
  exact perm.map _

/-! ## Diagnostics that are rescued -/

/-- Once its walk meets a shape of known origin, a diagnostic never fails. -/
theorem not_failed_of_meetsKnown {resolver : Resolver} (sound : resolver.Sound enclosing maxDepth)
    {diagnostic : Diagnostic} {count : Nat} {origin : Term}
    (ends : EndsAfter enclosing count diagnostic.failedShape origin)
    (meets : resolver.MeetsKnown enclosing maxDepth diagnostic.failedShape) (rest : List Diagnostic) :
    ∀ failure ∈ (verdicts enclosing resolver rest).filterMap Verdict.failure?,
      failure.diagnostic ≠ diagnostic := by
  induction rest generalizing resolver with
  | nil => simp [verdicts]
  | cons first rest inductionHypothesis =>
      have meetsLater : (resolver.resolve enclosing first.failedShape).2.MeetsKnown enclosing
          maxDepth diagnostic.failedShape := by
        obtain ⟨early, inTime, met, arrives, isKnown⟩ := meets
        exact ⟨early, inTime, met, arrives, sound.isKnown_resolve first.failedShape isKnown⟩
      have restOk := inductionHypothesis (sound.resolve first.failedShape) meetsLater
      have answered : (resolver.resolve enclosing diagnostic.failedShape).1 = .ok origin := by
        rcases Nat.lt_or_ge maxDepth count with isLong | isShort
        · exact sound.correct.answers_long_known _ _ _ ends isLong meets
        · exact sound.correct.answers_short _ _ _ ends isShort
      intro failure member isDiagnostic
      rw [verdicts, List.filterMap_cons] at member
      cases firstAnswer : (resolver.resolve enclosing first.failedShape).1 with
      | ok found =>
          rw [firstAnswer] at member
          exact restOk failure member isDiagnostic
      | error unresolved =>
          rw [firstAnswer] at member
          rcases List.mem_cons.1 member with rfl | isRest
          · have isFirst : first = diagnostic := isDiagnostic
            rw [isFirst, answered] at firstAnswer
            contradiction
          · exact restOk failure isRest isDiagnostic

theorem failed_of_first {long : Diagnostic} {rest : List Diagnostic} {count : Nat} {origin : Term}
    (isLong : maxDepth < count) (ends : EndsAfter enclosing count long.failedShape origin) :
    ∃ failure ∈ (ofBatch enclosing (.new maxDepth) (long :: rest)).1.failures,
      failure.diagnostic = long := by
  obtain ⟨lastKnown, _, isError⟩ :=
    (Resolver.sound_new enclosing maxDepth).correct.answers_long_unknown _ _ _ ends isLong
      (Resolver.not_meetsKnown_new _ _ _)
  rw [ofBatch, failures_foldl_add, verdicts, isError]
  exact ⟨_, List.mem_append_right _ List.mem_cons_self, rfl⟩

theorem not_failed_of_rescued {short long : Diagnostic}
    (rescues : Rescues enclosing maxDepth short.failedShape long.failedShape)
    (rest : List Diagnostic) :
    ∀ failure ∈ (ofBatch enclosing (.new maxDepth) (short :: rest)).1.failures,
      failure.diagnostic ≠ long := by
  have sound := Resolver.sound_new enclosing maxDepth
  obtain ⟨_, inTime, shortOrigin, shortEnds⟩ := rescues.short_ends
  obtain ⟨_, _, _, longEnds⟩ := rescues.long_ends
  obtain ⟨early, isEarly, late, met, longArrives, shortArrives⟩ := rescues.meets
  have answered := sound.correct.answers_short _ _ _ shortEnds inTime
  have isKnown := (sound.isKnown_of_answer answered).2 (.inr (Resolver.walks_new shortArrives))
  have restOk := not_failed_of_meetsKnown (sound.resolve short.failedShape) longEnds
    ⟨early, isEarly, met, longArrives, isKnown⟩ rest
  rw [ofBatch, failures_foldl_add, verdicts, answered]
  intro failure member
  exact restOk failure member

/-- Of a diagnostic and one that it rescues, both have its origin if it comes first, and the other
fails if it comes second. -/
theorem verdicts_pair_of_rescues {short long : Diagnostic}
    (rescues : Rescues enclosing maxDepth short.failedShape long.failedShape) :
    ∃ origin lastKnown, outward enclosing maxDepth long.failedShape = some lastKnown ∧
      enclosing origin = [] ∧
      verdicts enclosing (.new maxDepth) [short, long] = [⟨short, .ok origin⟩, ⟨long, .ok origin⟩] ∧
      verdicts enclosing (.new maxDepth) [long, short] =
        [⟨long, .error ⟨lastKnown, .of (.resolutionLoop lastKnown.display maxDepth)⟩⟩,
          ⟨short, .ok origin⟩] := by
  have sound := Resolver.sound_new enclosing maxDepth
  obtain ⟨_, inTime, origin, shortEnds⟩ := rescues.short_ends
  obtain ⟨_, longOrigin, isLong, longEnds⟩ := rescues.long_ends
  obtain ⟨early, isEarly, late, met, longArrives, shortArrives⟩ := rescues.meets
  obtain rfl : origin = longOrigin :=
    ((shortEnds.from_met shortArrives).2.unique (longEnds.from_met longArrives).2).2
  have shortFirst := sound.correct.answers_short _ _ _ shortEnds inTime
  have shortSecond :=
    (sound.resolve long.failedShape).correct.answers_short _ _ _ shortEnds inTime
  have isKnown := (sound.isKnown_of_answer shortFirst).2 (.inr (Resolver.walks_new shortArrives))
  have longSecond := (sound.resolve short.failedShape).correct.answers_long_known _ _ _ longEnds
    isLong ⟨early, isEarly, met, longArrives, isKnown⟩
  obtain ⟨lastKnown, arrives, longFirst⟩ := sound.correct.answers_long_unknown _ _ _ longEnds isLong
    (Resolver.not_meetsKnown_new _ _ _)
  refine ⟨origin, lastKnown, arrives, shortEnds.outermost, ?_, ?_⟩
  · rw [verdicts, verdicts, verdicts, shortFirst, longSecond]
  · rw [verdicts, verdicts, verdicts, longFirst, shortSecond]

theorem independent_of_same_in_every_order
    (same : ∀ permuted, batch.Perm permuted →
      (ofBatch enclosing (.new maxDepth) batch).1.failures.Perm
        (ofBatch enclosing (.new maxDepth) permuted).1.failures) :
    Independent enclosing maxDepth batch := by
  intro short shortMember long longMember rescues
  obtain ⟨_, _, isLong, longEnds⟩ := rescues.long_ends
  have different : short ≠ long := by
    intro isSame
    obtain ⟨_, inTime, _, shortEnds⟩ := rescues.short_ends
    rw [isSame] at shortEnds
    have sameCount := (longEnds.unique shortEnds).1
    omega
  -- with `long` first it fails, and with `short` before it it does not
  have shortInRest : short ∈ batch.erase long := (List.mem_erase_of_ne different).2 shortMember
  have longFirst : batch.Perm (long :: batch.erase long) := List.perm_cons_erase longMember
  have shortFirst : batch.Perm (short :: long :: (batch.erase long).erase short) :=
    (longFirst.trans ((List.perm_cons_erase shortInRest).cons long)).trans (List.Perm.swap _ _ _)
  obtain ⟨failure, isFailure, isLongs⟩ := failed_of_first isLong longEnds
  have isFailureToo := ((same _ longFirst).symm.trans (same _ shortFirst)).mem_iff.1 isFailure
  exact not_failed_of_rescued rescues _ failure isFailureToo isLongs

end

/-- A batch comes to the same grouping and the same failures in every order exactly when none of
its walks is over the limit and meets within it one that is not. -/
theorem same_in_every_order_iff (enclosing : Term → List Term) (maxDepth : Nat)
    (batch : List Diagnostic) :
    (∀ permuted, batch.Perm permuted →
      (ofBatch enclosing (.new maxDepth) batch).1.grouping =
        (ofBatch enclosing (.new maxDepth) permuted).1.grouping ∧
      (ofBatch enclosing (.new maxDepth) batch).1.failures.Perm
        (ofBatch enclosing (.new maxDepth) permuted).1.failures) ↔
      Independent enclosing maxDepth batch := by
  constructor
  · intro same
    exact independent_of_same_in_every_order fun permuted perm => (same permuted perm).2
  · intro independent permuted perm
    exact same_of_verdicts_perm (verdicts_perm independent perm)

/-- Of three shapes, the first encloses the second, and the second the third. -/
def nestedShapes : Graph :=
  ⟨.ofList [⟨.iri ⟨"urn:shape/A"⟩, Vocabulary.shNode, .iri ⟨"urn:shape/B"⟩⟩,
    ⟨.iri ⟨"urn:shape/B"⟩, Vocabulary.shNode, .iri ⟨"urn:shape/C"⟩⟩] compare⟩

def innerDiagnostic : Diagnostic := ⟨.iri ⟨"urn:x"⟩, .iri ⟨"urn:shape/C"⟩, "inner"⟩

def outerDiagnostic : Diagnostic := ⟨.iri ⟨"urn:x"⟩, .iri ⟨"urn:shape/B"⟩, "outer"⟩

theorem least?_enclosing_nestedShapes :
    least? (nestedShapes.enclosingShapes (.iri ⟨"urn:shape/C"⟩)) = some (.iri ⟨"urn:shape/B"⟩) ∧
    least? (nestedShapes.enclosingShapes (.iri ⟨"urn:shape/B"⟩)) = some (.iri ⟨"urn:shape/A"⟩) := by
  rw [least?_eq_head?, least?_eq_head?]
  decide +kernel

theorem rescues_nestedShapes :
    Rescues nestedShapes.enclosingShapes 1 outerDiagnostic.failedShape
      innerDiagnostic.failedShape where
  short_ends := by
    refine ⟨1, Nat.le_refl 1, .iri ⟨"urn:shape/A"⟩, ?_, by decide +kernel⟩
    simp only [outward, outerDiagnostic, least?_enclosing_nestedShapes, Option.bind_some]
  long_ends := by
    refine ⟨2, .iri ⟨"urn:shape/A"⟩, Nat.lt_succ_self 1, ?_, by decide +kernel⟩
    simp only [outward, innerDiagnostic, least?_enclosing_nestedShapes, Option.bind_some]
  meets := by
    refine ⟨1, Nat.le_refl 1, 0, .iri ⟨"urn:shape/B"⟩, ?_, rfl⟩
    simp only [outward, innerDiagnostic, least?_enclosing_nestedShapes, Option.bind_some]

/-- With one step to go, the third shape fails if it comes first, and not if the second does. -/
theorem order_matters_among_nestedShapes :
    [outerDiagnostic, innerDiagnostic].Perm [innerDiagnostic, outerDiagnostic] ∧
    (ofBatch nestedShapes.enclosingShapes (.new 1)
        [outerDiagnostic, innerDiagnostic]).1.grouping ≠
      (ofBatch nestedShapes.enclosingShapes (.new 1)
        [innerDiagnostic, outerDiagnostic]).1.grouping ∧
    (ofBatch nestedShapes.enclosingShapes (.new 1)
      [outerDiagnostic, innerDiagnostic]).1.failures = [] ∧
    (ofBatch nestedShapes.enclosingShapes (.new 1)
      [innerDiagnostic, outerDiagnostic]).1.failures =
        [⟨innerDiagnostic, .iri ⟨"urn:shape/B"⟩, .of (.resolutionLoop "urn:shape/B" 1)⟩] := by
  obtain ⟨origin, lastKnown, arrives, outermost, shortFirst, longFirst⟩ :=
    verdicts_pair_of_rescues rescues_nestedShapes
  obtain rfl : lastKnown = .iri ⟨"urn:shape/B"⟩ := by
    simp only [outward, innerDiagnostic, least?_enclosing_nestedShapes, Option.bind_some,
      Option.some.injEq] at arrives
    exact arrives.symm
  refine ⟨.swap _ _ _, ?_, ?_, ?_⟩
  · intro same
    have attributed : ⟨.iri ⟨"urn:shape/B"⟩, .iri ⟨"urn:x"⟩, "inner"⟩ ∈
        (ofBatch nestedShapes.enclosingShapes (.new 1)
          [outerDiagnostic, innerDiagnostic]).1.grouping.attributions := by
      rw [same, ofBatch, mem_grouping_foldl_add, longFirst]
      exact .inr ⟨_, List.mem_cons_self, rfl⟩
    rw [ofBatch, mem_grouping_foldl_add, shortFirst] at attributed
    have toOrigin : origin = .iri ⟨"urn:shape/B"⟩ := by
      simpa [empty, Grouping.empty, Verdict.attribution, outerDiagnostic, innerDiagnostic]
        using attributed
    rw [toOrigin, ← least?_eq_none_iff, least?_enclosing_nestedShapes.2] at outermost
    contradiction
  · rw [ofBatch, failures_foldl_add, shortFirst]
    rfl
  · rw [ofBatch, failures_foldl_add, longFirst]
    rfl

end Aggregation

end BuildingRules
