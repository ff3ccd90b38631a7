import BuildingRules.Proofs.ShapeWalks

/-!
# What a resolver answers

Whatever was searched before, a resolver remembers only where walks end. So it answers where the
walk from a shape ends, if it ends within the limit or meets a remembered shape within it, and else
where it was cut off: `correct_after`.
-/

set_option autoImplicit false

namespace BuildingRules

variable {enclosing : Term → List Term}

def Origins.Sound (enclosing : Term → List Term) (origins : Origins) : Prop :=
  ∀ shape origin, origins[shape]? = some origin → ∃ count, EndsAfter enclosing count shape origin

/-- The answer says that the walk from a shape was cut off after a number of steps, and where. -/
def CutOffAfter (enclosing : Term → List Term) (steps : Nat) (shape : Term)
    (answer : Except Unresolved Term) : Prop :=
  ∃ lastKnown, outward enclosing steps shape = some lastKnown ∧
    answer = .error ⟨lastKnown, .of (.resolutionLoop lastKnown.display steps)⟩

namespace Walk

def answer (walk : Walk) : Except Unresolved Term :=
  match walk.ending with
  | .known origin => .ok origin
  | .outermost => .ok walk.last
  | .cutOff => .error (.ofWalk walk)

namespace Taken

variable {origins : Origins} {limit : Nat} {start : Term} {walk : Walk}

/-! ## The exits of a walk -/

theorem endsAfter_of_known (taken : Taken enclosing origins limit start walk)
    (sound : origins.Sound enclosing) {origin : Term} (isKnown : walk.ending = .known origin) :
    ∃ count, EndsAfter enclosing count start origin := by
  obtain ⟨count, ends⟩ := sound _ _ (taken.known origin isKnown)
  exact ⟨_, ends.of_met taken.trail.arrives⟩

theorem endsAfter_of_outermost (taken : Taken enclosing origins limit start walk)
    (isOutermost : walk.ending = .outermost) : EndsAfter enclosing walk.steps start walk.last :=
  ⟨taken.trail.arrives, least?_eq_none_iff.1 (taken.outermost isOutermost).2⟩

theorem returnsAfter (taken : Taken enclosing origins limit start walk) {next : Term}
    (isNext : least? (enclosing walk.last) = some next) (isBack : next ∈ walk.met) :
    ReturnsAfter enclosing walk.steps start := by
  refine ⟨fun early late => taken.trail.outward_ne taken.distinct, ?_⟩
  obtain ⟨early, isEarly, isMet⟩ := taken.trail.mem_cons_iff.1 isBack
  refine ⟨early, isEarly, next, isMet, ?_⟩
  rw [← isNext]
  exact outward_succ taken.trail.arrives

/-- A walk that is cut off has used up its steps, with more to come, or has come back. -/
theorem limit_or_returnsAfter (taken : Taken enclosing origins limit start walk)
    (isCutOff : walk.ending = .cutOff) :
    (walk.steps = limit ∧ ∃ next, outward enclosing (walk.steps + 1) start = some next) ∨
      ReturnsAfter enclosing walk.steps start := by
  obtain ⟨_, next, isNext, isLast | isBack⟩ := taken.cutOff isCutOff
  · refine .inl ⟨isLast, next, ?_⟩
    rw [← isNext]
    exact outward_succ taken.trail.arrives
  · exact .inr (taken.returnsAfter isNext isBack)

theorem cutOffAfter (taken : Taken enclosing origins limit start walk)
    (isCutOff : walk.ending = .cutOff) : CutOffAfter enclosing walk.steps start walk.answer := by
  refine ⟨walk.last, taken.trail.arrives, ?_⟩
  rw [answer, isCutOff]
  rfl

theorem steps_le_of_known (taken : Taken enclosing origins limit start walk) {early : Nat}
    {met origin : Term} (isMet : outward enclosing early start = some met)
    (isKnown : origins[met]? = some origin) : walk.steps ≤ early := by
  apply Nat.le_of_not_lt
  intro isEarly
  have isUnknown := taken.unknown met (taken.trail.mem_before_iff.2 ⟨early, isEarly, isMet⟩)
  rw [isKnown] at isUnknown
  contradiction

/-! ## Its answer -/

theorem answer_eq_of_not_cutOff (taken : Taken enclosing origins limit start walk)
    (sound : origins.Sound enclosing) {count : Nat} {origin : Term}
    (ends : EndsAfter enclosing count start origin) (goesOn : walk.ending ≠ .cutOff) :
    walk.answer = .ok origin := by
  unfold answer
  cases leaves : walk.ending with
  | known other =>
      obtain ⟨_, otherEnds⟩ := taken.endsAfter_of_known sound leaves
      rw [(ends.unique otherEnds).2]
  | outermost => rw [(ends.unique (taken.endsAfter_of_outermost leaves)).2]
  | cutOff => contradiction

theorem answer_of_endsAfter (taken : Taken enclosing origins limit start walk)
    (sound : origins.Sound enclosing) {count : Nat} {origin : Term}
    (ends : EndsAfter enclosing count start origin) (inTime : count ≤ limit) :
    walk.answer = .ok origin := by
  apply taken.answer_eq_of_not_cutOff sound ends
  intro isCutOff
  obtain ⟨isLast, next, isNext⟩ | returns := taken.limit_or_returnsAfter isCutOff
  · have noNext := ends.outward_eq_none (show count < walk.steps + 1 by omega)
    rw [isNext] at noNext
    contradiction
  · exact returns.not_endsAfter ends

/-- A remembered shape on the way makes up for the steps that are missing. -/
theorem answer_of_known (taken : Taken enclosing origins limit start walk)
    (sound : origins.Sound enclosing) {count : Nat} {origin : Term}
    (ends : EndsAfter enclosing count start origin) {early : Nat} (inTime : early ≤ limit)
    {met known : Term} (isMet : outward enclosing early start = some met)
    (isKnown : origins[met]? = some known) : walk.answer = .ok origin := by
  apply taken.answer_eq_of_not_cutOff sound ends
  intro isCutOff
  obtain ⟨isLast, _⟩ | returns := taken.limit_or_returnsAfter isCutOff
  · have atLast : early = walk.steps := by
      have notLate := taken.steps_le_of_known isMet isKnown
      omega
    have same : met = walk.last := by
      rw [atLast] at isMet
      exact Option.some.inj (isMet.symm.trans taken.trail.arrives)
    have isUnknown := (taken.cutOff isCutOff).1
    rw [← same, isKnown] at isUnknown
    contradiction
  · exact returns.not_endsAfter ends

theorem cutOffAfter_of_returnsAfter (taken : Taken enclosing origins limit start walk)
    (sound : origins.Sound enclosing) {count : Nat}
    (returns : ReturnsAfter enclosing count start) :
    CutOffAfter enclosing (min limit count) start walk.answer := by
  cases leaves : walk.ending with
  | known origin =>
      obtain ⟨_, ends⟩ := taken.endsAfter_of_known sound leaves
      exact absurd ends returns.not_endsAfter
  | outermost => exact absurd (taken.endsAfter_of_outermost leaves) returns.not_endsAfter
  | cutOff =>
      -- cut off at the limit, it has not come back yet; cut off before, it has come back just there
      have stepsEq : min limit count = walk.steps := by
        have within := taken.within
        have notBack : walk.steps ≤ count := by
          apply Nat.le_of_not_lt
          intro isPast
          obtain ⟨early, isEarly, again, isMet, isAgain⟩ := returns.back
          exact taken.trail.outward_ne taken.distinct (Nat.lt_succ_of_le isEarly) isPast
            (isMet.trans isAgain.symm)
        obtain ⟨isLast, _⟩ | atReturn := taken.limit_or_returnsAfter leaves
        · omega
        · have sameCount := atReturn.unique returns
          omega
      rw [stepsEq]
      exact taken.cutOffAfter leaves

/-- A walk that neither ends nor comes back within the limit, nor meets a remembered shape, is cut
off there. -/
theorem cutOffAfter_limit (taken : Taken enclosing origins limit start walk)
    (noEnd : ∀ count origin, EndsAfter enclosing count start origin → limit < count)
    (noReturn : ∀ count, ¬ReturnsAfter enclosing count start)
    (noKnown : ∀ early ≤ limit, ∀ met, outward enclosing early start = some met →
      origins[met]? = none) :
    CutOffAfter enclosing limit start walk.answer := by
  cases leaves : walk.ending with
  | known origin =>
      have isKnown := taken.known origin leaves
      rw [noKnown _ taken.within _ taken.trail.arrives] at isKnown
      contradiction
  | outermost =>
      have isLate := noEnd _ _ (taken.endsAfter_of_outermost leaves)
      exact absurd taken.within (Nat.not_le_of_lt isLate)
  | cutOff =>
      obtain ⟨isLast, _⟩ | returns := taken.limit_or_returnsAfter leaves
      · rw [← isLast]
        exact taken.cutOffAfter leaves
      · exact absurd returns (noReturn _)

theorem endsAfter_of_answer (taken : Taken enclosing origins limit start walk)
    (sound : origins.Sound enclosing) {origin : Term} (answered : walk.answer = .ok origin) :
    ∃ count, EndsAfter enclosing count start origin := by
  unfold answer at answered
  cases leaves : walk.ending with
  | known other =>
      rw [leaves] at answered
      obtain rfl := Except.ok.inj answered
      exact taken.endsAfter_of_known sound leaves
  | outermost =>
      rw [leaves] at answered
      obtain rfl := Except.ok.inj answered
      exact ⟨_, taken.endsAfter_of_outermost leaves⟩
  | cutOff =>
      rw [leaves] at answered
      contradiction

/-- A walk with an origin has met the shapes of its trail up to the first that was known. -/
theorem mem_met_iff (taken : Taken enclosing origins limit start walk) {origin : Term}
    (answered : walk.answer = .ok origin) {shape : Term} :
    shape ∈ walk.met ↔ ∃ count, outward enclosing count start = some shape ∧
      ∀ early < count, ∀ met, outward enclosing early start = some met → origins[met]? = none := by
  rw [met, taken.trail.mem_cons_iff]
  constructor
  · intro member
    obtain ⟨count, isEarly, isMet⟩ := member
    refine ⟨count, isMet, fun early isEarlier met isBefore => ?_⟩
    exact taken.unknown met (taken.trail.mem_before_iff.2
      ⟨early, Nat.lt_of_lt_of_le isEarlier isEarly, isBefore⟩)
  · intro found
    obtain ⟨count, isMet, allUnknown⟩ := found
    refine ⟨count, ?_, isMet⟩
    apply Nat.le_of_not_lt
    intro isPast
    cases leaves : walk.ending with
    | known other =>
        have isUnknown := allUnknown _ isPast _ taken.trail.arrives
        rw [taken.known other leaves] at isUnknown
        contradiction
    | outermost =>
        rw [(taken.endsAfter_of_outermost leaves).outward_eq_none isPast] at isMet
        contradiction
    | cutOff =>
        rw [answer, leaves] at answered
        contradiction

/-! ## What is asked -/

theorem mem_asked (taken : Taken enclosing origins limit start walk) {shape : Term} :
    shape ∈ walk.asked ↔ shape ∈ walk.met ∧ origins[shape]? = none := by
  rw [taken.asked, List.mem_reverse, List.mem_filter, Option.isNone_iff_eq_none]

/-- A shape within the limit, with none of known origin up to it, is met: a walk that ends before
has come back. -/
theorem mem_met_of_unknown (taken : Taken enclosing origins limit start walk) {steps : Nat}
    (inTime : steps ≤ limit) {shape : Term} (arrives : outward enclosing steps start = some shape)
    (allUnknown : ∀ early ≤ steps, ∀ met, outward enclosing early start = some met →
      origins[met]? = none) : shape ∈ walk.met := by
  rw [met, taken.trail.mem_cons_iff]
  by_cases isEarly : steps ≤ walk.steps
  · exact ⟨steps, isEarly, arrives⟩
  have isLate : walk.steps < steps := Nat.lt_of_not_le isEarly
  cases leaves : walk.ending with
  | known origin =>
      have isUnknown := allUnknown _ (Nat.le_of_lt isLate) _ taken.trail.arrives
      rw [taken.known origin leaves] at isUnknown
      contradiction
  | outermost =>
      rw [(taken.endsAfter_of_outermost leaves).outward_eq_none isLate] at arrives
      contradiction
  | cutOff =>
      obtain ⟨isLast, _⟩ | returns := taken.limit_or_returnsAfter leaves
      · omega
      · exact returns.exists_le arrives

/-- It is asked what encloses the shapes within the limit up to the first of known origin. -/
theorem mem_asked_iff (taken : Taken enclosing origins limit start walk) {shape : Term} :
    shape ∈ walk.asked ↔ ∃ steps ≤ limit, outward enclosing steps start = some shape ∧
      ∀ early ≤ steps, ∀ met, outward enclosing early start = some met → origins[met]? = none := by
  rw [taken.mem_asked]
  constructor
  · intro asked
    obtain ⟨isMet, isUnknown⟩ := asked
    rw [met, taken.trail.mem_cons_iff] at isMet
    obtain ⟨steps, isEarly, arrives⟩ := isMet
    refine ⟨steps, Nat.le_trans isEarly taken.within, arrives, fun early isEarlier met isMet => ?_⟩
    rcases Nat.lt_or_eq_of_le isEarlier with isBefore | rfl
    · exact taken.unknown met (taken.trail.mem_before_iff.2
        ⟨early, Nat.lt_of_lt_of_le isBefore isEarly, isMet⟩)
    · rwa [Option.some.inj (isMet.symm.trans arrives)]
  · intro found
    obtain ⟨steps, inTime, arrives, allUnknown⟩ := found
    exact ⟨taken.mem_met_of_unknown inTime arrives allUnknown,
      allUnknown steps (Nat.le_refl steps) shape arrives⟩

theorem nodup_asked (taken : Taken enclosing origins limit start walk) : walk.asked.Nodup := by
  rw [taken.asked, (List.reverse_perm _).nodup_iff]
  exact List.Pairwise.filter _ taken.distinct

theorem length_asked_le (taken : Taken enclosing origins limit start walk) :
    walk.asked.length ≤ limit + 1 := by
  have ofMet := List.length_filter_le (fun shape => origins[shape]?.isNone) walk.met
  rw [taken.asked, List.length_reverse]
  exact Nat.le_trans ofMet (Nat.succ_le_succ taken.within)

end Taken

end Walk

namespace Resolver

/-! ## Resolvers -/

def walk (enclosing : Term → List Term) (resolver : Resolver) (shape : Term) : Walk :=
  Walk.run enclosing resolver.origins resolver.maxDepth shape [] []

theorem taken_walk (enclosing : Term → List Term) (resolver : Resolver) (shape : Term) :
    (resolver.walk enclosing shape).Taken enclosing resolver.origins resolver.maxDepth shape :=
  Walk.taken_run enclosing resolver.origins resolver.maxDepth shape

theorem walk_of_known {resolver : Resolver} {shape origin : Term}
    (isKnown : resolver.origins[shape]? = some origin) :
    resolver.walk enclosing shape = ⟨shape, [], [], .known origin⟩ := by
  rw [walk, Walk.run.eq_def]
  simp [isKnown]

theorem resolve_of_known {resolver : Resolver} {shape origin : Term}
    (isKnown : resolver.origins[shape]? = some origin) :
    resolver.resolve enclosing shape = (.ok origin, { resolver with hits := resolver.hits + 1 }) := by
  simp only [resolve, isKnown]

def walked (resolver : Resolver) (walk : Walk) : Resolver :=
  { resolver with misses := resolver.misses + 1, asked := resolver.asked ++ walk.asked }

theorem resolve_of_unknown {resolver : Resolver} {shape : Term}
    (isUnknown : resolver.origins[shape]? = none) :
    resolver.resolve enclosing shape =
      ((resolver.walk enclosing shape).answer,
        match (resolver.walk enclosing shape).answer with
        | .ok origin =>
          (resolver.walked (resolver.walk enclosing shape)).remember
            (resolver.walk enclosing shape).met origin
        | .error _ => resolver.walked (resolver.walk enclosing shape)) := by
  simp only [resolve, isUnknown, walked, Walk.answer, walk]
  cases (Walk.run enclosing resolver.origins resolver.maxDepth shape [] []).ending <;> rfl

theorem resolve_answer (resolver : Resolver) (shape : Term) :
    (resolver.resolve enclosing shape).1 = (resolver.walk enclosing shape).answer := by
  cases lookup : resolver.origins[shape]? with
  | some origin => rw [resolve_of_known lookup, walk_of_known lookup, Walk.answer]
  | none => rw [resolve_of_unknown lookup]

theorem resolve_maxDepth (resolver : Resolver) (shape : Term) :
    (resolver.resolve enclosing shape).2.maxDepth = resolver.maxDepth := by
  cases lookup : resolver.origins[shape]? with
  | some origin => rw [resolve_of_known lookup]
  | none =>
      rw [resolve_of_unknown lookup]
      cases (resolver.walk enclosing shape).answer <;> rfl

theorem resolve_asked (resolver : Resolver) (shape : Term) :
    (resolver.resolve enclosing shape).2.asked =
      resolver.asked ++ (resolver.walk enclosing shape).asked := by
  cases lookup : resolver.origins[shape]? with
  | some origin =>
      rw [resolve_of_known lookup, walk_of_known lookup]
      exact (List.append_nil _).symm
  | none =>
      rw [resolve_of_unknown lookup]
      cases (resolver.walk enclosing shape).answer <;> rfl

theorem getElem?_remember (resolver : Resolver) (shapes : List Term) (origin shape : Term) :
    (resolver.remember shapes origin).origins[shape]? =
      if shape ∈ shapes then some origin else resolver.origins[shape]? := by
  simp only [remember]
  generalize resolver.origins = origins
  induction shapes generalizing origins with
  | nil => rfl
  | cons first rest inductionHypothesis =>
      simp only [List.foldl_cons, inductionHypothesis, Std.ExtTreeMap.getElem?_insert,
        Std.LawfulEqCmp.compare_eq_iff_eq, List.mem_cons]
      by_cases inRest : shape ∈ rest
      · simp [inRest]
      · simp [inRest, eq_comm]

/-- A resolver that answers remembers what the walk has met; one that does not learns nothing. -/
theorem resolve_origins (resolver : Resolver) (shape known : Term) :
    (resolver.resolve enclosing shape).2.origins[known]? =
      match (resolver.walk enclosing shape).answer with
      | .ok origin =>
        if known ∈ (resolver.walk enclosing shape).met then some origin
        else resolver.origins[known]?
      | .error _ => resolver.origins[known]? := by
  cases lookup : resolver.origins[shape]? with
  | some origin =>
      rw [resolve_of_known lookup, walk_of_known lookup]
      simp only [Walk.answer, Walk.met, List.mem_singleton]
      split
      next same => rw [same, lookup]
      next => rfl
  | none =>
      rw [resolve_of_unknown lookup]
      cases (resolver.walk enclosing shape).answer with
      | ok origin => exact getElem?_remember _ _ origin known
      | error unresolved => rfl

theorem isKnown_iff {resolver : Resolver} {shape : Term} :
    resolver.isKnown shape = true ↔ ∃ origin, resolver.origins[shape]? = some origin := by
  rw [isKnown, ← Std.ExtTreeMap.mem_iff_contains, Std.ExtTreeMap.mem_iff_isSome_getElem?,
    Option.isSome_iff_exists]

theorem isKnown_eq_false_iff {resolver : Resolver} {shape : Term} :
    resolver.isKnown shape = false ↔ resolver.origins[shape]? = none := by
  rw [← Bool.not_eq_true, isKnown_iff, Option.eq_none_iff_forall_ne_some, not_exists]

/-! ## Histories -/

/-- The invariant of a resolver: it keeps to its limit and remembers only where walks end. -/
structure Sound (enclosing : Term → List Term) (maxDepth : Nat) (resolver : Resolver) : Prop where
  depth : resolver.maxDepth = maxDepth
  origins : resolver.origins.Sound enclosing

theorem sound_new (enclosing : Term → List Term) (maxDepth : Nat) :
    (new maxDepth).Sound enclosing maxDepth := by
  refine ⟨rfl, fun shape origin isKnown => ?_⟩
  rw [new, Std.ExtTreeMap.getElem?_empty] at isKnown
  contradiction

theorem Sound.resolve {maxDepth : Nat} {resolver : Resolver}
    (sound : resolver.Sound enclosing maxDepth) (shape : Term) :
    (resolver.resolve enclosing shape).2.Sound enclosing maxDepth := by
  have taken := taken_walk enclosing resolver shape
  refine ⟨(resolve_maxDepth resolver shape).trans sound.depth, fun known origin isKnown => ?_⟩
  rw [resolve_origins] at isKnown
  cases answered : (resolver.walk enclosing shape).answer with
  | error unresolved =>
      rw [answered] at isKnown
      exact sound.origins known origin isKnown
  | ok found =>
      simp only [answered] at isKnown
      by_cases isMet : known ∈ (resolver.walk enclosing shape).met
      · rw [if_pos isMet] at isKnown
        obtain rfl := Option.some.inj isKnown
        obtain ⟨_, ends⟩ := taken.endsAfter_of_answer sound.origins answered
        obtain ⟨_, _, arrives⟩ := taken.trail.mem_cons_iff.1 isMet
        exact ⟨_, (ends.from_met arrives).2⟩
      · rw [if_neg isMet] at isKnown
        exact sound.origins known origin isKnown

def after (enclosing : Term → List Term) (maxDepth : Nat) (history : List Term) : Resolver :=
  history.foldl (fun resolver shape => (resolver.resolve enclosing shape).2) (.new maxDepth)

theorem sound_after (enclosing : Term → List Term) (maxDepth : Nat) (history : List Term) :
    (after enclosing maxDepth history).Sound enclosing maxDepth := by
  have run : ∀ resolver : Resolver, resolver.Sound enclosing maxDepth →
      (history.foldl (fun resolver shape => (resolver.resolve enclosing shape).2) resolver).Sound
        enclosing maxDepth := by
    induction history with
    | nil => exact fun resolver sound => sound
    | cons shape rest inductionHypothesis =>
        exact fun resolver sound => inductionHypothesis _ (sound.resolve shape)
  exact run _ (sound_new enclosing maxDepth)

/-! ## Correct resolvers -/

def MeetsKnown (enclosing : Term → List Term) (resolver : Resolver) (limit : Nat) (shape : Term) :
    Prop :=
  ∃ steps ≤ limit, ∃ met, outward enclosing steps shape = some met ∧ resolver.isKnown met = true

theorem unknown_of_not_meetsKnown {resolver : Resolver} {limit : Nat} {shape : Term}
    (meetsNone : ¬resolver.MeetsKnown enclosing limit shape) {steps : Nat} (inTime : steps ≤ limit)
    {met : Term} (arrives : outward enclosing steps shape = some met) :
    resolver.origins[met]? = none := by
  apply isKnown_eq_false_iff.1
  apply Bool.eq_false_iff.2
  intro isKnown
  exact meetsNone ⟨steps, inTime, met, arrives, isKnown⟩

/-- The walk from a shape meets a shape before any of known origin, or as the first such. -/
def Walks (enclosing : Term → List Term) (resolver : Resolver) (shape met : Term) : Prop :=
  ∃ steps, outward enclosing steps shape = some met ∧
    ∀ early < steps, ∀ before, outward enclosing early shape = some before →
      resolver.isKnown before = false

/-- From a shape, a shape is met within the limit, and none up to it is of known origin. -/
def MeetsUnknown (enclosing : Term → List Term) (resolver : Resolver) (limit : Nat)
    (shape met : Term) : Prop :=
  ∃ steps ≤ limit, outward enclosing steps shape = some met ∧
    ∀ early ≤ steps, ∀ before, outward enclosing early shape = some before →
      resolver.isKnown before = false

/-- A resolver is correct when it answers and remembers what it should, and asks for no more than
that takes. -/
structure Correct (enclosing : Term → List Term) (maxDepth : Nat) (resolver : Resolver) : Prop where
  answers_short : ∀ count shape origin, EndsAfter enclosing count shape origin → count ≤ maxDepth →
    (resolver.resolve enclosing shape).1 = .ok origin
  answers_returning : ∀ count shape, ReturnsAfter enclosing count shape →
    CutOffAfter enclosing (min maxDepth count) shape (resolver.resolve enclosing shape).1
  answers_long_known : ∀ count shape origin, EndsAfter enclosing count shape origin →
    maxDepth < count → resolver.MeetsKnown enclosing maxDepth shape →
    (resolver.resolve enclosing shape).1 = .ok origin
  answers_long_unknown : ∀ count shape origin, EndsAfter enclosing count shape origin →
    maxDepth < count → ¬resolver.MeetsKnown enclosing maxDepth shape →
    CutOffAfter enclosing maxDepth shape (resolver.resolve enclosing shape).1
  answers_endless : ∀ shape, (∀ count origin, ¬EndsAfter enclosing count shape origin) →
    (∀ count, ¬ReturnsAfter enclosing count shape) →
    CutOffAfter enclosing maxDepth shape (resolver.resolve enclosing shape).1
  origin_is_outermost : ∀ shape origin, (resolver.resolve enclosing shape).1 = .ok origin →
    enclosing origin = [] ∧ (resolver.resolve enclosing origin).1 = .ok origin
  known_ends : ∀ shape origin, resolver.origins[shape]? = some origin →
    ∃ count, EndsAfter enclosing count shape origin
  learns_walk : ∀ shape origin, (resolver.resolve enclosing shape).1 = .ok origin →
    ∀ known value, (resolver.resolve enclosing shape).2.origins[known]? = some value ↔
      resolver.origins[known]? = some value ∨
      resolver.Walks enclosing shape known ∧ value = origin
  learns_nothing : ∀ shape unresolved, (resolver.resolve enclosing shape).1 = .error unresolved →
    (resolver.resolve enclosing shape).2.origins = resolver.origins
  asks_nothing : ∀ shape, resolver.isKnown shape = true →
    (resolver.resolve enclosing shape).2 = { resolver with hits := resolver.hits + 1 }
  /-- Behind all that was asked before, it is asked what encloses these, each once. -/
  asks_unknown : ∀ shape, ∃ asked,
    (resolver.resolve enclosing shape).2.asked = resolver.asked ++ asked ∧ asked.Nodup ∧
      ∀ met, met ∈ asked ↔ resolver.MeetsUnknown enclosing maxDepth shape met
  asks_little : ∀ shape, (resolver.resolve enclosing shape).2.lookups ≤
    resolver.lookups + (maxDepth + 1)

section

variable {maxDepth : Nat} {resolver : Resolver} (sound : resolver.Sound enclosing maxDepth)

include sound

theorem Sound.taken (shape : Term) :
    (resolver.walk enclosing shape).Taken enclosing resolver.origins maxDepth shape := by
  rw [← sound.depth]
  exact taken_walk enclosing resolver shape

theorem Sound.endsAfter {shape origin : Term}
    (answered : (resolver.resolve enclosing shape).1 = .ok origin) :
    ∃ count, EndsAfter enclosing count shape origin := by
  rw [resolve_answer] at answered
  exact (sound.taken shape).endsAfter_of_answer sound.origins answered

theorem Sound.endsAfter_of_known {steps : Nat} {shape met : Term}
    (arrives : outward enclosing steps shape = some met) (isKnown : resolver.isKnown met = true) :
    ∃ count origin, EndsAfter enclosing count shape origin := by
  obtain ⟨origin, isOrigin⟩ := isKnown_iff.1 isKnown
  obtain ⟨count, ends⟩ := sound.origins met origin isOrigin
  exact ⟨steps + count, origin, ends.of_met arrives⟩

theorem Sound.mem_met_iff_walks {shape origin : Term}
    (answered : (resolver.resolve enclosing shape).1 = .ok origin) {met : Term} :
    met ∈ (resolver.walk enclosing shape).met ↔ resolver.Walks enclosing shape met := by
  rw [resolve_answer] at answered
  rw [(sound.taken shape).mem_met_iff answered]
  simp only [Walks, isKnown_eq_false_iff]

theorem Sound.learns_walk {shape origin : Term}
    (answered : (resolver.resolve enclosing shape).1 = .ok origin) (known value : Term) :
    (resolver.resolve enclosing shape).2.origins[known]? = some value ↔
      resolver.origins[known]? = some value ∨
      resolver.Walks enclosing shape known ∧ value = origin := by
  obtain ⟨_, ends⟩ := sound.endsAfter answered
  have walks : known ∈ (resolver.walk enclosing shape).met ↔ resolver.Walks enclosing shape known :=
    sound.mem_met_iff_walks answered
  rw [resolve_answer] at answered
  rw [resolve_origins, answered, ← walks]
  by_cases isMet : known ∈ (resolver.walk enclosing shape).met
  · simp only [isMet, if_true, true_and, Option.some.injEq]
    constructor
    · intro same
      exact .inr same.symm
    · intro found
      rcases found with isKnown | same
      · obtain ⟨_, knownEnds⟩ := sound.origins known value isKnown
        obtain ⟨_, _, arrives⟩ := (sound.taken shape).trail.mem_cons_iff.1 isMet
        exact ((ends.from_met arrives).2.unique knownEnds).2
      · exact same.symm
  · simp [isMet]

theorem Sound.correct : resolver.Correct enclosing maxDepth where
  answers_short := by
    intro count shape origin ends inTime
    rw [resolve_answer]
    exact (sound.taken shape).answer_of_endsAfter sound.origins ends inTime
  answers_returning := by
    intro count shape returns
    rw [resolve_answer]
    exact (sound.taken shape).cutOffAfter_of_returnsAfter sound.origins returns
  answers_long_known := by
    intro count shape origin ends _ meets
    obtain ⟨steps, inTime, met, arrives, isKnown⟩ := meets
    obtain ⟨known, isOrigin⟩ := isKnown_iff.1 isKnown
    rw [resolve_answer]
    exact (sound.taken shape).answer_of_known sound.origins ends inTime arrives isOrigin
  answers_long_unknown := by
    intro count shape origin ends isLong meetsNone
    rw [resolve_answer]
    apply (sound.taken shape).cutOffAfter_limit
    · intro other otherOrigin otherEnds
      rwa [← (ends.unique otherEnds).1]
    · intro returning returns
      exact returns.not_endsAfter ends
    · exact fun _ inTime _ arrives => unknown_of_not_meetsKnown meetsNone inTime arrives
  answers_endless := by
    intro shape noEnd noReturn
    have meetsNone : ¬resolver.MeetsKnown enclosing maxDepth shape := by
      intro meets
      obtain ⟨_, _, met, arrives, isKnown⟩ := meets
      obtain ⟨count, origin, ends⟩ := sound.endsAfter_of_known arrives isKnown
      exact noEnd count origin ends
    rw [resolve_answer]
    apply (sound.taken shape).cutOffAfter_limit _ noReturn
    · exact fun _ inTime _ arrives => unknown_of_not_meetsKnown meetsNone inTime arrives
    · intro count origin ends
      exact absurd ends (noEnd count origin)
  origin_is_outermost := by
    intro shape origin answered
    obtain ⟨_, ends⟩ := sound.endsAfter answered
    refine ⟨ends.outermost, ?_⟩
    rw [resolve_answer]
    exact (sound.taken origin).answer_of_endsAfter sound.origins ⟨rfl, ends.outermost⟩
      (Nat.zero_le maxDepth)
  known_ends := sound.origins
  learns_walk := fun _ _ answered => sound.learns_walk answered
  learns_nothing := by
    intro shape unresolved answered
    rw [resolve_answer] at answered
    apply Std.ExtTreeMap.ext_getElem?
    intro known
    rw [resolve_origins, answered]
  asks_nothing := by
    intro shape isKnown
    obtain ⟨origin, isOrigin⟩ := isKnown_iff.1 isKnown
    rw [resolve_of_known isOrigin]
  asks_unknown := by
    intro shape
    have taken := sound.taken shape
    refine ⟨_, resolve_asked resolver shape, taken.nodup_asked, fun met => ?_⟩
    simp only [taken.mem_asked_iff, MeetsUnknown, isKnown_eq_false_iff]
  asks_little := by
    intro shape
    rw [lookups, lookups, resolve_asked, List.length_append]
    exact Nat.add_le_add_left (sound.taken shape).length_asked_le _

end

/-- Whatever was searched before, a resolver is correct. -/
theorem correct_after (enclosing : Term → List Term) (maxDepth : Nat) (history : List Term) :
    (after enclosing maxDepth history).Correct enclosing maxDepth :=
  (sound_after enclosing maxDepth history).correct

end Resolver

end BuildingRules
