import BuildingRules.Shape.Resolver

/-!
# Walks among shapes

From every shape one walk leads outwards, from each shape to the least of those that enclose it. It
ends, comes back to a shape it has met, or goes on without end. A walk that was taken follows it, up
to the exit that it leaves by: `Walk.taken_run`.
-/

set_option autoImplicit false

namespace BuildingRules

theorem least?_eq_none_iff {terms : List Term} : least? terms = none ↔ terms = [] := by
  rw [least?, Std.ExtTreeSet.min?_eq_none_iff]
  constructor
  · intro isEmpty
    refine List.eq_nil_iff_forall_not_mem.2 fun term member => ?_
    have inSet : term ∈ Std.ExtTreeSet.ofList terms compare := by
      rw [Std.ExtTreeSet.mem_ofList]
      exact List.contains_iff_mem.2 member
    rw [isEmpty] at inSet
    exact Std.ExtTreeSet.not_mem_empty inSet
  · intro isNil
    rw [isNil]
    rfl

theorem least?_eq_head? (terms : List Term) :
    least? terms = (Std.ExtTreeSet.ofList terms compare).toList.head? :=
  Std.ExtTreeSet.min?_eq_head?_toList

/-! ## Steps outwards -/

/-- The shape that is come to from a shape in a number of steps, if the walk goes on so long. -/
def outward (enclosing : Term → List Term) : (count : Nat) → (shape : Term) → Option Term
  | 0, shape => some shape
  | count + 1, shape => (least? (enclosing shape)).bind (outward enclosing count)

/-- The walk from a shape ends at `origin`, which no shape encloses. -/
structure EndsAfter (enclosing : Term → List Term) (count : Nat) (shape origin : Term) : Prop where
  arrives : outward enclosing count shape = some origin
  outermost : enclosing origin = []

/-- The walk from a shape meets new shapes for some steps, and comes back with the next. -/
structure ReturnsAfter (enclosing : Term → List Term) (count : Nat) (shape : Term) : Prop where
  distinct : ∀ early late, early < late → late ≤ count →
    outward enclosing early shape ≠ outward enclosing late shape
  back : ∃ early ≤ count, ∃ again,
    outward enclosing early shape = some again ∧ outward enclosing (count + 1) shape = some again

variable {enclosing : Term → List Term}

theorem outward_add (first second : Nat) (shape : Term) :
    outward enclosing (first + second) shape =
      (outward enclosing first shape).bind (outward enclosing second) := by
  induction first generalizing shape with
  | zero => rw [Nat.zero_add]; rfl
  | succ first inductionHypothesis =>
      have after : outward enclosing (first + second) =
          fun next => (outward enclosing first next).bind (outward enclosing second) :=
        funext inductionHypothesis
      rw [Nat.succ_add, outward, outward, Option.bind_assoc, after]

theorem outward_succ {count : Nat} {shape last : Term}
    (arrives : outward enclosing count shape = some last) :
    outward enclosing (count + 1) shape = least? (enclosing last) := by
  rw [outward_add, arrives, Option.bind_some]
  exact Option.bind_fun_some (least? (enclosing last))

theorem exists_outward_of_le {count : Nat} {shape last : Term}
    (arrives : outward enclosing count shape = some last) {early : Nat} (isEarly : early ≤ count) :
    ∃ met, outward enclosing early shape = some met ∧
      outward enclosing (count - early) met = some last := by
  rw [show count = early + (count - early) by omega, outward_add] at arrives
  exact Option.bind_eq_some_iff.1 arrives

namespace EndsAfter

theorem outward_eq_none {count : Nat} {shape origin : Term}
    (ends : EndsAfter enclosing count shape origin) {late : Nat} (isLate : count < late) :
    outward enclosing late shape = none := by
  have noNext : outward enclosing (count + 1) shape = none := by
    rw [outward_succ ends.arrives, least?_eq_none_iff]
    exact ends.outermost
  rw [show late = (count + 1) + (late - (count + 1)) by omega, outward_add, noNext]
  rfl

theorem unique {count other : Nat} {shape origin otherOrigin : Term}
    (ends : EndsAfter enclosing count shape origin)
    (otherEnds : EndsAfter enclosing other shape otherOrigin) :
    count = other ∧ origin = otherOrigin := by
  have sameCount : count = other := by
    rcases Nat.lt_trichotomy count other with isLess | same | isMore
    · have noNext := ends.outward_eq_none isLess
      rw [otherEnds.arrives] at noNext
      contradiction
    · exact same
    · have noNext := otherEnds.outward_eq_none isMore
      rw [ends.arrives] at noNext
      contradiction
  subst sameCount
  exact ⟨rfl, Option.some.inj (ends.arrives.symm.trans otherEnds.arrives)⟩

theorem of_met {early count : Nat} {shape met origin : Term}
    (arrives : outward enclosing early shape = some met)
    (ends : EndsAfter enclosing count met origin) :
    EndsAfter enclosing (early + count) shape origin := by
  refine ⟨?_, ends.outermost⟩
  rw [outward_add, arrives, Option.bind_some, ends.arrives]

theorem from_met {early count : Nat} {shape met origin : Term}
    (ends : EndsAfter enclosing count shape origin)
    (arrives : outward enclosing early shape = some met) :
    early ≤ count ∧ EndsAfter enclosing (count - early) met origin := by
  have isEarly : early ≤ count := by
    apply Nat.le_of_not_lt
    intro isLate
    have noNext := ends.outward_eq_none isLate
    rw [arrives] at noNext
    contradiction
  obtain ⟨same, isSame, goesOn⟩ := exists_outward_of_le ends.arrives isEarly
  obtain rfl := Option.some.inj (arrives.symm.trans isSame)
  exact ⟨isEarly, goesOn, ends.outermost⟩

/-- A walk that ends meets no shape twice. -/
theorem outward_ne {count : Nat} {shape origin : Term}
    (ends : EndsAfter enclosing count shape origin) {early late : Nat} (isEarly : early < late)
    {met again : Term} (isMet : outward enclosing early shape = some met)
    (isAgain : outward enclosing late shape = some again) : met ≠ again := by
  intro same
  subst same
  obtain ⟨_, fromFirst⟩ := ends.from_met isMet
  obtain ⟨lateWithin, fromSecond⟩ := ends.from_met isAgain
  have sameCount := (fromFirst.unique fromSecond).1
  omega

end EndsAfter

theorem ReturnsAfter.not_endsAfter {returning count : Nat} {shape origin : Term}
    (returns : ReturnsAfter enclosing returning shape) :
    ¬EndsAfter enclosing count shape origin := by
  intro ends
  obtain ⟨early, isEarly, again, isMet, isAgain⟩ := returns.back
  exact ends.outward_ne (Nat.lt_succ_of_le isEarly) isMet isAgain rfl

theorem ReturnsAfter.le_of_returnsAfter {count other : Nat} {shape : Term}
    (returns : ReturnsAfter enclosing count shape)
    (otherReturns : ReturnsAfter enclosing other shape) : other ≤ count := by
  apply Nat.le_of_not_lt
  intro isLate
  obtain ⟨early, isEarly, again, isMet, isAgain⟩ := returns.back
  exact otherReturns.distinct early (count + 1) (Nat.lt_succ_of_le isEarly) isLate
    (isMet.trans isAgain.symm)

theorem ReturnsAfter.unique {count other : Nat} {shape : Term}
    (returns : ReturnsAfter enclosing count shape)
    (otherReturns : ReturnsAfter enclosing other shape) : count = other :=
  Nat.le_antisymm (otherReturns.le_of_returnsAfter returns) (returns.le_of_returnsAfter otherReturns)

/-- A walk that comes back meets no more shapes than it has met by then. -/
theorem ReturnsAfter.exists_le {count : Nat} {shape : Term}
    (returns : ReturnsAfter enclosing count shape) {steps : Nat} {met : Term}
    (arrives : outward enclosing steps shape = some met) :
    ∃ early ≤ count, outward enclosing early shape = some met := by
  induction steps generalizing met with
  | zero => exact ⟨0, Nat.zero_le count, arrives⟩
  | succ steps inductionHypothesis =>
      obtain ⟨last, isLast, _⟩ := exists_outward_of_le arrives (Nat.le_succ steps)
      obtain ⟨early, isEarly, isSame⟩ := inductionHypothesis isLast
      have goesOn : outward enclosing (early + 1) shape = some met := by
        rw [outward_succ isSame, ← outward_succ isLast, arrives]
      rcases Nat.lt_or_eq_of_le isEarly with isEarlier | rfl
      · exact ⟨early + 1, isEarlier, goesOn⟩
      · obtain ⟨first, isFirst, again, isMet, isAgain⟩ := returns.back
        obtain rfl := Option.some.inj (goesOn.symm.trans isAgain)
        exact ⟨first, isFirst, isMet⟩

/-! ## Trails -/

/-- The walk from `start` is at a shape, and has met the shapes of a list before, the last one
first. -/
inductive Trail (enclosing : Term → List Term) (start : Term) : List Term → Term → Prop
  | start : Trail enclosing start [] start
  | step {before : List Term} {current next : Term} :
      Trail enclosing start before current → least? (enclosing current) = some next →
      Trail enclosing start (current :: before) next

namespace Trail

variable {start current : Term} {before : List Term}

theorem arrives (trail : Trail enclosing start before current) :
    outward enclosing before.length start = some current := by
  induction trail with
  | start => rfl
  | step _ isNext inductionHypothesis =>
      rw [List.length_cons, outward_succ inductionHypothesis, isNext]

theorem mem_before_iff (trail : Trail enclosing start before current) {shape : Term} :
    shape ∈ before ↔ ∃ early < before.length, outward enclosing early start = some shape := by
  induction trail with
  | start => simp
  | @step before current next trail _ inductionHypothesis =>
      rw [List.mem_cons, inductionHypothesis]
      constructor
      · intro member
        rcases member with rfl | ⟨early, isEarly, isMet⟩
        · exact ⟨before.length, Nat.lt_succ_self _, trail.arrives⟩
        · exact ⟨early, Nat.lt_succ_of_lt isEarly, isMet⟩
      · intro found
        obtain ⟨early, isEarly, isMet⟩ := found
        rcases Nat.lt_succ_iff_lt_or_eq.1 isEarly with isEarlier | rfl
        · exact .inr ⟨early, isEarlier, isMet⟩
        · exact .inl (Option.some.inj (isMet.symm.trans trail.arrives))

theorem mem_cons_iff (trail : Trail enclosing start before current) {shape : Term} :
    shape ∈ current :: before ↔
      ∃ early ≤ before.length, outward enclosing early start = some shape := by
  rw [List.mem_cons, trail.mem_before_iff]
  constructor
  · intro member
    rcases member with rfl | ⟨early, isEarly, isMet⟩
    · exact ⟨before.length, Nat.le_refl _, trail.arrives⟩
    · exact ⟨early, Nat.le_of_lt isEarly, isMet⟩
  · intro found
    obtain ⟨early, isEarly, isMet⟩ := found
    rcases Nat.lt_or_eq_of_le isEarly with isEarlier | rfl
    · exact .inr ⟨early, isEarlier, isMet⟩
    · exact .inl (Option.some.inj (isMet.symm.trans trail.arrives))

theorem outward_ne (trail : Trail enclosing start before current)
    (distinct : (current :: before).Nodup) {early late : Nat} (isEarly : early < late)
    (within : late ≤ before.length) :
    outward enclosing early start ≠ outward enclosing late start := by
  induction trail generalizing early late with
  | start => simp at within; omega
  | @step before current next trail isNext inductionHypothesis =>
      rcases Nat.lt_or_eq_of_le within with isEarlier | isLast
      · exact inductionHypothesis distinct.of_cons isEarly (Nat.le_of_lt_succ isEarlier)
      · intro same
        subst isLast
        rw [(trail.step isNext).arrives] at same
        exact (List.nodup_cons.1 distinct).1 (trail.mem_cons_iff.2
          ⟨early, Nat.le_of_lt_succ isEarly, same⟩)

end Trail

/-! ## Walks that were taken -/

/-- What is true of a walk of at most `limit` steps: it is a trail of new shapes, of which the
origin is not known before the last one, it was asked what encloses those of unknown origin, one
after the other, and it leaves by the exit that it says. -/
structure Walk.Taken (enclosing : Term → List Term) (origins : Origins) (limit : Nat)
    (start : Term) (walk : Walk) : Prop where
  trail : Trail enclosing start walk.before walk.last
  distinct : walk.met.Nodup
  within : walk.steps ≤ limit
  unknown : ∀ shape ∈ walk.before, origins[shape]? = none
  asked : walk.asked = (walk.met.filter fun shape => origins[shape]?.isNone).reverse
  known : ∀ origin, walk.ending = .known origin → origins[walk.last]? = some origin
  outermost : walk.ending = .outermost →
    origins[walk.last]? = none ∧ least? (enclosing walk.last) = none
  cutOff : walk.ending = .cutOff → origins[walk.last]? = none ∧
    ∃ next, least? (enclosing walk.last) = some next ∧ (walk.steps = limit ∨ next ∈ walk.met)

theorem filter_isNone_of_unknown {origins : Origins} {shapes : List Term}
    (unknown : ∀ shape ∈ shapes, origins[shape]? = none) :
    (shapes.filter fun shape => origins[shape]?.isNone) = shapes :=
  List.filter_eq_self.2 fun shape member => Option.isNone_iff_eq_none.2 (unknown shape member)

/-- A shape of unknown origin is asked about after all those before it. -/
theorem Walk.of_ask {origins : Origins} {current : Term} {before asked around later : List Term}
    (isUnknown : origins[current]? = none) (unknown : ∀ shape ∈ before, origins[shape]? = none)
    (allAsked : asked = before.reverse)
    (asks : ask enclosing current asked = (around, later)) :
    around = enclosing current ∧
      later = ((current :: before).filter fun shape => origins[shape]?.isNone).reverse := by
  obtain ⟨rfl, rfl⟩ := Prod.mk.inj asks
  rw [filter_isNone_of_unknown (List.forall_mem_cons.2 ⟨isUnknown, unknown⟩), allAsked,
    List.reverse_cons]
  exact ⟨rfl, rfl⟩

/-- The invariant of the walk is that it has left a trail of new shapes of unknown origin, all of
which were asked about, and which with the remaining steps comes to the limit. -/
theorem Walk.taken_run_of_trail {origins : Origins} {limit : Nat} {start : Term} (remaining : Nat)
    (current : Term) (before asked : List Term) (trail : Trail enclosing start before current)
    (distinct : (current :: before).Nodup) (inLimit : before.length + remaining = limit)
    (unknown : ∀ shape ∈ before, origins[shape]? = none) (allAsked : asked = before.reverse) :
    Taken enclosing origins limit start (run enclosing origins remaining current before asked) := by
  have within : before.length ≤ limit := by omega
  fun_induction run enclosing origins remaining current before asked with
  | case1 remaining current before asked origin isKnown =>
      have notAsked : asked =
          ((current :: before).filter fun shape => origins[shape]?.isNone).reverse := by
        rw [List.filter_cons_of_neg (by simp [isKnown]), filter_isNone_of_unknown unknown, allAsked]
      exact ⟨trail, distinct, within, unknown, notAsked, by simpa using isKnown, by simp, by simp⟩
  | case2 remaining current before asked isUnknown around later asks noNext =>
      obtain ⟨rfl, isAsked⟩ := of_ask isUnknown unknown allAsked asks
      exact ⟨trail, distinct, within, unknown, isAsked, by simp, fun _ => ⟨isUnknown, noNext⟩,
        by simp⟩
  | case3 current before asked isUnknown around later asks next isNext =>
      obtain ⟨rfl, isAsked⟩ := of_ask isUnknown unknown allAsked asks
      exact ⟨trail, distinct, within, unknown, isAsked, by simp, by simp,
        fun _ => ⟨isUnknown, next, isNext, .inl inLimit⟩⟩
  | case4 current before asked isUnknown around later asks next isNext remaining isBack =>
      obtain ⟨rfl, isAsked⟩ := of_ask isUnknown unknown allAsked asks
      exact ⟨trail, distinct, within, unknown, isAsked, by simp, by simp,
        fun _ => ⟨isUnknown, next, isNext, .inr (List.contains_iff_mem.1 isBack)⟩⟩
  | case5 current before asked isUnknown around later asks next isNext remaining isNew
      inductionHypothesis =>
      obtain ⟨rfl, rfl⟩ := Prod.mk.inj asks
      have isNew : next ∉ current :: before := by simpa using isNew
      apply inductionHypothesis (trail.step isNext) (List.nodup_cons.2 ⟨isNew, distinct⟩)
      · rw [List.length_cons]
        omega
      · exact List.forall_mem_cons.2 ⟨isUnknown, unknown⟩
      · rw [allAsked, List.reverse_cons]
      · rw [List.length_cons]
        omega

theorem Walk.taken_run (enclosing : Term → List Term) (origins : Origins) (limit : Nat)
    (start : Term) :
    Taken enclosing origins limit start (run enclosing origins limit start [] []) :=
  taken_run_of_trail limit start [] [] .start (by simp) (Nat.zero_add limit) (by simp) rfl

end BuildingRules
