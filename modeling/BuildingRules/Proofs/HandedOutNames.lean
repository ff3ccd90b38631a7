import BuildingRules.NameSupply.Uses
import BuildingRules.Proofs.FreshNames
import BuildingRules.Proofs.GraphListings
import Mathlib.Data.Finset.Card
import Mathlib.Data.List.Pairwise
import Mathlib.Order.Bounds.Basic

/-!
# Names are handed out once

However a supply was used, the names that are taken are those that were reserved or handed out. So
the next name handed out has the least number, from the counter on, that gives a name that was
neither, and after as many attempts as there are taken names one must succeed: `neverRepeats`.
-/

set_option autoImplicit false

namespace BuildingRules.NameSupply

variable {supply : NameSupply} {base : String}

/-! ## The least number -/

/-- The numbers, from the counter on, that give a new name. -/
def freeNumbers (supply : NameSupply) (base : String) : Set Nat :=
  {number | supply.next ≤ number ∧ supply.candidate base number ∉ supply.taken}

theorem le_firstFree (supply : NameSupply) (base : String) (count number : Nat) :
    number ≤ supply.firstFree base count number := by
  induction count generalizing number with
  | zero => exact Nat.le_refl number
  | succ count inductionHypothesis =>
      unfold firstFree
      split
      next => exact Nat.le_of_succ_le (inductionHypothesis (number + 1))
      next => exact Nat.le_refl number

theorem firstFree_le (supply : NameSupply) (base : String) (count number : Nat) :
    supply.firstFree base count number ≤ number + count := by
  induction count generalizing number with
  | zero => exact Nat.le_refl number
  | succ count inductionHypothesis =>
      unfold firstFree
      split
      next =>
        have bound := inductionHypothesis (number + 1)
        omega
      next => omega

theorem isLeast_firstFree (supply : NameSupply) (base : String) :
    IsLeast (supply.freeNumbers base) (supply.firstFree base supply.taken.size supply.next) := by
  refine ⟨⟨le_firstFree .., candidate_firstFree_not_mem (Nat.le_refl _)⟩, ?_⟩
  rintro tried ⟨fromCounter, isFree⟩
  by_contra passed
  exact isFree (candidate_mem_of_lt_firstFree fromCounter (Nat.lt_of_not_le passed))

theorem fresh_of_isLeast {number : Nat} (least : IsLeast (supply.freeNumbers base) number) :
    supply.fresh base = (supply.candidate base number,
      { supply with
        next := number + 1
        taken := supply.taken.insert (supply.candidate base number) }) := by
  rw [least.unique (isLeast_firstFree supply base)]
  rfl

theorem next_fresh_le (supply : NameSupply) (base : String) :
    (supply.fresh base).2.next ≤ supply.next + 1 + supply.taken.size := by
  have bound := firstFree_le supply base supply.taken.size supply.next
  show supply.firstFree base supply.taken.size supply.next + 1 ≤ _
  omega

/-! ## Attempts -/

theorem attempt_of_mem (isTaken : supply.candidate base supply.next ∈ supply.taken) :
    supply.attempt base = (none, { supply with next := supply.next + 1 }) := by
  have same : supply.taken.insert (supply.candidate base supply.next) = supply.taken := by
    apply Std.ExtTreeSet.ext_mem
    intro name
    rw [Std.ExtTreeSet.mem_insert, Std.LawfulEqCmp.compare_eq_iff_eq]
    constructor
    · rintro (rfl | member)
      · exact isTaken
      · exact member
    · exact .inr
  rw [attempt, if_pos (Std.ExtTreeSet.contains_iff_mem.2 isTaken), same]

theorem attempt_of_not_mem (isNew : supply.candidate base supply.next ∉ supply.taken) :
    supply.attempt base = (some (supply.candidate base supply.next),
      { supply with
        next := supply.next + 1
        taken := supply.taken.insert (supply.candidate base supply.next) }) := by
  rw [attempt, if_neg fun isTaken => isNew (Std.ExtTreeSet.contains_iff_mem.1 isTaken)]

/-- If the name of the counter's number is taken, the search goes on behind it. -/
theorem freeNumbers_skip (isTaken : supply.candidate base supply.next ∈ supply.taken) :
    ({ supply with next := supply.next + 1 } : NameSupply).freeNumbers base =
      supply.freeNumbers base := by
  ext number
  constructor
  · rintro ⟨fromCounter, isFree⟩
    exact ⟨Nat.le_of_succ_le fromCounter, isFree⟩
  · rintro ⟨fromCounter, isFree⟩
    refine ⟨Nat.succ_le_of_lt (Nat.lt_of_le_of_ne fromCounter ?_), isFree⟩
    rintro rfl
    exact isFree isTaken

theorem fresh_skip (isTaken : supply.candidate base supply.next ∈ supply.taken) :
    ({ supply with next := supply.next + 1 } : NameSupply).fresh base = supply.fresh base := by
  have least := isLeast_firstFree supply base
  rw [fresh_of_isLeast least]
  rw [← freeNumbers_skip isTaken] at least
  exact fresh_of_isLeast least

/-- The attempts end with the name of the least free number, one attempt for each number used up. -/
theorem attempts_of_isLeast {count : Nat}
    (least : IsLeast (supply.freeNumbers base) (supply.next + count)) :
    Attempts base supply (count + 1) (supply.fresh base) := by
  induction count generalizing supply with
  | zero =>
    rw [fresh_of_isLeast least]
    exact .last (attempt_of_not_mem least.1.2)
  | succ count inductionHypothesis =>
    have isTaken : supply.candidate base supply.next ∈ supply.taken := by
      by_contra isFree
      have passed := least.2 ⟨Nat.le_refl supply.next, isFree⟩
      omega
    rw [← fresh_skip isTaken]
    refine .again (attempt_of_mem isTaken) (inductionHypothesis ?_)
    rw [freeNumbers_skip isTaken, Nat.add_right_comm]
    exact least

/-- There is only one way for the attempts to go. -/
theorem Attempts.unique {count other : Nat} {outcome result : String × NameSupply}
    (attempts : Attempts base supply count outcome) (others : Attempts base supply other result) :
    count = other ∧ outcome = result := by
  induction attempts generalizing other result with
  | last isNew =>
    cases others with
    | last isNewToo =>
      obtain ⟨sameName, rfl⟩ := Prod.mk.inj (isNew.symm.trans isNewToo)
      obtain rfl := Option.some.inj sameName
      exact ⟨rfl, rfl⟩
    | again isTaken => exact absurd (Prod.mk.inj (isNew.symm.trans isTaken)).1 nofun
  | again isTaken _ inductionHypothesis =>
    cases others with
    | last isNew => exact absurd (Prod.mk.inj (isTaken.symm.trans isNew)).1 nofun
    | again isTakenToo rest =>
      obtain rfl := (Prod.mk.inj (isTaken.symm.trans isTakenToo)).2
      obtain ⟨rfl, rfl⟩ := inductionHypothesis rest
      exact ⟨rfl, rfl⟩

theorem exists_attempts (supply : NameSupply) (base : String) :
    ∃ count ≤ supply.taken.size, Attempts base supply (count + 1) (supply.fresh base) := by
  have least := isLeast_firstFree supply base
  obtain ⟨count, isCount⟩ := Nat.exists_eq_add_of_le least.1.1
  refine ⟨count, ?_, attempts_of_isLeast (isCount ▸ least)⟩
  have bound := firstFree_le supply base supply.taken.size supply.next
  omega

/-! ## Sequences of uses -/

theorem performAll_cons (supply : NameSupply) (use : Use) (rest : List Use) :
    performAll supply (use :: rest) =
      ((use.perform supply).1 :: (performAll (use.perform supply).2 rest).1,
        (performAll (use.perform supply).2 rest).2) := by
  rw [performAll]

theorem mark_perform (supply : NameSupply) (use : Use) :
    (use.perform supply).2.mark = supply.mark := by
  cases use <;> rfl

theorem mem_taken_perform {use : Use} {name : String} :
    name ∈ (use.perform supply).2.taken ↔
      name ∈ supply.taken ∨ name = (use.perform supply).1.name := by
  cases use with
  | reserve reserved =>
    simp only [Use.perform, mem_taken_reserve, Event.name, eq_comm, or_comm]
  | fresh base =>
    simp only [Use.perform, mem_taken_fresh, Event.name, eq_comm, or_comm]

theorem not_mem_taken_of_handedOut {use : Use} {name : String}
    (isNew : (use.perform supply).1.handedOut? = some name) : name ∉ supply.taken := by
  cases use with
  | reserve => contradiction
  | fresh base =>
    obtain rfl := Option.some.inj isNew
    exact fresh_not_mem supply base

theorem mark_performAll (supply : NameSupply) (uses : List Use) :
    (performAll supply uses).2.mark = supply.mark := by
  induction uses generalizing supply with
  | nil => rfl
  | cons use rest inductionHypothesis =>
    rw [performAll_cons, inductionHypothesis, mark_perform]

theorem mem_taken_performAll {uses : List Use} {name : String} :
    name ∈ (performAll supply uses).2.taken ↔
      name ∈ supply.taken ∨ name ∈ (performAll supply uses).1.map Event.name := by
  induction uses generalizing supply with
  | nil => simp [performAll]
  | cons use rest inductionHypothesis =>
    rw [performAll_cons, inductionHypothesis, mem_taken_perform, List.map_cons, List.mem_cons,
      or_assoc]

/-- What is handed out in the course of the uses was not taken at their start. -/
theorem not_mem_taken_of_mem_performAll {uses : List Use} {event : Event} {name : String}
    (listed : event ∈ (performAll supply uses).1) (isNew : event.handedOut? = some name) :
    name ∉ supply.taken := by
  induction uses generalizing supply with
  | nil => contradiction
  | cons use rest inductionHypothesis =>
    rw [performAll_cons, List.mem_cons] at listed
    rcases listed with rfl | later
    · exact not_mem_taken_of_handedOut isNew
    · exact fun isTaken => inductionHypothesis later (mem_taken_perform.2 (.inl isTaken))

theorem pairwise_performAll (supply : NameSupply) (uses : List Use) :
    (performAll supply uses).1.Pairwise fun earlier later =>
      ∀ name, later.handedOut? = some name → earlier.name ≠ name := by
  induction uses generalizing supply with
  | nil => exact .nil
  | cons use rest inductionHypothesis =>
    rw [performAll_cons]
    refine .cons ?_ (inductionHypothesis _)
    rintro later listed name isNew rfl
    exact not_mem_taken_of_mem_performAll listed isNew (mem_taken_perform.2 (.inr rfl))

/-! ## New supplies -/

/-- The names that were reserved or handed out. -/
def names (mark : String) (uses : List Use) : Finset String :=
  ((history mark uses).map Event.name).toFinset

variable {mark : String} {uses : List Use}

theorem mem_taken_after {name : String} :
    name ∈ (after mark uses).taken ↔ name ∈ names mark uses := by
  rw [after, mem_taken_performAll, mem_taken_new, false_or, names, List.mem_toFinset, history]

theorem size_taken_after : (after mark uses).taken.size = (names mark uses).card := by
  have same : (after mark uses).taken.toList.toFinset = names mark uses := by
    ext name
    rw [List.mem_toFinset, Std.ExtTreeSet.mem_toList, mem_taken_after]
  rw [← same, List.toFinset_card_of_nodup (nodup_toList_set _), Std.ExtTreeSet.length_toList]

theorem candidate_after (base : String) (number : Nat) :
    (after mark uses).candidate base number = base ++ mark ++ Nat.repr number := by
  rw [candidate, after, mark_performAll]
  rfl

theorem Event.name_of_handedOut? {event : Event} {name : String}
    (isName : event.handedOut? = some name) : event.name = name := by
  cases event with
  | reserved => contradiction
  | handedOut => exact Option.some.inj isName

theorem nodup_handedOut (mark : String) (uses : List Use) : (handedOut mark uses).Nodup := by
  refine List.pairwise_filterMap.2 ((pairwise_performAll (new mark) uses).imp ?_)
  intro earlier later differs name isEarlier other isLater
  rw [← Event.name_of_handedOut? isEarlier]
  exact differs other isLater

/-- What a supply that was used hands out. -/
structure NeverRepeats (mark : String) (uses : List Use) : Prop where
  distinct : (handedOut mark uses).Nodup
  /-- A name that is handed out was neither reserved nor handed out before. -/
  isNew : (history mark uses).Pairwise fun earlier later =>
    ∀ name, later.handedOut? = some name → earlier.name ≠ name
  /-- The next name has the least number that gives a new one, and the counter moves behind it. -/
  takesLeast : ∀ base, ∃ number,
    IsLeast {number | (after mark uses).next ≤ number ∧
      base ++ mark ++ Nat.repr number ∉ names mark uses} number ∧
    ((after mark uses).fresh base).1 = base ++ mark ++ Nat.repr number ∧
    ((after mark uses).fresh base).2.next = number + 1
  bounded : ∀ base, ((after mark uses).fresh base).2.next ≤
    (after mark uses).next + 1 + (names mark uses).card
  /-- The attempts at a name come to an end, with the name that is handed out. -/
  ends : ∀ base, ∃ count ≤ (names mark uses).card, ∀ tries outcome,
    Attempts base (after mark uses) tries outcome ↔
      tries = count + 1 ∧ outcome = (after mark uses).fresh base

theorem neverRepeats (mark : String) (uses : List Use) : NeverRepeats mark uses where
  distinct := nodup_handedOut mark uses
  isNew := pairwise_performAll (new mark) uses
  takesLeast base := by
    have least := isLeast_firstFree (after mark uses) base
    refine ⟨_, ?_, candidate_after base _, rfl⟩
    simpa only [freeNumbers, candidate_after, mem_taken_after] using least
  bounded base := by
    rw [← size_taken_after]
    exact next_fresh_le (after mark uses) base
  ends base := by
    obtain ⟨count, bound, attempts⟩ := exists_attempts (after mark uses) base
    rw [size_taken_after] at bound
    refine ⟨count, bound, fun tries outcome => ?_⟩
    constructor
    · exact fun others => others.unique attempts
    · rintro ⟨rfl, rfl⟩
      exact attempts

end BuildingRules.NameSupply
