import BuildingRules.Proofs.HandedOutNames
import Mathlib.Algebra.Group.Nat.Defs

/-!
# Which names a supply recognises

A name is recognised by what follows the last occurrence of the mark in it. Behind the mark that a
name was made with there are only digits, so whatever follows a later occurrence is digits as well,
and a name that was handed out is missed exactly if it ends in the mark: `recognisesOwn`. That
takes a mark of digits only, and then some number does end in the mark.
-/

set_option autoImplicit false

namespace BuildingRules.NameSupply

/-! ## The last occurrence -/

/-- The rest follows an occurrence of the mark in the text, and no rest of another is shorter. -/
structure FollowsLast (mark text rest : List Char) : Prop where
  follows : ∃ before, before ++ mark ++ rest = text
  shortest : ∀ before others, before ++ mark ++ others = text → rest.length ≤ others.length

theorem FollowsLast.unique {mark text rest others : List Char}
    (followsLast : FollowsLast mark text rest) (othersFollow : FollowsLast mark text others) :
    rest = others := by
  obtain ⟨before, split⟩ := followsLast.follows
  obtain ⟨between, splitToo⟩ := othersFollow.follows
  have sameLength : rest.length = others.length :=
    Nat.le_antisymm (followsLast.shortest _ _ splitToo) (othersFollow.shortest _ _ split)
  exact (List.append_inj' (split.trans splitToo.symm) sameLength).2

theorem afterLast_spec (mark text : List Char) :
    (∀ rest, afterLast mark text = some rest → FollowsLast mark text rest) ∧
      (afterLast mark text = none → ¬mark <:+: text) := by
  induction text with
  | nil =>
    rw [afterLast]
    split
    next noMark =>
      obtain rfl := List.isEmpty_iff.1 noMark
      refine ⟨?_, nofun⟩
      rintro rest found
      obtain rfl := Option.some.inj found
      exact ⟨⟨[], rfl⟩, fun _ _ _ => Nat.zero_le _⟩
    next hasMark =>
      refine ⟨nofun, fun _ occurs => hasMark ?_⟩
      rw [List.infix_nil.1 occurs]
      rfl
  | cons character text inductionHypothesis =>
    obtain ⟨spec, specNone⟩ := inductionHypothesis
    rw [afterLast]
    split
    next found isFound =>
      refine ⟨?_, nofun⟩
      rintro rest same
      obtain rfl := Option.some.inj same
      obtain ⟨⟨before, rfl⟩, shortest⟩ := spec found isFound
      refine ⟨⟨character :: before, rfl⟩, ?_⟩
      rintro (_ | ⟨first, others⟩) rest split
      · have sameLength := congrArg List.length split
        simp only [List.nil_append, List.length_append, List.length_cons] at sameLength
        omega
      · exact shortest others rest (List.cons.inj split).2
    next notFound =>
      have first : ∀ before rest, before ++ mark ++ rest = character :: text → before = [] := by
        rintro (_ | ⟨_, before⟩) rest split
        · rfl
        · exact absurd ⟨before, rest, (List.cons.inj split).2⟩ (specNone notFound)
      split
      next starts =>
        refine ⟨?_, nofun⟩
        rintro rest same
        obtain rfl := Option.some.inj same
        obtain ⟨rest, isRest⟩ := List.isPrefixOf_iff_prefix.1 starts
        rw [← isRest, List.drop_left]
        refine ⟨⟨[], rfl⟩, fun before others split => ?_⟩
        obtain rfl := first before others (split.trans isRest)
        exact (congrArg List.length (List.append_cancel_left split)).ge
      next startsNot =>
        refine ⟨nofun, fun _ occurs => startsNot (List.isPrefixOf_iff_prefix.2 ?_)⟩
        obtain ⟨before, rest, split⟩ := occurs
        obtain rfl := first before rest split
        exact ⟨rest, split⟩

theorem afterLast_eq_some {mark text rest : List Char} :
    afterLast mark text = some rest ↔ FollowsLast mark text rest := by
  obtain ⟨spec, specNone⟩ := afterLast_spec mark text
  constructor
  · exact spec rest
  · intro followsLast
    cases found : afterLast mark text with
    | some others => rw [(spec others found).unique followsLast]
    | none =>
      obtain ⟨before, split⟩ := followsLast.follows
      exact absurd ⟨before, rest, split⟩ (specNone found)

/-! ## Names that were made with a mark -/

theorem recognises_iff {supply : NameSupply} {name : String} :
    supply.recognises name = true ↔
      ∃ rest, FollowsLast supply.mark.toList name.toList rest ∧ rest ≠ [] ∧
        ∀ character ∈ rest, character.isDigit = true := by
  simp only [← afterLast_eq_some]
  unfold recognises
  cases afterLast supply.mark.toList name.toList with
  | none => simp
  | some rest => simp [List.isEmpty_eq_false_iff]

theorem isDigit_of_mem_repr {number : Nat} {character : Char}
    (member : character ∈ (Nat.repr number).toList) : character.isDigit = true := by
  rw [Nat.toList_repr] at member
  exact Nat.isDigit_of_mem_toDigits (by decide) (by decide) member

theorem recognises_candidate_iff {supply : NameSupply} {base : String} {number : Nat} :
    supply.recognises (supply.candidate base number) = true ↔
      ¬supply.mark.toList <:+ (supply.candidate base number).toList := by
  have split : base.toList ++ supply.mark.toList ++ (Nat.repr number).toList =
      (supply.candidate base number).toList := by
    simp [candidate]
  obtain ⟨rest, found⟩ : ∃ rest,
      afterLast supply.mark.toList (supply.candidate base number).toList = some rest := by
    cases found : afterLast supply.mark.toList (supply.candidate base number).toList with
    | some rest => exact ⟨rest, rfl⟩
    | none => exact absurd ⟨_, _, split⟩ ((afterLast_spec _ _).2 found)
  have followsLast := afterLast_eq_some.1 found
  obtain ⟨before, splitLast⟩ := followsLast.follows
  -- The last occurrence is that of the making or a later one, so what follows it is a part of the
  -- number.
  have isEnd : rest <:+ (Nat.repr number).toList := by
    refine List.suffix_of_suffix_length_le ⟨_, splitLast⟩ ⟨_, split⟩ ?_
    exact followsLast.shortest _ _ split
  have onlyDigits : ∀ character ∈ rest, character.isDigit = true := fun character member =>
    isDigit_of_mem_repr (isEnd.mem member)
  have restEmpty : rest = [] ↔ supply.mark.toList <:+ (supply.candidate base number).toList := by
    constructor
    · rintro rfl
      exact ⟨before, by rw [← splitLast, List.append_nil]⟩
    · rintro ⟨between, endsInMark⟩
      have shortest := followsLast.shortest between [] (by rw [List.append_nil, endsInMark])
      exact List.length_eq_zero_iff.1 (Nat.le_zero.1 shortest)
  rw [recognises_iff, ← restEmpty]
  constructor
  · rintro ⟨others, othersFollow, notEmpty, -⟩
    rwa [followsLast.unique othersFollow]
  · intro notEmpty
    exact ⟨rest, followsLast, notEmpty, onlyDigits⟩

/-! ## Marks of digits -/

/-- What ends as it does before some more digits has only digits itself: the last character is a
digit, and as much is known of those before with one more digit behind them. -/
theorem isDigit_of_suffix {mark : List Char} (before digits : List Char) (notEmpty : digits ≠ [])
    (onlyDigits : ∀ character ∈ digits, character.isDigit = true)
    (isEnd : mark <:+ before ++ mark ++ digits) :
    ∀ character ∈ mark, character.isDigit = true := by
  induction mark using List.reverseRecOn generalizing digits with
  | nil => exact List.forall_mem_nil _
  | append_singleton others last inductionHypothesis =>
    obtain ⟨firstDigits, lastDigit, rfl⟩ := List.eq_nil_or_concat digits |>.resolve_left notEmpty
    rw [List.concat_eq_append] at onlyDigits isEnd
    obtain ⟨between, split⟩ := isEnd
    rw [← List.append_assoc, ← List.append_assoc] at split
    obtain ⟨splitOthers, sameLast⟩ := List.append_inj' split rfl
    obtain rfl := List.singleton_inj.1 sameLast
    obtain ⟨firstOnly, lastOnly⟩ := List.forall_mem_append.1 onlyDigits
    have lastIsDigit := lastOnly last (List.mem_singleton_self last)
    refine List.forall_mem_append.2 ⟨?_, lastOnly⟩
    refine inductionHypothesis (last :: firstDigits) (List.cons_ne_nil _ _)
      (List.forall_mem_cons.2 ⟨lastIsDigit, firstOnly⟩) ⟨between, ?_⟩
    simpa using splitOthers

/-- Digits behind a one are the digits of a number. -/
theorem exists_toDigits_eq {digits : List Char}
    (onlyDigits : ∀ character ∈ digits, character.isDigit = true) :
    ∃ number, 0 < number ∧ number < 2 * 10 ^ digits.length ∧
      Nat.toDigits 10 number = '1' :: digits := by
  induction digits using List.reverseRecOn with
  | nil => exact ⟨1, by decide, by decide, by decide⟩
  | append_singleton others last inductionHypothesis =>
    obtain ⟨othersOnly, lastOnly⟩ := List.forall_mem_append.1 onlyDigits
    obtain ⟨number, positive, bound, isNumber⟩ := inductionHypothesis othersOnly
    obtain ⟨fromZero, toNine⟩ :=
      Char.isDigit_iff_toNat.1 (lastOnly last (List.mem_singleton_self last))
    simp only [Char.reduceToNat] at fromZero toNine
    have small : last.toNat - 48 < 10 := by omega
    have isLast : Nat.digitChar (last.toNat - 48) = last := by
      apply Char.toNat_inj.1
      rw [Nat.toNat_digitChar_of_lt_ten small]
      omega
    refine ⟨10 * number + (last.toNat - 48), by omega, ?_, ?_⟩
    · rw [List.length_append, List.length_singleton, Nat.pow_succ]
      omega
    · rw [← Nat.toDigits_append_toDigits (by decide) positive small, isNumber,
        Nat.toDigits_of_lt_base small, isLast, List.cons_append]

/-! ## Supplies that were used -/

variable {supply : NameSupply} {mark : String} {uses : List Use}

theorem exists_candidate_of_performAll {event : Event} {name : String}
    (listed : event ∈ (performAll supply uses).1) (isName : event.handedOut? = some name) :
    ∃ base number, name = supply.candidate base number := by
  induction uses generalizing supply with
  | nil => contradiction
  | cons use rest inductionHypothesis =>
    rw [performAll_cons, List.mem_cons] at listed
    rcases listed with rfl | later
    · cases use with
      | reserve => contradiction
      | fresh base => exact ⟨base, _, (Option.some.inj isName).symm⟩
    · obtain ⟨base, number, rfl⟩ := inductionHypothesis later
      exact ⟨base, number, by rw [candidate, mark_perform, candidate]⟩

theorem exists_candidate_of_handedOut {name : String} (isHandedOut : name ∈ handedOut mark uses) :
    ∃ base number, name = (after mark uses).candidate base number := by
  obtain ⟨event, listed, isName⟩ := List.mem_filterMap.1 isHandedOut
  obtain ⟨base, number, rfl⟩ := exists_candidate_of_performAll listed isName
  exact ⟨base, number, by rw [candidate_after]; rfl⟩

theorem recognises_handedOut_iff {name : String} (isHandedOut : name ∈ handedOut mark uses) :
    (after mark uses).recognises name = true ↔ ¬mark.toList <:+ name.toList := by
  obtain ⟨base, number, rfl⟩ := exists_candidate_of_handedOut isHandedOut
  rw [recognises_candidate_iff, after, mark_performAll]
  rfl

/-- As long as no name of the base is taken from the counter on, its numbers are used one by one. -/
theorem performAll_replicate (base : String) (count : Nat)
    (allFree : ∀ number, supply.next ≤ number → supply.candidate base number ∉ supply.taken) :
    (performAll supply (List.replicate count (.fresh base))).1.filterMap Event.handedOut? =
        (List.range' supply.next count).map (supply.candidate base) ∧
      (performAll supply (List.replicate count (.fresh base))).2.next = supply.next + count := by
  induction count generalizing supply with
  | zero => exact ⟨rfl, rfl⟩
  | succ count inductionHypothesis =>
    have least : IsLeast (supply.freeNumbers base) supply.next :=
      ⟨⟨Nat.le_refl _, allFree _ (Nat.le_refl _)⟩, fun _ free => free.1⟩
    have isName : (Event.handedOut (supply.candidate base supply.next)).handedOut? =
        some (supply.candidate base supply.next) := rfl
    have stillFree : ∀ number, (supply.fresh base).2.next ≤ number →
        (supply.fresh base).2.candidate base number ∉ (supply.fresh base).2.taken := by
      rw [fresh_of_isLeast least]
      intro number behind isTaken
      rw [Std.ExtTreeSet.mem_insert, Std.LawfulEqCmp.compare_eq_iff_eq] at isTaken
      rcases isTaken with same | isTaken
      · exact absurd (candidate_inj.1 same) (Nat.ne_of_lt behind)
      · exact allFree number (Nat.le_of_succ_le behind) isTaken
    obtain ⟨names, counter⟩ := inductionHypothesis stillFree
    rw [fresh_of_isLeast least] at names counter
    rw [List.replicate_succ, performAll_cons, Use.perform, fresh_of_isLeast least]
    rw [List.filterMap_cons_some isName, List.range'_succ, List.map_cons]
    exact ⟨congrArg (List.cons _) names, counter.trans (Nat.succ_add_eq_add_succ ..)⟩

/-- Asked often enough, a new supply hands out the name of any number. -/
theorem mem_handedOut_replicate (mark base : String) (number : Nat) :
    base ++ mark ++ Nat.repr number ∈
      handedOut mark (List.replicate (number + 1) (.fresh base)) := by
  rw [handedOut, history,
    (performAll_replicate base (number + 1) fun _ _ isTaken => mem_taken_new.1 isTaken).1]
  refine List.mem_map.2 ⟨number, List.mem_range'_1.2 ⟨Nat.zero_le _, ?_⟩, rfl⟩
  exact Nat.lt_add_left _ (Nat.lt_succ_self number)

theorem isDigit_of_mark_suffix {base : String} {number : Nat}
    (isEnd : mark.toList <:+ (base ++ mark ++ Nat.repr number).toList) :
    ∀ character ∈ mark.toList, character.isDigit = true := by
  rw [String.toList_append, String.toList_append] at isEnd
  refine isDigit_of_suffix base.toList _ ?_ (fun _ => isDigit_of_mem_repr) isEnd
  rw [Nat.toList_repr]
  exact Nat.toDigits_ne_nil

theorem next_after_replicate (mark base : String) (count : Nat) :
    (after mark (List.replicate count (.fresh base))).next = count := by
  rw [after, (performAll_replicate base count fun _ _ isTaken => mem_taken_new.1 isTaken).2]
  exact Nat.zero_add count

theorem exists_missed (base : String)
    (onlyDigits : ∀ character ∈ mark.toList, character.isDigit = true) (short : mark.length ≤ 18) :
    ∃ count ≤ 2 * 10 ^ mark.length,
      (after mark (List.replicate count (.fresh base))).next < 2 ^ 64 ∧
      ∃ name ∈ handedOut mark (List.replicate count (.fresh base)),
        (after mark (List.replicate count (.fresh base))).recognises name = false := by
  obtain ⟨number, -, bound, isNumber⟩ := exists_toDigits_eq onlyDigits
  rw [String.length_toList] at bound
  have inWord : number + 1 < 2 ^ 64 :=
    calc number + 1 ≤ 2 * 10 ^ mark.length := bound
      _ ≤ 2 * 10 ^ 18 := Nat.mul_le_mul_left 2 (Nat.pow_le_pow_right (by decide) short)
      _ < 2 ^ 64 := by decide
  refine ⟨number + 1, bound, ?_, _, mem_handedOut_replicate mark base number, ?_⟩
  · rwa [next_after_replicate]
  rw [← Bool.not_eq_true, recognises_handedOut_iff (mem_handedOut_replicate mark base number),
    not_not]
  refine ⟨base.toList ++ mark.toList ++ ['1'], ?_⟩
  simp [Nat.toList_repr, isNumber]

/-- Which of the names that it has handed out a supply recognises. -/
structure RecognisesOwn (mark : String) : Prop where
  /-- All but those that end in the mark. -/
  recognises_iff : ∀ uses, ∀ name ∈ handedOut mark uses,
    ((after mark uses).recognises name = true ↔ ¬mark.toList <:+ name.toList)
  /-- That is all of them if the mark has a character that is not a digit. -/
  always : (∃ character ∈ mark.toList, character.isDigit = false) →
    ∀ uses, ∀ name ∈ handedOut mark uses, (after mark uses).recognises name = true
  /-- With a mark of digits it takes no more than so many uses until a name is missed. Up to 18
  digits, a counter of 64 bits goes so far. -/
  misses : (∀ character ∈ mark.toList, character.isDigit = true) → mark.length ≤ 18 →
    ∀ base, ∃ count ≤ 2 * 10 ^ mark.length,
      (after mark (List.replicate count (.fresh base))).next < 2 ^ 64 ∧
      ∃ name ∈ handedOut mark (List.replicate count (.fresh base)),
        (after mark (List.replicate count (.fresh base))).recognises name = false

theorem recognisesOwn (mark : String) : RecognisesOwn mark where
  recognises_iff _ _ := recognises_handedOut_iff
  always := by
    rintro ⟨character, member, notDigit⟩ uses name isHandedOut
    rw [recognises_handedOut_iff isHandedOut]
    obtain ⟨base, number, rfl⟩ := exists_candidate_of_handedOut isHandedOut
    rw [candidate_after]
    intro isEnd
    rw [isDigit_of_mark_suffix isEnd character member] at notDigit
    contradiction
  misses onlyDigits short base := exists_missed base onlyDigits short

/-- The first name that is made with the mark `0` ends in the mark. -/
theorem not_recognises_of_zeroMark :
    "b00" ∈ handedOut "0" [.fresh "b"] ∧ (after "0" [.fresh "b"]).recognises "b00" = false := by
  decide +kernel

end BuildingRules.NameSupply
