import BuildingRules.NameSupply
import Std.Data.String.ToNat

/-!
# Fresh names are new

The search for a free number passes over taken names only, and among one more number than there
are taken names it must find a free one: `candidate_firstFree_not_mem`. So a supply hands out a
name it has neither reserved nor handed out before: `fresh_not_mem`.
-/

set_option autoImplicit false

namespace BuildingRules.NameSupply

/-! ## The search -/

theorem candidate_inj {supply : NameSupply} {base : String} {left right : Nat} :
    supply.candidate base left = supply.candidate base right ↔ left = right := by
  simp only [candidate, String.append_right_inj, Nat.repr_inj]

theorem candidate_mem_of_lt_firstFree {supply : NameSupply} {base : String}
    {count number tried : Nat} (fromStart : number ≤ tried)
    (passed : tried < supply.firstFree base count number) :
    supply.candidate base tried ∈ supply.taken := by
  induction count generalizing number with
  | zero =>
      simp only [firstFree] at passed
      omega
  | succ count inductionHypothesis =>
      unfold firstFree at passed
      split at passed
      next isTaken =>
        by_cases same : tried = number
        · subst same
          exact Std.ExtTreeSet.contains_iff_mem.1 isTaken
        · exact inductionHypothesis (by omega) passed
      next => omega

theorem candidate_firstFree_not_mem_or_eq (supply : NameSupply) (base : String)
    (count number : Nat) :
    supply.candidate base (supply.firstFree base count number) ∉ supply.taken ∨
      supply.firstFree base count number = number + count := by
  induction count generalizing number with
  | zero => exact Or.inr rfl
  | succ count inductionHypothesis =>
      unfold firstFree
      split
      next =>
        rcases inductionHypothesis (number + 1) with isFree | exhausted
        · exact Or.inl isFree
        · exact Or.inr (by omega)
      next isFree => exact Or.inl fun member => isFree (Std.ExtTreeSet.contains_iff_mem.2 member)

/-- Different numbers have different names, so no more numbers in a row can be taken than there
are taken names. -/
theorem length_le_size_of_candidates_mem {supply : NameSupply} {base : String}
    (number length : Nat)
    (allTaken : ∀ tried, number ≤ tried → tried < number + length →
      supply.candidate base tried ∈ supply.taken) :
    length ≤ supply.taken.size := by
  have distinct : ((List.range' number length).map (supply.candidate base)).Nodup :=
    List.Pairwise.map _ (fun _ _ different same => different (candidate_inj.1 same))
      List.nodup_range'
  have included : (List.range' number length).map (supply.candidate base) ⊆
      supply.taken.toList := by
    intro name member
    obtain ⟨tried, inRange, rfl⟩ := List.mem_map.1 member
    rw [List.mem_range'_1] at inRange
    exact Std.ExtTreeSet.mem_toList.2 (allTaken tried inRange.1 inRange.2)
  have bound := distinct.length_le_of_subset included
  rwa [List.length_map, List.length_range', Std.ExtTreeSet.length_toList] at bound

/-- As many numbers as there are taken names are enough to try. -/
theorem candidate_firstFree_not_mem {supply : NameSupply} {base : String} {count number : Nat}
    (enough : supply.taken.size ≤ count) :
    supply.candidate base (supply.firstFree base count number) ∉ supply.taken := by
  rcases candidate_firstFree_not_mem_or_eq supply base count number with isFree | exhausted
  · exact isFree
  · intro member
    have tooMany : count + 1 ≤ supply.taken.size := by
      apply length_le_size_of_candidates_mem number (count + 1)
      intro tried fromStart inRange
      by_cases isLast : tried = number + count
      · rwa [isLast, ← exhausted]
      · have passed : tried < supply.firstFree base count number := by omega
        exact candidate_mem_of_lt_firstFree fromStart passed
    omega

/-! ## Names that are taken -/

theorem fresh_not_mem (supply : NameSupply) (base : String) :
    (supply.fresh base).1 ∉ supply.taken :=
  candidate_firstFree_not_mem (Nat.le_refl _)

@[simp]
theorem mem_taken_new {mark name : String} : name ∈ (NameSupply.new mark).taken ↔ False := by
  simp [NameSupply.new]

@[simp]
theorem mem_taken_reserve {supply : NameSupply} {reserved name : String} :
    name ∈ (supply.reserve reserved).taken ↔ reserved = name ∨ name ∈ supply.taken := by
  simp [reserve, Std.LawfulEqCmp.compare_eq_iff_eq]

@[simp]
theorem mem_taken_fresh {supply : NameSupply} {base name : String} :
    name ∈ (supply.fresh base).2.taken ↔ (supply.fresh base).1 = name ∨ name ∈ supply.taken := by
  simp [fresh, Std.LawfulEqCmp.compare_eq_iff_eq]

end BuildingRules.NameSupply
