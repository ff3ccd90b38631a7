import BuildingRules.Pattern.Document
import BuildingRules.Pattern.Form
import Mathlib.Tactic.Tauto

/-!
# Keys of patterns

The kind of a key decides what its entry must be: `Key.means_of`.
-/

set_option autoImplicit false

namespace BuildingRules

/-! ## Keys -/

theorem Quantifier.ofMark?_eq_some {character : Char} {quantifier : Quantifier} :
    ofMark? character = some quantifier ↔ quantifier.mark.toList = [character] := by
  constructor
  · intro marks
    unfold ofMark? at marks
    split at marks <;> first | contradiction | (obtain rfl := Option.some.inj marks; rfl)
  · cases quantifier <;> simp [mark, ofMark?, eq_comm]
    all_goals (rintro rfl; rfl)

theorem Relation.ofName?_eq_some {name : String} {relation : Relation} :
    ofName? name = some relation ↔ name = relation.name := by
  constructor
  · intro named
    have same := List.find?_some named
    exact (beq_iff_eq.1 same).symm
  · rintro rfl
    cases relation <;> rfl

theorem Relation.ofKey?_eq_some {key : String} {relation : Relation} {quantifier : Quantifier} :
    ofKey? key = some (relation, quantifier) ↔ key = relation.name ++ quantifier.mark := by
  constructor
  · intro read
    unfold ofKey? at read
    split at read
    next marked isMarked =>
      obtain ⟨other, isNamed, same⟩ := Option.map_eq_some_iff.1 read
      obtain ⟨rfl, rfl⟩ := Prod.mk.inj same
      obtain ⟨character, isLast, isMark⟩ := Option.bind_eq_some_iff.1 isMarked
      obtain ⟨before, isKey⟩ := List.getLast?_eq_some_iff.1 isLast
      rw [← Relation.ofName?_eq_some.1 isNamed]
      apply String.toList_inj.1
      rw [String.toList_append, String.toList_ofList, Quantifier.ofMark?_eq_some.1 isMark, isKey,
        List.dropLast_concat]
    next =>
      obtain ⟨other, isNamed, same⟩ := Option.map_eq_some_iff.1 read
      obtain ⟨rfl, rfl⟩ := Prod.mk.inj same
      rw [Relation.ofName?_eq_some.1 isNamed]
      simp [Quantifier.mark]
  · rintro rfl
    cases relation <;> cases quantifier <;> rfl

namespace Pattern

theorem relationKey_iff {key : String} :
    RelationKey key ↔ ∃ found, Relation.ofKey? key = some found := by
  simp only [RelationKey, Prod.exists, Relation.ofKey?_eq_some]

theorem not_relationKey_choice : ¬RelationKey "choice" := by
  rintro isRelation
  obtain ⟨found, read⟩ := relationKey_iff.1 isRelation
  exact Option.some_ne_none found (read.symm.trans rfl)

theorem readsAsRelation_iff {key : String} :
    readsAsRelation key = true ↔
      ¬(Identifier.isAbsoluteIri key = true ∨ ¬StartsSmall key ∧ ¬EndsInMark key) := by
  have small : key.toList.head?.any Char.isLower = true ↔ StartsSmall key := by
    rw [Option.any_eq_true]
    rfl
  have marked : (key.toList.getLast?.bind Quantifier.ofMark?).isSome = true ↔ EndsInMark key := by
    have isMark : ∀ character, (Quantifier.ofMark? character).isSome = true ↔
        character = '?' ∨ character = '*' ∨ character = '+' := by
      intro character
      unfold Quantifier.ofMark?
      split <;> simp_all
    rw [Option.isSome_bind, Option.any_eq_true]
    simp only [isMark]
    rfl
  rw [readsAsRelation, Bool.and_eq_true, Bool.or_eq_true, small, marked, Bool.not_eq_true',
    Bool.eq_false_iff]
  tauto

/-- What it says of a key that it is of some kind. -/
inductive Key.Means (key : String) : Key → Prop
  | alternatives : key = "choice" → Means key .alternatives
  | related {relation : Relation} {quantifier : Quantifier} :
      key = relation.name ++ quantifier.mark → Means key (.related relation quantifier)
  | constraint : ClassKey key → Means key .constraint
  | unknown : key ≠ "choice" → ¬RelationKey key → ¬ClassKey key → Means key .unknown

theorem Key.means_of (key : String) : Key.Means key (Key.of key) := by
  unfold Key.of
  split
  next isChoice => exact .alternatives (beq_iff_eq.1 isChoice)
  next notChoice =>
    have notSame : key ≠ "choice" := fun same => notChoice (beq_iff_eq.2 same)
    split
    next relation quantifier isRelated => exact .related (Relation.ofKey?_eq_some.1 isRelated)
    next notRelated =>
      have unrelated : ¬RelationKey key := by
        rw [relationKey_iff, notRelated]
        simp
      split
      next reads =>
        exact .unknown notSame unrelated fun isClass => readsAsRelation_iff.1 reads isClass.2.2
      next notReads =>
        exact .constraint ⟨notSame, unrelated, not_not.1 (mt readsAsRelation_iff.2 notReads)⟩

end Pattern

end BuildingRules
