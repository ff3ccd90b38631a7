import BuildingRules.Proofs.Compilation

/-!
# Names in compiled queries

A text is plain if it holds no blank and no delimiter. Variables, local names and absolute IRIs are
plain, and fresh names are made of plain parts; so in a plain namespace all names and IRIs of a
compiled query are plain: `Query.plain_of_compile`.
-/

set_option autoImplicit false

namespace BuildingRules

/-! ## Plain texts -/

namespace Identifier

def IsPlain (text : String) : Prop := ∀ character ∈ text.toList, isForbidden character = false

instance (text : String) : Decidable (IsPlain text) :=
  List.decidableBAll (fun character => isForbidden character = false) text.toList

theorem IsPlain.not_mem {text : String} (plain : IsPlain text) (character : Char)
    (forbidden : isForbidden character = true) : character ∉ text.toList := by
  intro member
  rw [plain character member] at forbidden
  contradiction

theorem IsPlain.append {left right : String} (leftPlain : IsPlain left)
    (rightPlain : IsPlain right) : IsPlain (left ++ right) := by
  intro character member
  rw [String.toList_append] at member
  rcases List.mem_append.1 member with inLeft | inRight
  · exact leftPlain character inLeft
  · exact rightPlain character inRight

theorem bounds_of_isAlphanum {character : Char} (alphanumeric : character.isAlphanum = true) :
    48 ≤ character.toNat ∧ character.toNat ≤ 122 := by
  have spelled : character.isAlphanum =
      ((decide ('A'.val ≤ character.val ∧ character.val ≤ 'Z'.val) ||
        (decide ('a'.val ≤ character.val) && decide (character.val ≤ 'z'.val))) ||
        (decide ('0'.val ≤ character.val) && decide (character.val ≤ '9'.val))) := rfl
  rw [spelled] at alphanumeric
  simp only [Bool.or_eq_true, Bool.and_eq_true, decide_eq_true_eq, UInt32.le_iff_toNat_le]
    at alphanumeric
  have code : character.toNat = character.val.toNat := rfl
  rcases alphanumeric with (upper | lower) | digit
  · have first : 'A'.val.toNat = 65 := rfl
    have last : 'Z'.val.toNat = 90 := rfl
    omega
  · have first : 'a'.val.toNat = 97 := rfl
    have last : 'z'.val.toNat = 122 := rfl
    omega
  · have first : '0'.val.toNat = 48 := rfl
    have last : '9'.val.toNat = 57 := rfl
    omega

/-- Local names are written between the hyphen and the last letter of ASCII, where no blank is. -/
theorem isBlank_of_isLocalChar {character : Char} (isLocal : isLocalChar character = true) :
    Text.isBlank character = false := by
  simp only [isLocalChar, isVariableChar, Bool.or_eq_true, beq_iff_eq] at isLocal
  have bounds : 45 ≤ character.toNat ∧ character.toNat ≤ 122 := by
    rcases isLocal with ((alphanumeric | rfl) | rfl) | rfl
    · obtain ⟨least, greatest⟩ := bounds_of_isAlphanum alphanumeric
      exact ⟨by omega, greatest⟩
    · decide
    · decide
    · decide
  simp only [Text.isBlank, Bool.or_eq_false_iff, Bool.and_eq_false_iff, decide_eq_false_iff_not,
    beq_eq_false_iff_ne]
  omega

theorem isForbidden_of_isLocalChar {character : Char} (isLocal : isLocalChar character = true) :
    isForbidden character = false := by
  rw [isForbidden, isBlank_of_isLocalChar isLocal, Bool.false_or, ← Bool.not_eq_true,
    List.contains_iff_mem]
  intro listed
  have noLocal : "<>\"\x7b\x7d|^`\\".toList.any isLocalChar = false := by decide
  exact List.any_eq_false.1 noLocal character listed isLocal

theorem isLocalChar_of_isVariableChar {character : Char}
    (isVariable : isVariableChar character = true) : isLocalChar character = true := by
  rw [isLocalChar, isVariable, Bool.true_or, Bool.true_or]

theorem isVariableChar_of_isStart {character : Char} (starts : isStart character = true) :
    isVariableChar character = true := by
  simp only [isStart, Bool.or_eq_true] at starts
  rw [isVariableChar, Char.isAlphanum]
  rcases starts with letter | underscore
  · rw [letter, Bool.true_or, Bool.true_or]
  · rw [underscore, Bool.or_true]

theorem isPlain_of_characters {text : String} {first : Char} {rest : List Char}
    (characters : text.toList = first :: rest) (starts : isStart first = true)
    (others : ∀ character ∈ rest, isLocalChar character = true) : IsPlain text := by
  intro character member
  apply isForbidden_of_isLocalChar
  rw [characters] at member
  rcases List.mem_cons.1 member with rfl | isOther
  · exact isLocalChar_of_isVariableChar (isVariableChar_of_isStart starts)
  · exact others character isOther

theorem isPlain_of_isVariable {name : String} (isVariable : isVariable name = true) :
    IsPlain name := by
  unfold Identifier.isVariable at isVariable
  split at isVariable
  next => contradiction
  next characters =>
    simp only [Bool.and_eq_true, List.all_eq_true] at isVariable
    obtain ⟨starts, others⟩ := isVariable
    exact isPlain_of_characters characters starts
      fun character member => isLocalChar_of_isVariableChar (others character member)

theorem isPlain_of_isLocalName {name : String} (isLocal : isLocalName name = true) :
    IsPlain name := by
  unfold isLocalName at isLocal
  split at isLocal
  next => contradiction
  next characters =>
    simp only [Bool.and_eq_true, List.all_eq_true] at isLocal
    obtain ⟨⟨starts, others⟩, _⟩ := isLocal
    exact isPlain_of_characters characters starts others

theorem isPlain_of_isAbsoluteIri {text : String} (isAbsolute : isAbsoluteIri text = true) :
    IsPlain text := by
  intro character member
  simp only [isAbsoluteIri] at isAbsolute
  split at isAbsolute
  next =>
    simp only [Bool.and_eq_true, Bool.not_eq_true', List.any_eq_false] at isAbsolute
    exact Bool.not_eq_true _ ▸ isAbsolute.2 character member
  next => contradiction

theorem isPlain_brick : IsPlain Namespace.brick.base := by decide

theorem isPlain_of_classIri? {space : Namespace} (plain : IsPlain space.base)
    {identifier : String} {iri : Iri} (found : classIri? space identifier = some iri) :
    IsPlain iri.text := by
  unfold classIri? at found
  split at found
  next isLocal =>
    obtain rfl := Option.some.inj found
    exact plain.append (isPlain_of_isLocalName isLocal)
  next =>
    split at found
    next isAbsolute =>
      obtain rfl := Option.some.inj found
      exact isPlain_of_isAbsoluteIri isAbsolute
    next => contradiction

end Identifier

open Identifier (IsPlain)

theorem NameSupply.isPlain_fresh {names : NameSupply} (plain : IsPlain names.mark) {base : String}
    (basePlain : IsPlain base) : IsPlain (names.fresh base).1 := by
  apply (basePlain.append plain).append
  intro character member
  rw [Nat.toList_repr] at member
  have isDigit := Nat.isDigit_of_mem_toDigits (by decide) (by decide) member
  apply Identifier.isForbidden_of_isLocalChar
  simp [Identifier.isLocalChar, Identifier.isVariableChar, Char.isAlphanum, isDigit]

/-! ## Plain clauses -/

inductive Clause.Plain : Clause → Prop
  | hasType {subject : String} {className : Iri} : IsPlain subject → IsPlain className.text →
      Plain (.hasType subject className)
  | edge {subject object : String} {predicate : Iri} {quantifier : Quantifier} :
      IsPlain subject → IsPlain predicate.text → IsPlain object →
      Plain (.edge subject predicate quantifier object)
  | union {groups : List (List Clause)} : (∀ group ∈ groups, ∀ clause ∈ group, Plain clause) →
      Plain (.union groups)

namespace Pattern

theorem isPlain_relation {space : Namespace} (plain : IsPlain space.base) (relation : Relation) :
    IsPlain (space.iri relation.name).text := by
  apply plain.append
  cases relation <;> decide

/-- Compiled at any plain hook, the pattern's clauses are plain, and the mark of fresh names stays
as it is. -/
def CompilesPlainly (aim : Aim) (pattern : Pattern) : Prop :=
  ∀ {path hook : String} {names later : NameSupply} {found : List Clause},
    pattern.clauses aim path hook names = .ok (found, later) → IsPlain hook →
    IsPlain names.mark → (∀ clause ∈ found, clause.Plain) ∧ later.mark = names.mark

section Forms

variable {aim : Aim}

theorem plain_leafClauses (spacePlain : IsPlain aim.space.base) (targetPlain : IsPlain aim.target)
    {hook : String} (hookPlain : IsPlain hook) {className : Iri}
    (classPlain : IsPlain className.text) :
    ∀ clause ∈ leafClauses aim hook className, clause.Plain := by
  have typePlain : (Clause.hasType aim.target className).Plain := .hasType targetPlain classPlain
  have edgePlain :
      (Clause.edge hook (aim.space.iri Relation.hasPoint.name) .one aim.target).Plain :=
    .edge hookPlain (isPlain_relation spacePlain .hasPoint) targetPlain
  unfold leafClauses
  split
  · simp [typePlain]
  · simp [typePlain, edgePlain]

theorem isPlain_farEnd (targetPlain : IsPlain aim.target) {names : NameSupply}
    (markPlain : IsPlain names.mark) (child : Pattern) :
    IsPlain (farEnd aim names child).1 ∧ (farEnd aim names child).2.mark = names.mark := by
  unfold farEnd
  split
  · exact ⟨targetPlain, rfl⟩
  · exact ⟨NameSupply.isPlain_fresh markPlain (by decide), rfl⟩

theorem plain_groupsOfBranches (branches : List Pattern)
    (each : ∀ branch ∈ branches, CompilesPlainly aim branch)
    {path hook : String} {index : Nat} {names later : NameSupply} {groups : List (List Clause)}
    (compiled : groupsOfBranches aim path hook index names branches = .ok (groups, later))
    (hookPlain : IsPlain hook) (markPlain : IsPlain names.mark) :
    (∀ group ∈ groups, ∀ clause ∈ group, clause.Plain) ∧ later.mark = names.mark := by
  induction branches generalizing index names groups with
  | nil =>
      simp only [groupsOfBranches, Except.ok.injEq, Prod.mk.injEq] at compiled
      obtain ⟨rfl, rfl⟩ := compiled
      exact ⟨by simp, rfl⟩
  | cons branch rest inductionHypothesis =>
      obtain ⟨group, between, others, first, second, rfl⟩ :=
        groupsOfBranches_cons_eq_ok.1 compiled
      obtain ⟨groupPlain, sameMark⟩ := each branch List.mem_cons_self first hookPlain markPlain
      obtain ⟨othersPlain, stillSame⟩ := inductionHypothesis
        (fun other member => each other (List.mem_cons_of_mem branch member)) second
        (sameMark ▸ markPlain)
      exact ⟨List.forall_mem_cons.2 ⟨groupPlain, othersPlain⟩, stillSame.trans sameMark⟩

theorem plain_clausesOfParts (parts : List Pattern)
    (each : ∀ part ∈ parts, CompilesPlainly aim part)
    {path hook : String} {names later : NameSupply} {found : List Clause}
    (compiled : clausesOfParts aim path hook names parts = .ok (found, later))
    (hookPlain : IsPlain hook) (markPlain : IsPlain names.mark) :
    (∀ clause ∈ found, clause.Plain) ∧ later.mark = names.mark := by
  induction parts generalizing names found with
  | nil =>
      simp only [clausesOfParts, Except.ok.injEq, Prod.mk.injEq] at compiled
      obtain ⟨rfl, rfl⟩ := compiled
      exact ⟨by simp, rfl⟩
  | cons part rest inductionHypothesis =>
      obtain ⟨first, between, others, firstCompiled, restCompiled, rfl⟩ :=
        clausesOfParts_cons_eq_ok.1 compiled
      obtain ⟨firstPlain, sameMark⟩ :=
        each part List.mem_cons_self firstCompiled hookPlain markPlain
      obtain ⟨othersPlain, stillSame⟩ := inductionHypothesis
        (fun other member => each other (List.mem_cons_of_mem part member)) restCompiled
        (sameMark ▸ markPlain)
      exact ⟨List.forall_mem_append.2 ⟨firstPlain, othersPlain⟩, stillSame.trans sameMark⟩

theorem compilesPlainly (spacePlain : IsPlain aim.space.base) (targetPlain : IsPlain aim.target)
    (pattern : Pattern) : CompilesPlainly aim pattern := by
  induction pattern using treeInduction with
  | leaf className =>
      intro path hook names later found compiled hookPlain markPlain
      obtain ⟨resolved, identified, rfl, rfl⟩ := clauses_leaf_eq_ok.1 compiled
      have classPlain := Identifier.isPlain_of_classIri? spacePlain identified
      exact ⟨plain_leafClauses spacePlain targetPlain hookPlain classPlain, rfl⟩
  | constraint className child inductionHypothesis =>
      intro path hook names later found compiled hookPlain markPlain
      obtain ⟨resolved, rest, identified, below, rfl⟩ := clauses_constraint_eq_ok.1 compiled
      have classPlain := Identifier.isPlain_of_classIri? spacePlain identified
      obtain ⟨restPlain, sameMark⟩ := inductionHypothesis below hookPlain markPlain
      exact ⟨List.forall_mem_cons.2 ⟨.hasType hookPlain classPlain, restPlain⟩, sameMark⟩
  | related relation quantifier child inductionHypothesis =>
      intro path hook names later found compiled hookPlain markPlain
      obtain ⟨rest, below, rfl⟩ := clauses_related_eq_ok.1 compiled
      obtain ⟨farPlain, farMark⟩ := isPlain_farEnd targetPlain markPlain child
      obtain ⟨restPlain, sameMark⟩ := inductionHypothesis below farPlain (farMark ▸ markPlain)
      have edgePlain : (Clause.edge hook (aim.space.iri relation.name) quantifier
          (farEnd aim names child).1).Plain :=
        .edge hookPlain (isPlain_relation spacePlain relation) farPlain
      exact ⟨List.forall_mem_cons.2 ⟨edgePlain, restPlain⟩, sameMark.trans farMark⟩
  | choice branches inductionHypothesis =>
      intro path hook names later found compiled hookPlain markPlain
      obtain ⟨_, groups, below, rfl⟩ := clauses_choice_eq_ok.1 compiled
      obtain ⟨groupsPlain, sameMark⟩ := plain_groupsOfBranches branches inductionHypothesis
        below hookPlain markPlain
      exact ⟨List.forall_mem_singleton.2 (.union groupsPlain), sameMark⟩
  | all parts inductionHypothesis =>
      intro path hook names later found compiled hookPlain markPlain
      obtain ⟨_, below⟩ := clauses_all_eq_ok.1 compiled
      exact plain_clausesOfParts parts inductionHypothesis below hookPlain markPlain

end Forms

end Pattern

theorem Query.plain_of_compile {space : Namespace} (spacePlain : IsPlain space.base)
    {className target : String} {pattern : Pattern} {query : Query}
    (compiled : compile space className target pattern = .ok query) :
    IsPlain query.target ∧ (∀ clause ∈ query.clauses, clause.Plain) ∧
      ∃ rest, query.clauses = .hasType root query.className :: rest := by
  obtain ⟨_, isVariable, resolved, found, later, identified, below, rfl⟩ :=
    compile_eq_ok.1 compiled
  have targetPlain := Identifier.isPlain_of_isVariable isVariable
  have classPlain := Identifier.isPlain_of_classIri? spacePlain identified
  have rootPlain : IsPlain root := by decide
  have markPlain : IsPlain NameSupply.queryMark := by decide
  obtain ⟨foundPlain, _⟩ :=
    Pattern.compilesPlainly spacePlain targetPlain pattern below rootPlain markPlain
  exact ⟨targetPlain, List.forall_mem_cons.2 ⟨.hasType rootPlain classPlain, foundPlain⟩, found,
    rfl⟩

end BuildingRules
