import BuildingRules.Term

/-!
# Reading terms back

What is read as a term is the written form of that term: `display_of_ofText`. Literals and blank
nodes with a label are always read back from their written form. An IRI is, unless it is empty,
holds a blank or is written like a term of another kind: `ofText_iri_iff`. So of all terms with one
written form there is at most one that is read back, and reading gives that one: `readsWritten`.
-/

set_option autoImplicit false

namespace BuildingRules

/-- The IRI is written like a blank node or a literal. -/
def Iri.Mistakable (name : Iri) : Prop :=
  ∃ other : Term, other.iri? = none ∧ other.display = name.text

theorem Iri.mistakable_iff {name : Iri} :
    name.Mistakable ↔
      (∃ label, name.text = "_:" ++ label) ∨ ∃ text, name.text = "\"" ++ text ++ "\"" := by
  constructor
  · rintro ⟨other, notIri, sameText⟩
    cases other with
    | iri otherName => contradiction
    | blank label => exact .inl ⟨label, sameText.symm⟩
    | literal text => exact .inr ⟨text, sameText.symm⟩
  · rintro (⟨label, same⟩ | ⟨text, same⟩)
    · exact ⟨.blank label, rfl, same.symm⟩
    · exact ⟨.literal text, rfl, same.symm⟩

/-- Two quotes are needed: the same one cannot be the first and the last. -/
theorem Text.exists_quoted_iff {text : String} :
    (∃ inner, text = "\"" ++ inner ++ "\"") ↔
      2 ≤ text.length ∧ text.startsWith '"' = true ∧ text.endsWith '"' = true := by
  rw [← String.length_toList, String.startsWith_char_eq_head?, String.endsWith_char_eq_getLast?,
    beq_iff_eq, beq_iff_eq]
  constructor
  · rintro ⟨inner, rfl⟩
    refine ⟨by simp, by simp, List.getLast?_eq_some_iff.2 ⟨'"' :: inner.toList, by simp⟩⟩
  · rintro ⟨isLong, startsInQuote, endsInQuote⟩
    obtain ⟨before, split⟩ := List.getLast?_eq_some_iff.1 endsInQuote
    rw [split] at isLong startsInQuote
    cases before with
    | nil => simp at isLong
    | cons first inner =>
      obtain rfl : first = '"' := by simpa using startsInQuote
      exact ⟨String.ofList inner, String.toList_inj.1 (by simp [split])⟩

theorem Iri.mistakable_iff_startsWith {name : Iri} :
    name.Mistakable ↔ name.text.startsWith "_:" = true ∨
      2 ≤ name.text.length ∧ name.text.startsWith '"' = true ∧ name.text.endsWith '"' = true := by
  rw [mistakable_iff, Text.exists_quoted_iff, String.startsWith_string_iff]
  refine or_congr_left ?_
  constructor
  · rintro ⟨label, same⟩
    exact ⟨label.toList, by simp [same]⟩
  · rintro ⟨rest, same⟩
    exact ⟨String.ofList rest, String.toList_inj.1 (by simp [← same])⟩

namespace Term

/-! ## Written forms -/

theorem toList_display_blank (label : String) :
    (blank label).display.toList = '_' :: ':' :: label.toList := by
  simp [display]

theorem toList_display_literal (text : String) :
    (literal text).display.toList = '"' :: (text.toList ++ ['"']) := by
  simp [display]

theorem unquoted?_eq_some {characters inner : List Char} :
    unquoted? characters = some inner ↔ characters = '"' :: (inner ++ ['"']) := by
  constructor
  · intro isQuoted
    unfold unquoted? at isQuoted
    split at isQuoted
    next rest =>
      split at isQuoted
      next endsInQuote =>
        obtain ⟨before, rfl⟩ := List.getLast?_eq_some_iff.1 endsInQuote
        rw [List.dropLast_concat, Option.some.injEq] at isQuoted
        rw [isQuoted]
      next => contradiction
    next => contradiction
  · rintro rfl
    simp [unquoted?]

theorem display_blank_ne_display_literal (label text : String) :
    (blank label).display ≠ (literal text).display := by
  intro same
  have sameCharacters := congrArg String.toList same
  rw [toList_display_blank, toList_display_literal] at sameCharacters
  exact absurd (List.cons.inj sameCharacters).1 (by decide)

/-- Terms of one kind are written apart, and so are blank nodes and literals. -/
theorem display_eq_iff {left right : Term} :
    left.display = right.display ↔ left = right ∨
      (∃ name, left = iri name ∧ right.iri? = none ∧ right.display = name.text) ∨
      ∃ name, right = iri name ∧ left.iri? = none ∧ left.display = name.text := by
  constructor
  · intro same
    cases left with
    | iri name =>
      cases right with
      | iri other => exact .inl (congrArg iri (Iri.ext same))
      | blank label => exact .inr (.inl ⟨name, rfl, rfl, same.symm⟩)
      | literal text => exact .inr (.inl ⟨name, rfl, rfl, same.symm⟩)
    | blank label =>
      cases right with
      | iri name => exact .inr (.inr ⟨name, rfl, rfl, same⟩)
      | blank other => exact .inl (congrArg blank ((String.append_right_inj "_:").1 same))
      | literal text => exact absurd same (display_blank_ne_display_literal label text)
    | literal text =>
      cases right with
      | iri name => exact .inr (.inr ⟨name, rfl, rfl, same⟩)
      | blank label => exact absurd same.symm (display_blank_ne_display_literal label text)
      | literal other =>
        have sameCharacters := congrArg String.toList same
        rw [toList_display_literal, toList_display_literal, List.cons.injEq,
          List.append_left_inj, String.toList_inj] at sameCharacters
        exact .inl (congrArg literal sameCharacters.2)
  · rintro (rfl | ⟨name, rfl, -, same⟩ | ⟨name, rfl, -, same⟩)
    · rfl
    · exact same.symm
    · exact same

/-! ## Reading -/

theorem display_of_ofText {text : String} {term : Term} (read : ofText text = .ok term) :
    term.display = text := by
  apply String.toList_inj.1
  unfold ofText at read
  split at read
  next label isBlank =>
    split at read
    next => contradiction
    next =>
      obtain rfl := Except.ok.inj read
      rw [toList_display_blank, String.toList_ofList, isBlank]
  next =>
    split at read
    next inner isQuoted =>
      obtain rfl := Except.ok.inj read
      rw [toList_display_literal, String.toList_ofList, unquoted?_eq_some.1 isQuoted]
    next =>
      split at read
      next => contradiction
      next =>
        obtain rfl := Except.ok.inj read
        rfl

theorem ofText_display_literal (text : String) :
    ofText (literal text).display = .ok (literal text) := by
  have isQuoted : unquoted? (literal text).display.toList = some text.toList :=
    unquoted?_eq_some.2 (toList_display_literal text)
  unfold ofText
  split
  next label isBlank =>
    rw [toList_display_literal] at isBlank
    exact absurd (List.cons.inj isBlank).1 (by decide)
  next => simp [isQuoted]

theorem ofText_display_blank {label : String} (hasLabel : label ≠ "") :
    ofText (blank label).display = .ok (blank label) := by
  have notEmpty : label.toList.isEmpty = false := by
    rwa [List.isEmpty_eq_false_iff, Ne, String.toList_eq_nil_iff]
  unfold ofText
  rw [toList_display_blank]
  simp [notEmpty]

/-- A term of another kind is never read as an IRI. -/
theorem not_mistakable_of_ofText {name : Iri} (read : ofText name.text = .ok (iri name)) :
    ¬name.Mistakable := by
  rintro ⟨other, notIri, sameText⟩
  rw [← sameText] at read
  cases other with
  | iri otherName => contradiction
  | literal text =>
    rw [ofText_display_literal] at read
    exact absurd (Except.ok.inj read) (by simp)
  | blank label =>
    by_cases hasLabel : label = ""
    · subst hasLabel
      contradiction
    · rw [ofText_display_blank hasLabel] at read
      exact absurd (Except.ok.inj read) (by simp)

/-- What is written like no other term is an IRI if it holds something and no blanks. -/
theorem ofText_of_not_mistakable {name : Iri} (notMistakable : ¬name.Mistakable) :
    ofText name.text =
      if name.text.toList.isEmpty || name.text.toList.any Text.isBlank then
        .error (.of (.malformedIdentifier name.text "term"))
      else .ok (iri name) := by
  unfold ofText
  split
  next label isBlank =>
    refine absurd ⟨blank (String.ofList label), rfl, String.toList_inj.1 ?_⟩ notMistakable
    rw [toList_display_blank, String.toList_ofList, isBlank]
  next =>
    split
    next inner isQuoted =>
      refine absurd ⟨literal (String.ofList inner), rfl, String.toList_inj.1 ?_⟩ notMistakable
      rw [toList_display_literal, String.toList_ofList, unquoted?_eq_some.1 isQuoted]
    next => rfl

theorem ofText_iri_iff {name : Iri} :
    ofText name.text = .ok (iri name) ↔
      name.text ≠ "" ∧ (∀ character ∈ name.text.toList, Text.isBlank character = false) ∧
        ¬name.Mistakable := by
  have isIri : ¬name.Mistakable → (ofText name.text = .ok (iri name) ↔
      name.text ≠ "" ∧ ∀ character ∈ name.text.toList, Text.isBlank character = false) := by
    intro notMistakable
    rw [ofText_of_not_mistakable notMistakable]
    simp
  constructor
  · intro read
    have notMistakable := not_mistakable_of_ofText read
    obtain ⟨notEmpty, noBlank⟩ := (isIri notMistakable).1 read
    exact ⟨notEmpty, noBlank, notMistakable⟩
  · rintro ⟨notEmpty, noBlank, notMistakable⟩
    exact (isIri notMistakable).2 ⟨notEmpty, noBlank⟩

/-! ## Where writing and reading are inverse -/

/-- Reading takes the written form for this very term. -/
def Legible : Term → Prop
  | .literal _ => True
  | .blank label => label ≠ ""
  | .iri name =>
    name.text ≠ "" ∧ (∀ character ∈ name.text.toList, Text.isBlank character = false) ∧
      name.text.startsWith "_:" = false ∧
      ¬(2 ≤ name.text.length ∧ name.text.startsWith '"' = true ∧ name.text.endsWith '"' = true)

theorem ofText_display_iff {term : Term} : ofText term.display = .ok term ↔ term.Legible := by
  cases term with
  | iri name =>
    show ofText name.text = .ok (iri name) ↔ _
    rw [ofText_iri_iff, Iri.mistakable_iff_startsWith, not_or, Bool.not_eq_true, Legible]
  | blank label =>
    constructor
    · rintro read rfl
      contradiction
    · exact ofText_display_blank
  | literal text => exact iff_of_true (ofText_display_literal text) trivial

/-- A text is read as the one legible term that it is the written form of. -/
theorem ofText_eq_ok {text : String} {term : Term} :
    ofText text = .ok term ↔ term.Legible ∧ term.display = text := by
  constructor
  · intro read
    have written := display_of_ofText read
    refine ⟨ofText_display_iff.1 ?_, written⟩
    rwa [written]
  · rintro ⟨legible, rfl⟩
    exact ofText_display_iff.2 legible

/-- Whatever is refused is refused as it stands. -/
theorem error_of_ofText {text : String} {error : Error} (refused : ofText text = .error error) :
    error = .of (.malformedIdentifier text "term") := by
  unfold ofText at refused
  split at refused
  next =>
    split at refused
    next => exact (Except.error.inj refused).symm
    next => contradiction
  next =>
    split at refused
    next => contradiction
    next =>
      split at refused
      next => exact (Except.error.inj refused).symm
      next => contradiction

theorem ofText_eq_error {text : String} {error : Error} :
    ofText text = .error error ↔
      (∀ term : Term, term.Legible → term.display ≠ text) ∧
        error = .of (.malformedIdentifier text "term") := by
  constructor
  · intro refused
    refine ⟨fun term legible written => ?_, error_of_ofText refused⟩
    rw [ofText_eq_ok.2 ⟨legible, written⟩] at refused
    contradiction
  · rintro ⟨noneWritten, rfl⟩
    cases read : ofText text with
    | ok term =>
      obtain ⟨legible, written⟩ := ofText_eq_ok.1 read
      exact absurd written (noneWritten term legible)
    | error error => rw [error_of_ofText read]

/-- How reading and writing of terms undo each other, and where they do not. -/
structure ReadsWritten : Prop where
  written : ∀ text term, ofText text = .ok term → term.display = text
  injective : ∀ left right term, ofText left = .ok term → ofText right = .ok term → left = right
  readBack : ∀ term, ofText term.display = .ok term ↔ term.Legible
  /-- A term that is not read back is refused if no legible term is written like it, and is
  taken for that legible term if there is one. -/
  misread : ∀ term, ¬term.Legible →
    ofText term.display = .error (.of (.malformedIdentifier term.display "term")) ∧
        (∀ other : Term, other.Legible → other.display ≠ term.display) ∨
      ∃ other : Term, ofText term.display = .ok other ∧ other ≠ term ∧ other.Legible ∧
        other.display = term.display

theorem readsWritten : ReadsWritten where
  written _ _ read := display_of_ofText read
  injective left right term readLeft readRight := by
    rw [← display_of_ofText readLeft, display_of_ofText readRight]
  readBack _ := ofText_display_iff
  misread term notLegible := by
    cases read : ofText term.display with
    | error error =>
      obtain ⟨noneWritten, rfl⟩ := ofText_eq_error.1 read
      exact .inl ⟨rfl, noneWritten⟩
    | ok other =>
      obtain ⟨legible, written⟩ := ofText_eq_ok.1 read
      refine .inr ⟨other, rfl, ?_, legible, written⟩
      rintro rfl
      exact notLegible legible

/-- A lone quote is an IRI, and two of them are the empty literal. -/
example : ofText "\"" = .ok (.iri ⟨"\""⟩) ∧ ofText "\"\"" = .ok (.literal "") :=
  ⟨rfl, rfl⟩

end Term

end BuildingRules
