import BuildingRules.NTriples.Grammar
import BuildingRules.NTriples.Line
import BuildingRules.Proofs.PlainNames
import Mathlib.Data.List.DropRight
import Mathlib.Tactic.IntervalCases

/-!
# Terms of a line

Each reader of a part of a line succeeds exactly on the texts of the grammar and gives what the
grammar says: IRIs (`iri_eq_ok`), labels (`longestLabel_iff`), escapes (`escapedChar_eq_ok`) and
literals (`literalText_eq_ok`). A literal without qualifier could be continued by what follows it,
so a term is found in every text that the grammar allows it in as long as a literal is followed by a
blank or the dot: `term_of_termAt`.
-/

set_option autoImplicit false

namespace BuildingRules

/-! ## Blanks -/

namespace Text

open NTriples (AllBlank Gap Trimmed)

theorem allBlank_takeWhile (text : List Char) : AllBlank (text.takeWhile isBlank) :=
  fun _ member => List.mem_takeWhile_imp member

theorem gap_trimStart (text : List Char) : Gap text (trimStart text) :=
  ⟨text.takeWhile isBlank, allBlank_takeWhile text, List.takeWhile_append_dropWhile.symm⟩

theorem head?_trimStart {text : List Char} {character : Char}
    (isFirst : (trimStart text).head? = some character) : isBlank character = false := by
  have notBlank := List.head?_dropWhile_not isBlank text
  rw [trimStart] at isFirst
  rw [isFirst] at notBlank
  simpa using notBlank

/-- A gap ends where the first character stands that is no blank. -/
theorem trimStart_of_gap {text rest : List Char} (gap : Gap text rest)
    (starts : ∀ character, rest.head? = some character → isBlank character = false) :
    trimStart text = rest := by
  obtain ⟨blanks, allBlank, rfl⟩ := gap
  rw [trimStart, List.dropWhile_append_of_pos allBlank]
  cases rest with
  | nil => rfl
  | cons character rest => rw [List.dropWhile_cons_of_neg (by simp [starts character rfl])]

theorem exists_back (line : List Char) :
    ∃ back, AllBlank back ∧ trimStart line = trim line ++ back := by
  refine ⟨((trimStart line).reverse.takeWhile isBlank).reverse, ?_, ?_⟩
  · intro character member
    exact allBlank_takeWhile _ character (List.mem_reverse.1 member)
  · rw [trim, trimEnd, ← List.reverse_append, List.takeWhile_append_dropWhile,
      List.reverse_reverse]

theorem head?_trim (line : List Char) : (trim line).head? = (trimStart line).head? := by
  obtain ⟨back, allBlank, isBack⟩ := exists_back line
  rw [isBack, List.head?_append]
  cases isFirst : back.head? with
  | none => rw [Option.or_none]
  | some character =>
      cases isTrim : trim line with
      | cons first rest => rfl
      | nil =>
          -- with nothing before them the blanks would start the text
          have starts : (trimStart line).head? = some character := by
            rw [isBack, isTrim, List.nil_append, isFirst]
          have isBlank := allBlank character (List.mem_of_mem_head? isFirst)
          rw [head?_trimStart starts] at isBlank
          contradiction

theorem trimmed_trim (line : List Char) : Trimmed line (trim line) := by
  obtain ⟨front, frontBlank, isFront⟩ := gap_trimStart line
  obtain ⟨back, backBlank, isBack⟩ := exists_back line
  refine ⟨⟨front, back, frontBlank, backBlank, ?_⟩, ?_, ?_⟩
  · rw [List.append_assoc, ← isBack]
    exact isFront
  · intro character isFirst
    exact head?_trimStart ((head?_trim line).symm.trans isFirst)
  · intro character isLast
    rw [trim, trimEnd, List.getLast?_reverse] at isLast
    exact head?_trimStart isLast

end Text

namespace NTriples

/-! ## IRIs -/

theorem iri_eq_ok {body rest : List Char} {name : Iri} :
    iri body = .ok (name, rest) ↔
      ∃ inner, IriBody inner ∧ body = inner ++ '>' :: rest ∧ name = ⟨String.ofList inner⟩ := by
  constructor
  · intro read
    have whole := List.takeWhile_append_dropWhile (p := (· != '>')) (l := body)
    have noEnd : ∀ character ∈ body.takeWhile (· != '>'), character ≠ '>' :=
      fun character member => by simpa using List.mem_takeWhile_imp member
    simp only [iri] at read
    split at read
    next => contradiction
    next first left isRest =>
      have isEnd : first = '>' := by
        have stops := List.head?_dropWhile_not (· != '>') body
        rw [isRest] at stops
        simpa using stops
      split at read
      next => contradiction
      next isProper =>
        simp only [Bool.or_eq_true, not_or, List.isEmpty_iff, List.any_eq_true, not_exists,
          not_and, Bool.not_eq_true] at isProper
        obtain ⟨nonempty, noBlank⟩ := isProper
        simp only [Except.ok.injEq, Prod.mk.injEq] at read
        obtain ⟨rfl, rfl⟩ := read
        refine ⟨_, ⟨nonempty, fun character member =>
          ⟨noEnd character member, noBlank character member⟩⟩, ?_, rfl⟩
        rw [isEnd] at isRest
        rw [← isRest, whole]
  · rintro ⟨inner, ⟨nonempty, proper⟩, rfl, rfl⟩
    have noEnd : ∀ character ∈ inner, (character != '>') = true :=
      fun character member => by simpa using (proper character member).1
    have noBlank : inner.any Text.isBlank = false := by
      rw [List.any_eq_false]
      intro character member
      simp [(proper character member).2]
    simp [iri, List.takeWhile_append_of_pos noEnd, List.dropWhile_append_of_pos noEnd, nonempty,
      noBlank]

/-! ## Blank node labels -/

theorem inLabel_iff {character : Char} : isLabelChar character = true ↔ InLabel character := by
  simp only [isLabelChar, InLabel, Bool.or_eq_true, beq_iff_eq, or_assoc]

/-- A label starts with the same characters as the text, and dots are all that may be left of the
run of such characters. -/
theorem exists_dots (body : List Char) :
    ∃ dots, (∀ character ∈ dots, character = '.') ∧
      label body ++ dots = body.takeWhile isLabelChar := by
  refine ⟨((body.takeWhile isLabelChar).reverse.takeWhile (· == '.')).reverse, ?_, ?_⟩
  · intro character member
    simpa using List.mem_takeWhile_imp (List.mem_reverse.1 member)
  · rw [label, ← List.reverse_append, List.takeWhile_append_dropWhile, List.reverse_reverse]

theorem label_starts (body : List Char) : label body <+: body := by
  obtain ⟨dots, _, isRun⟩ := exists_dots body
  exact ((label body).prefix_append dots).trans (isRun ▸ List.takeWhile_prefix isLabelChar)

theorem label_label {body : List Char} (nonempty : label body ≠ []) : Label (label body) := by
  refine ⟨nonempty, ?_, ?_⟩
  · intro character member
    obtain ⟨dots, _, isRun⟩ := exists_dots body
    have inRun : character ∈ body.takeWhile isLabelChar :=
      isRun ▸ List.mem_append_left dots member
    exact inLabel_iff.1 (List.mem_takeWhile_imp inRun)
  · rw [label, List.getLast?_reverse]
    have stops := List.head?_dropWhile_not (· == '.') (body.takeWhile isLabelChar).reverse
    intro isDot
    rw [isDot] at stops
    simp at stops

theorem length_le_label {other body : List Char} (isLabel : Label other) (starts : other <+: body) :
    other.length ≤ (label body).length := by
  obtain ⟨nonempty, allIn, notDot⟩ := isLabel
  obtain ⟨dots, allDots, isRun⟩ := exists_dots body
  have inRun : other <+: label body ++ dots := by
    obtain ⟨rest, rfl⟩ := starts
    rw [isRun, List.takeWhile_append_of_pos fun character member =>
      inLabel_iff.2 (allIn character member)]
    exact List.prefix_append other _
  rcases List.prefix_or_prefix_of_prefix inRun (List.prefix_append _ dots) with within | beyond
  · exact within.length_le
  · -- what goes beyond would end in one of the dots
    obtain ⟨more, rfl⟩ := beyond
    have inDots : more <+: dots := (List.prefix_append_right_inj _).1 inRun
    rcases List.eq_nil_or_concat more with rfl | ⟨before, last, rfl⟩
    · simp
    · have isDot := allDots last (inDots.subset (by simp))
      simp [isDot] at notDot

theorem longestLabel_iff {found body : List Char} :
    LongestLabel found body ↔ found = label body ∧ label body ≠ [] := by
  constructor
  · rintro ⟨isLabel, starts, longest⟩
    have nonempty : label body ≠ [] := by
      intro isNil
      have bounded := length_le_label isLabel starts
      rw [isNil] at bounded
      exact isLabel.1 (List.eq_nil_of_length_eq_zero (Nat.le_zero.1 bounded))
    have sameLength : found.length = (label body).length :=
      Nat.le_antisymm (length_le_label isLabel starts)
        (longest _ (label_label nonempty) (label_starts body))
    have isPrefix := List.prefix_of_prefix_length_le starts (label_starts body) sameLength.le
    exact ⟨isPrefix.eq_of_length sameLength, nonempty⟩
  · rintro ⟨rfl, nonempty⟩
    exact ⟨label_label nonempty, label_starts body, fun _ => length_le_label⟩

theorem blankNode_eq_ok {text rest : List Char} {node : Term} :
    blankNode text = .ok (node, rest) ↔
      ∃ found, LongestLabel found (found ++ rest) ∧ text = ':' :: found ++ rest ∧
        node = .blank (String.ofList found) := by
  constructor
  · intro read
    unfold blankNode at read
    split at read
    next body =>
      dsimp only at read
      split at read
      next => contradiction
      next isProper =>
        simp only [Except.ok.injEq, Prod.mk.injEq] at read
        obtain ⟨rfl, rfl⟩ := read
        have whole : label body ++ body.drop (label body).length = body :=
          List.prefix_iff_eq_append.1 (label_starts body)
        refine ⟨label body, ?_, ?_, rfl⟩
        · rw [whole]
          exact longestLabel_iff.2 ⟨rfl, by simpa using isProper⟩
        · rw [List.cons_append, whole]
    next => contradiction
  · rintro ⟨found, isLongest, rfl, rfl⟩
    obtain ⟨isLabel, nonempty⟩ := longestLabel_iff.1 isLongest
    rw [← isLabel] at nonempty
    simp [blankNode, ← isLabel, nonempty]

/-! ## Escapes -/

/-- Between two characters there are only those whose codes lie between theirs. -/
theorem exists_code {low high digit : Char} (within : low ≤ digit ∧ digit ≤ high) :
    ∃ code, digit = Char.ofNat code ∧ low.toNat ≤ code ∧ code ≤ high.toNat :=
  ⟨digit.toNat, (Char.ofNat_toNat digit).symm, within.1, within.2⟩

theorem HexDigit.lt {digit : Char} {value : Nat} (isDigit : HexDigit digit value) : value < 16 := by
  rcases isDigit with lower | upper
  · exact (List.getElem?_eq_some_iff.1 lower).1
  · exact (List.getElem?_eq_some_iff.1 upper).1

theorem hexValue?_eq_some {digit : Char} {value : Nat} :
    Text.hexValue? digit = some value ↔ HexDigit digit value := by
  constructor
  · intro read
    unfold Text.hexValue? at read
    simp only [Bool.and_eq_true, decide_eq_true_eq] at read
    split at read
    next within =>
      obtain ⟨code, rfl, least, greatest⟩ := exists_code within
      obtain rfl := Option.some.inj read
      change 48 ≤ code at least
      change code ≤ 57 at greatest
      left
      interval_cases code <;> rfl
    next =>
      split at read
      next within =>
        obtain ⟨code, rfl, least, greatest⟩ := exists_code within
        obtain rfl := Option.some.inj read
        change 97 ≤ code at least
        change code ≤ 102 at greatest
        left
        interval_cases code <;> rfl
      next =>
        split at read
        next within =>
          obtain ⟨code, rfl, least, greatest⟩ := exists_code within
          obtain rfl := Option.some.inj read
          change 65 ≤ code at least
          change code ≤ 70 at greatest
          right
          interval_cases code <;> rfl
        next => contradiction
  · intro isDigit
    have bound := isDigit.lt
    rcases isDigit with lower | upper
    · interval_cases value <;> (obtain rfl := Option.some.inj lower; rfl)
    · interval_cases value <;> (obtain rfl := Option.some.inj upper; rfl)

theorem hexNumber?_concat (digits : List Char) (digit : Char) :
    Text.hexNumber? (digits ++ [digit]) = (Text.hexNumber? digits).bind fun number =>
      (Text.hexValue? digit).map (number * 16 + ·) := by
  rw [Text.hexNumber?, List.foldlM_append]
  simp [Text.hexNumber?, Option.bind_eq_bind]

theorem hexNumber?_eq_some {digits : List Char} {number : Nat} :
    Text.hexNumber? digits = some number ↔ HexNumber digits number := by
  constructor
  · intro read
    induction digits using List.reverseRecOn generalizing number with
    | nil =>
        obtain rfl := Option.some.inj read
        exact .none
    | append_singleton digits digit inductionHypothesis =>
        rw [hexNumber?_concat, Option.bind_eq_some_iff] at read
        obtain ⟨before, isBefore, read⟩ := read
        obtain ⟨value, isValue, rfl⟩ := Option.map_eq_some_iff.1 read
        rw [Nat.mul_comm]
        exact .more (inductionHypothesis isBefore) (hexValue?_eq_some.1 isValue)
  · intro isNumber
    induction isNumber with
    | none => rfl
    | more _ isDigit inductionHypothesis =>
        rw [hexNumber?_concat, inductionHypothesis, Option.bind_some, hexValue?_eq_some.2 isDigit,
          Option.map_some, Nat.mul_comm]

theorem HexNumber.lt {digits : List Char} {number : Nat} (isNumber : HexNumber digits number) :
    number < 16 ^ digits.length := by
  induction isNumber with
  | none => exact Nat.one_pos
  | more _ isDigit inductionHypothesis =>
      have small := isDigit.lt
      rw [List.length_append, List.length_singleton, Nat.pow_succ]
      omega

/-- The digits name a character exactly when their number is its code. -/
theorem escapedChar_eq_ok {count : Nat} {digits : List Char} {character : Char} :
    escapedChar count digits = .ok character ↔ HexNumber digits character.toNat := by
  rw [← hexNumber?_eq_some]
  unfold escapedChar Text.scalar?
  cases isNumber : Text.hexNumber? digits with
  | none => simp
  | some code =>
      by_cases isCode : code.isValidChar
      · simp only [isCode, if_true, Except.ok.injEq, Option.some.injEq]
        constructor
        · rintro rfl
          rw [Char.ofNat, dif_pos isCode]
          rfl
        · rintro rfl
          exact Char.ofNat_toNat character
      · simp only [isCode, if_false, reduceCtorEq, Option.some.injEq, false_iff]
        rintro rfl
        exact isCode character.valid

theorem simpleEscape?_eq_some {escaped character : Char} :
    simpleEscape? escaped = some character → Escape ['\\', escaped] character := by
  intro read
  unfold simpleEscape? at read
  split at read
  next => obtain rfl := Option.some.inj read; exact .newline
  next => obtain rfl := Option.some.inj read; exact .tab
  next => obtain rfl := Option.some.inj read; exact .carriageReturn
  next => obtain rfl := Option.some.inj read; exact .quote
  next => obtain rfl := Option.some.inj read; exact .backslash
  next => contradiction

/-! ## Literals -/

theorem prepend_eq_ok {character : Char} {read : Except Fault (List Char × List Char)}
    {text rest : List Char} :
    prepend character read = .ok (text, rest) ↔
      ∃ tail, read = .ok (tail, rest) ∧ text = character :: tail := by
  rw [prepend, map_eq_ok]
  simp only [Prod.exists, Prod.mk.injEq]
  grind

theorem literalText_raw {character : Char} (notQuote : character ≠ '"')
    (notEscape : character ≠ '\\') (rest : List Char) :
    literalText (character :: rest) = prepend character (literalText rest) := by
  rw [literalText]
  all_goals grind

theorem literalText_escape {escaped : List Char} {character : Char}
    (escape : Escape escaped character) (rest : List Char) :
    literalText (escaped ++ rest) = prepend character (literalText rest) := by
  cases escape with
  | newline => rfl
  | tab => rfl
  | carriageReturn => rfl
  | quote => rfl
  | backslash => rfl
  | @short digits _ count isNumber =>
      match digits, count, isNumber with
      | [a, b, c, d], _, isNumber =>
          simp only [List.cons_append, List.nil_append, literalText, escapedChar_eq_ok.2 isNumber]
          rfl
  | @long digits _ count isNumber =>
      match digits, count, isNumber with
      | [a, b, c, d, e, f, g, h], _, isNumber =>
          simp only [List.cons_append, List.nil_append, literalText, escapedChar_eq_ok.2 isNumber]
          rfl

theorem literalText_eq_ok {body text rest : List Char} :
    literalText body = .ok (text, rest) ↔
      ∃ inner, LiteralBody inner text ∧ body = inner ++ '"' :: rest := by
  constructor
  · intro read
    fun_induction literalText body generalizing text with
    | case1 => contradiction
    | case2 rest =>
        obtain ⟨rfl, rfl⟩ := Prod.mk.inj (Except.ok.inj read)
        exact ⟨[], .nil, rfl⟩
    | case3 => contradiction
    | case4 a b c d left inductionHypothesis =>
        obtain ⟨character, named, read⟩ := bind_eq_ok.1 read
        obtain ⟨tail, readTail, rfl⟩ := prepend_eq_ok.1 read
        obtain ⟨inner, isBody, rfl⟩ := inductionHypothesis readTail
        exact ⟨_, .escape (.short rfl (escapedChar_eq_ok.1 named)) isBody, rfl⟩
    | case5 => contradiction
    | case6 a b c d e f g h left inductionHypothesis =>
        obtain ⟨character, named, read⟩ := bind_eq_ok.1 read
        obtain ⟨tail, readTail, rfl⟩ := prepend_eq_ok.1 read
        obtain ⟨inner, isBody, rfl⟩ := inductionHypothesis readTail
        exact ⟨_, .escape (.long rfl (escapedChar_eq_ok.1 named)) isBody, rfl⟩
    | case7 => contradiction
    | case8 escaped left _ _ _ _ character isEscape inductionHypothesis =>
        obtain ⟨tail, readTail, rfl⟩ := prepend_eq_ok.1 read
        obtain ⟨inner, isBody, rfl⟩ := inductionHypothesis readTail
        exact ⟨_, .escape (simpleEscape?_eq_some isEscape) isBody, rfl⟩
    | case9 => contradiction
    | case10 character left notQuote notLast _ _ _ _ notEscaped inductionHypothesis =>
        have notEscape : character ≠ '\\' := by
          intro isEscape
          cases left with
          | nil => exact notLast isEscape rfl
          | cons escaped others => exact notEscaped escaped others isEscape rfl
        obtain ⟨tail, readTail, rfl⟩ := prepend_eq_ok.1 read
        obtain ⟨inner, isBody, rfl⟩ := inductionHypothesis readTail
        exact ⟨_, .raw notQuote notEscape isBody, rfl⟩
  · rintro ⟨inner, isBody, rfl⟩
    induction isBody with
    | nil => rfl
    | raw notQuote notEscape _ inductionHypothesis =>
        rw [List.cons_append, literalText_raw notQuote notEscape, inductionHypothesis]
        rfl
    | escape isEscape _ inductionHypothesis =>
        rw [List.append_assoc, literalText_escape isEscape, inductionHypothesis]
        rfl

/-! ## Qualifiers -/

theorem inTag_iff {character : Char} : isTagChar character = true ↔ InTag character := by
  simp only [isTagChar, InTag, Bool.or_eq_true, beq_iff_eq]

/-- The text begins with a blank or a dot, neither of which continues a term. -/
def AtBreak (text : List Char) : Prop :=
  ∃ character rest, text = character :: rest ∧ (Text.isBlank character = true ∨ character = '.')

theorem not_inTag_of_break {character : Char}
    (isBreak : Text.isBlank character = true ∨ character = '.') : ¬InTag character := by
  intro inTag
  rcases isBreak with isBlank | rfl
  · have isLocal : Identifier.isLocalChar character = true := by
      rw [Identifier.isLocalChar, Identifier.isVariableChar]
      rcases inTag with alphanumeric | rfl
      · rw [alphanumeric]
        rfl
      · rfl
    rw [Identifier.isBlank_of_isLocalChar isLocal] at isBlank
    contradiction
  · rcases inTag with alphanumeric | isHyphen
    · exact absurd alphanumeric (by decide)
    · exact absurd isHyphen (by decide)

theorem qualifier_of_afterAnnotation {text rest : List Char}
    (read : afterAnnotation text = .ok rest) :
    ∃ qualifier, Qualifier qualifier ∧ text = qualifier ++ rest := by
  unfold afterAnnotation at read
  split at read
  next tagged =>
    obtain rfl := Except.ok.inj read
    refine ⟨'@' :: tagged.takeWhile isTagChar, .language fun character member =>
      inTag_iff.1 (List.mem_takeWhile_imp member), ?_⟩
    rw [List.cons_append, List.takeWhile_append_dropWhile]
  next body =>
    obtain ⟨⟨name, left⟩, isIri, rfl⟩ := map_eq_ok.1 read
    obtain ⟨inner, isBody, rfl, _⟩ := iri_eq_ok.1 isIri
    exact ⟨_, .datatype isBody, by simp⟩
  next => contradiction
  next =>
    obtain rfl := Except.ok.inj read
    exact ⟨[], .none, rfl⟩

theorem afterAnnotation_of_qualifier {qualifier rest : List Char}
    (isQualifier : Qualifier qualifier) (atBreak : AtBreak rest) :
    afterAnnotation (qualifier ++ rest) = .ok rest := by
  obtain ⟨character, tail, rfl, isBreak⟩ := atBreak
  cases isQualifier with
  | none =>
      have notAt : character ≠ '@' := by
        rintro rfl
        exact absurd isBreak (by decide)
      have notCaret : character ≠ '^' := by
        rintro rfl
        exact absurd isBreak (by decide)
      rw [List.nil_append, afterAnnotation]
      all_goals grind
  | @language tag allIn =>
      have notTag : isTagChar character = false :=
        Bool.eq_false_iff.2 (mt inTag_iff.1 (not_inTag_of_break isBreak))
      rw [List.cons_append, afterAnnotation,
        List.dropWhile_append_of_pos fun other member => inTag_iff.2 (allIn other member),
        List.dropWhile_cons_of_neg (by simp [notTag])]
  | @datatype body isBody =>
      have isIri : iri (body ++ '>' :: character :: tail) =
          .ok (⟨String.ofList body⟩, character :: tail) := iri_eq_ok.2 ⟨body, isBody, rfl, rfl⟩
      simp [isIri, afterAnnotation, Except.map]

/-! ## Terms -/

theorem termAt_of_literal {body rest : List Char} {found : Term}
    (read : literal body = .ok (found, rest)) : TermAt ('"' :: body) found rest := by
  obtain ⟨⟨text, left⟩, isText, read⟩ := bind_eq_ok.1 read
  obtain ⟨other, isAnnotated, read⟩ := bind_eq_ok.1 read
  simp only [Except.ok.injEq, Prod.mk.injEq] at read
  obtain ⟨rfl, rfl⟩ := read
  obtain ⟨inner, isBody, rfl⟩ := literalText_eq_ok.1 isText
  obtain ⟨qualifier, isQualifier, rfl⟩ := qualifier_of_afterAnnotation isAnnotated
  have starts : TermAt _ _ other := .literal isBody isQualifier
  simpa using starts

theorem termAt_of_term {text rest : List Char} {found : Term}
    (read : term text = .ok (found, rest)) :
    ∃ start, Gap text start ∧ TermAt start found rest := by
  refine ⟨Text.trimStart text, Text.gap_trimStart text, ?_⟩
  unfold term at read
  split at read
  next => contradiction
  next body starts =>
    obtain ⟨⟨name, left⟩, isIri, read⟩ := map_eq_ok.1 read
    obtain ⟨rfl, rfl⟩ := Prod.mk.inj read
    obtain ⟨inner, isBody, rfl, rfl⟩ := iri_eq_ok.1 isIri
    rw [starts]
    exact .iri isBody
  next left starts =>
    obtain ⟨label, isLongest, rfl, rfl⟩ := blankNode_eq_ok.1 read
    rw [starts]
    exact .blank isLongest
  next body starts =>
    rw [starts]
    exact termAt_of_literal read
  next => contradiction

/-- The first character of a term tells which kind it is, and is no blank. -/
theorem TermAt.starts {text rest : List Char} {found : Term} (isTerm : TermAt text found rest) :
    ∀ character, text.head? = some character → Text.isBlank character = false := by
  intro character isFirst
  cases isTerm with
  | iri | blank | literal =>
      obtain rfl := Option.some.inj isFirst
      rfl

theorem term_of_termAt {text start rest : List Char} {found : Term} (gap : Gap text start)
    (isTerm : TermAt start found rest) (settled : found.isResource = true ∨ AtBreak rest) :
    term text = .ok (found, rest) := by
  rw [term, Text.trimStart_of_gap gap isTerm.starts]
  cases isTerm with
  | @iri body _ isBody =>
      have isIri : iri (body ++ '>' :: rest) = .ok (⟨String.ofList body⟩, rest) :=
        iri_eq_ok.2 ⟨body, isBody, rfl, rfl⟩
      simp [isIri, Except.map]
  | @blank label _ isLongest =>
      exact blankNode_eq_ok.2 ⟨label, isLongest, rfl, rfl⟩
  | @literal body inner qualifier _ isBody isQualifier =>
      have atBreak : AtBreak rest := settled.resolve_left (by simp [Term.isResource])
      have isText : literalText (body ++ '"' :: (qualifier ++ rest)) =
          .ok (inner, qualifier ++ rest) := literalText_eq_ok.2 ⟨body, isBody, rfl⟩
      have isAnnotated := afterAnnotation_of_qualifier isQualifier atBreak
      simp only [List.cons_append, List.append_assoc]
      simp [literal, isText, isAnnotated, bind, Except.bind]

end NTriples

end BuildingRules
