import BuildingRules.NTriples.Model
import BuildingRules.Proofs.TripleTerms

/-!
# Lines of a model

A line is read exactly as the grammar has it, and a text is a model exactly when each of its lines
is empty, a comment or a triple; otherwise the first other line is blamed: `reads_by_grammar`.
-/

set_option autoImplicit false

namespace BuildingRules.NTriples

/-! ## Ends of lines -/

theorem isSkipped_iff {text : List Char} : isSkipped text = true ↔ EmptyOrComment text := by
  cases text with
  | nil => simp [isSkipped, EmptyOrComment]
  | cons character rest =>
      by_cases isHash : character = '#' <;> simp [isSkipped, EmptyOrComment, isHash]

theorem emptyOrComment_trim_iff {text : List Char} :
    EmptyOrComment (Text.trim text) ↔ EmptyOrComment (Text.trimStart text) := by
  rw [EmptyOrComment, EmptyOrComment, ← List.head?_eq_none_iff, ← List.head?_eq_none_iff,
    Text.head?_trim]

theorem EmptyOrComment.starts {text : List Char} (isEnd : EmptyOrComment text) :
    ∀ character, text.head? = some character → Text.isBlank character = false := by
  intro character isFirst
  rcases isEnd with rfl | isHash
  · contradiction
  · rw [isHash] at isFirst
    obtain rfl := Option.some.inj isFirst
    rfl

theorem finish_of_dot {text afterDot : List Char} (isDot : Text.trimStart text = '.' :: afterDot) :
    finish text = .ok () ↔ EmptyOrComment (Text.trimStart afterDot) := by
  rw [← emptyOrComment_trim_iff, ← isSkipped_iff]
  simp only [finish, isDot, isSkipped]
  generalize Text.trim afterDot = ending
  cases ending with
  | nil => simp
  | cons character rest => by_cases isHash : character = '#' <;> simp [isHash]

theorem finish_eq_ok {text : List Char} :
    finish text = .ok () ↔
      ∃ afterDot tail, Gap text ('.' :: afterDot) ∧ Gap afterDot tail ∧ EmptyOrComment tail := by
  constructor
  · intro read
    obtain ⟨afterDot, isDot⟩ : ∃ afterDot, Text.trimStart text = '.' :: afterDot := by
      unfold finish at read
      split at read
      next afterDot isDot => exact ⟨afterDot, isDot⟩
      next => contradiction
    exact ⟨afterDot, _, isDot ▸ Text.gap_trimStart text, Text.gap_trimStart afterDot,
      (finish_of_dot isDot).1 read⟩
  · rintro ⟨afterDot, tail, gap, gapAfter, isEnd⟩
    have isDot : Text.trimStart text = '.' :: afterDot :=
      Text.trimStart_of_gap gap fun character isFirst => by
        obtain rfl := Option.some.inj isFirst
        rfl
    rw [finish_of_dot isDot, Text.trimStart_of_gap gapAfter isEnd.starts]
    exact isEnd

/-! ## Triples -/

theorem atBreak_of_gap {text afterDot : List Char} (gap : Gap text ('.' :: afterDot)) :
    AtBreak text := by
  obtain ⟨blanks, allBlank, rfl⟩ := gap
  cases blanks with
  | nil => exact ⟨'.', afterDot, rfl, .inr rfl⟩
  | cons blank others => exact ⟨blank, _, rfl, .inl (allBlank blank List.mem_cons_self)⟩

theorem triple_eq_ok {text : List Char} {found : Triple} :
    triple text = .ok found ∧ found.subject.isResource = true ↔ TripleText text found := by
  constructor
  · rintro ⟨read, isResource⟩
    obtain ⟨⟨subject, afterSubject⟩, isSubject, read⟩ := bind_eq_ok.1 read
    obtain ⟨⟨predicate, afterPredicate⟩, isPredicate, read⟩ := bind_eq_ok.1 read
    dsimp only at read
    split at read
    next name =>
      obtain ⟨⟨object, afterObject⟩, isObject, read⟩ := bind_eq_ok.1 read
      obtain ⟨_, isFinished, read⟩ := bind_eq_ok.1 read
      obtain rfl := Except.ok.inj read
      obtain ⟨_, gapSubject, subjectAt⟩ := termAt_of_term isSubject
      obtain ⟨_, gapPredicate, predicateAt⟩ := termAt_of_term isPredicate
      obtain ⟨_, gapObject, objectAt⟩ := termAt_of_term isObject
      obtain ⟨afterDot, tail, gapDot, gapTail, isEnd⟩ := finish_eq_ok.1 isFinished
      exact .mk gapSubject subjectAt isResource gapPredicate predicateAt gapObject objectAt gapDot
        gapTail isEnd
    next => contradiction
  · intro isTriple
    cases isTriple with
    | mk gapSubject subjectAt isResource gapPredicate predicateAt gapObject objectAt gapDot gapTail
        isEnd =>
      have isSubject := term_of_termAt gapSubject subjectAt (.inl isResource)
      have isPredicate := term_of_termAt gapPredicate predicateAt (.inl rfl)
      have isObject := term_of_termAt gapObject objectAt (.inr (atBreak_of_gap gapDot))
      have isFinished := finish_eq_ok.2 ⟨_, _, gapDot, gapTail, isEnd⟩
      refine ⟨?_, isResource⟩
      simp [triple, isSubject, isPredicate, isObject, isFinished, bind, Except.bind]

/-- No gaps are needed, and the last dot is not part of the label. -/
example : triple "<urn:a><urn:p>_:b.1.# made".toList =
    .ok ⟨.iri ⟨"urn:a"⟩, ⟨"urn:p"⟩, .blank "b.1"⟩ := by rfl

theorem TripleText.unique {text : List Char} {left right : Triple} (isLeft : TripleText text left)
    (isRight : TripleText text right) : left = right := by
  have readLeft := (triple_eq_ok.2 isLeft).1
  have readRight := (triple_eq_ok.2 isRight).1
  rw [readLeft] at readRight
  exact Except.ok.inj readRight

theorem TripleText.iff_eq {text : List Char} {found triple : Triple}
    (isTriple : TripleText text found) : TripleText text triple ↔ found = triple := by
  constructor
  · exact isTriple.unique
  · rintro rfl
    exact isTriple

/-- A triple begins with a subject, and so neither ends at once nor begins with a comment. -/
theorem TripleText.not_emptyOrComment {line : List Char} {found : Triple}
    (isTriple : TripleText (Text.trim line) found) : ¬EmptyOrComment (Text.trim line) := by
  intro isEnd
  have read := (triple_eq_ok.2 isTriple).1
  obtain ⟨⟨subject, rest⟩, isSubject, _⟩ := bind_eq_ok.1 read
  have noGap : Text.trimStart (Text.trim line) = Text.trim line :=
    Text.trimStart_of_gap ⟨[], by simp [AllBlank], rfl⟩ isEnd.starts
  unfold term at isSubject
  rw [noGap] at isSubject
  cases starts : Text.trim line with
  | nil =>
    rw [starts] at isSubject
    contradiction
  | cons character others =>
    rw [starts] at isEnd isSubject
    obtain rfl : character = '#' := by simpa [EmptyOrComment] using isEnd
    contradiction

/-! ## Lines -/

theorem addLine_of_emptyOrComment {line : List Char} (isEnd : EmptyOrComment (Text.trim line))
    (graph : Graph) : addLine graph line = .ok graph := by
  simp [addLine, isSkipped_iff.2 isEnd]

theorem addLine_of_not_emptyOrComment {line : List Char}
    (notEnd : ¬EmptyOrComment (Text.trim line)) {graph larger : Graph} :
    addLine graph line = .ok larger ↔
      ∃ found, TripleText (Text.trim line) found ∧ larger = ⟨graph.triples.insert found⟩ := by
  have notSkipped : isSkipped (Text.trim line) = false :=
    Bool.eq_false_iff.2 (mt isSkipped_iff.1 notEnd)
  simp only [addLine, notSkipped, Bool.false_eq_true, if_false, bind_eq_ok, ← triple_eq_ok]
  constructor
  · rintro ⟨found, isFound, read⟩
    cases isResource : found.subject.isResource with
    | true =>
        simp only [Graph.insert, isResource, if_true, Except.ok.injEq] at read
        exact ⟨found, ⟨isFound, isResource⟩, read.symm⟩
    | false => simp [Graph.insert, isResource] at read
  · rintro ⟨found, ⟨isFound, isResource⟩, rfl⟩
    exact ⟨found, isFound, by simp [Graph.insert, isResource]⟩

/-- A line of a model: nothing, a comment or a triple. -/
def Readable (line : List Char) : Prop :=
  EmptyOrComment (Text.trim line) ∨ ∃ found, TripleText (Text.trim line) found

theorem addLine_eq_ok {line : List Char} {graph larger : Graph} :
    addLine graph line = .ok larger ↔
      Readable line ∧ ∀ triple, triple ∈ larger.triples ↔
        triple ∈ graph.triples ∨ TripleText (Text.trim line) triple := by
  by_cases isEnd : EmptyOrComment (Text.trim line)
  · have noTriple : ∀ triple, ¬TripleText (Text.trim line) triple :=
      fun triple isTriple => isTriple.not_emptyOrComment isEnd
    simp only [addLine_of_emptyOrComment isEnd, Except.ok.injEq, noTriple, or_false]
    constructor
    · rintro rfl
      exact ⟨.inl isEnd, fun _ => Iff.rfl⟩
    · rintro ⟨_, same⟩
      exact Graph.ext_mem fun triple => (same triple).symm
  · rw [addLine_of_not_emptyOrComment isEnd]
    have member : ∀ {found triple : Triple}, TripleText (Text.trim line) found →
        (triple ∈ graph.triples.insert found ↔
          triple ∈ graph.triples ∨ TripleText (Text.trim line) triple) := by
      intro found triple isTriple
      rw [Std.ExtTreeSet.mem_insert, Std.LawfulEqCmp.compare_eq_iff_eq, or_comm, isTriple.iff_eq]
    constructor
    · rintro ⟨found, isTriple, rfl⟩
      exact ⟨.inr ⟨found, isTriple⟩, fun triple => member isTriple⟩
    · rintro ⟨isReadable, same⟩
      obtain ⟨found, isTriple⟩ := isReadable.resolve_left isEnd
      exact ⟨found, isTriple, Graph.ext_mem fun triple => by rw [same, member isTriple]⟩

theorem exists_addLine_iff {line : List Char} {graph : Graph} :
    (∃ larger, addLine graph line = .ok larger) ↔ Readable line := by
  constructor
  · rintro ⟨larger, read⟩
    exact (addLine_eq_ok.1 read).1
  · rintro (isEnd | ⟨found, isTriple⟩)
    · exact ⟨graph, addLine_of_emptyOrComment isEnd graph⟩
    · exact ⟨_, (addLine_of_not_emptyOrComment isTriple.not_emptyOrComment).2
        ⟨found, isTriple, rfl⟩⟩

/-- What is wrong with a line does not depend on what was read before. -/
theorem addLine_eq_error {line : List Char} {graph : Graph} {fault : Fault}
    (refused : addLine graph line = .error fault) (other : Graph) :
    addLine other line = .error fault := by
  simp only [addLine] at refused ⊢
  split at refused
  next => contradiction
  next notSkipped =>
    rw [if_neg notSkipped]
    cases read : triple (Text.trim line) with
    | error cause =>
        rw [read] at refused
        exact refused
    | ok found =>
        rw [read] at refused
        simp only [bind, Except.bind, Graph.insert] at refused ⊢
        split at refused
        next => contradiction
        next isRefused =>
          split at isRefused
          next => contradiction
          next notResource =>
            obtain rfl := Except.error.inj isRefused
            rw [if_neg notResource]
            exact refused

/-! ## Texts -/

theorem lines_cons {character : Char} (notNewline : character ≠ '\n') {rest line : List Char}
    {others : List (List Char)} (isRest : lines rest = line :: others) :
    lines (character :: rest) = (character :: line) :: others := by
  rw [lines] at isRest
  simp [lines, isRest, addToLines, notNewline]

theorem lines_of_unbroken {line : List Char} (unbroken : '\n' ∉ line) : lines line = [line] := by
  induction line with
  | nil => rfl
  | cons character rest inductionHypothesis =>
      obtain ⟨notNewline, unbrokenRest⟩ := not_or.1 (mt List.mem_cons.2 unbroken)
      exact lines_cons (Ne.symm notNewline) (inductionHypothesis unbrokenRest)

theorem lines_append_newline {line : List Char} (unbroken : '\n' ∉ line) (rest : List Char) :
    lines (line ++ '\n' :: rest) = line :: lines rest := by
  induction line with
  | nil => rfl
  | cons character others inductionHypothesis =>
      obtain ⟨notNewline, unbrokenRest⟩ := not_or.1 (mt List.mem_cons.2 unbroken)
      exact lines_cons (Ne.symm notNewline) (inductionHypothesis unbrokenRest)

theorem lines_intercalate {found : List (List Char)} (nonempty : found ≠ [])
    (unbroken : ∀ line ∈ found, '\n' ∉ line) : lines (['\n'].intercalate found) = found := by
  induction found with
  | nil => contradiction
  | cons line others inductionHypothesis =>
      obtain ⟨unbrokenLine, unbrokenOthers⟩ := List.forall_mem_cons.1 unbroken
      cases others with
      | nil =>
          rw [List.intercalate_singleton]
          exact lines_of_unbroken unbrokenLine
      | cons next rest =>
          rw [List.intercalate_cons_cons, List.append_assoc, List.singleton_append,
            lines_append_newline unbrokenLine,
            inductionHypothesis (List.cons_ne_nil next rest) unbrokenOthers]

theorem exists_intercalate (text : List Char) :
    ∃ found, found ≠ [] ∧ (∀ line ∈ found, '\n' ∉ line) ∧ ['\n'].intercalate found = text := by
  induction text with
  | nil => exact ⟨[[]], by simp⟩
  | cons character rest inductionHypothesis =>
      obtain ⟨found, nonempty, unbroken, rfl⟩ := inductionHypothesis
      obtain ⟨line, others, rfl⟩ := List.exists_cons_of_ne_nil nonempty
      by_cases isNewline : character = '\n'
      · subst isNewline
        refine ⟨[] :: line :: others, by simp,
          List.forall_mem_cons.2 ⟨List.not_mem_nil, unbroken⟩, ?_⟩
        rw [List.intercalate_cons_cons]
        rfl
      · refine ⟨(character :: line) :: others, by simp, ?_, ?_⟩
        · obtain ⟨unbrokenLine, unbrokenOthers⟩ := List.forall_mem_cons.1 unbroken
          exact List.forall_mem_cons.2 ⟨by simp [Ne.symm isNewline, unbrokenLine], unbrokenOthers⟩
        · cases others with
          | nil => simp
          | cons next rest => simp [List.intercalate_cons_cons]

/-- The lines of a text are those that hold no line break and, joined by line breaks, are the
text. -/
theorem lines_eq_iff {text : List Char} {found : List (List Char)} :
    lines text = found ↔ found ≠ [] ∧ (∀ line ∈ found, '\n' ∉ line) ∧
      ['\n'].intercalate found = text := by
  constructor
  · rintro rfl
    obtain ⟨found, nonempty, unbroken, rfl⟩ := exists_intercalate text
    rw [lines_intercalate nonempty unbroken]
    exact ⟨nonempty, unbroken, rfl⟩
  · rintro ⟨nonempty, unbroken, rfl⟩
    exact lines_intercalate nonempty unbroken

theorem addLines_cons_eq_ok {line : List Char} {rest : List (List Char)} {graph result : Graph}
    {number : Nat} :
    addLines graph number (line :: rest) = .ok result ↔
      ∃ larger, addLine graph line = .ok larger ∧
        addLines larger (number + 1) rest = .ok result := by
  rw [addLines]
  cases addLine graph line <;> simp

/-- A graph gains the triples of the lines. -/
theorem addLines_eq_ok {found : List (List Char)} {graph result : Graph} {number : Nat} :
    addLines graph number found = .ok result ↔
      (∀ line ∈ found, Readable line) ∧ ∀ triple, triple ∈ result.triples ↔
        triple ∈ graph.triples ∨ ∃ line ∈ found, TripleText (Text.trim line) triple := by
  induction found generalizing graph number with
  | nil =>
      rw [addLines, Except.ok.injEq]
      constructor
      · rintro rfl
        simp
      · rintro ⟨_, same⟩
        exact Graph.ext_mem fun triple => by simp [same]
  | cons line rest inductionHypothesis =>
      simp only [addLines_cons_eq_ok, inductionHypothesis, List.forall_mem_cons,
        List.exists_mem_cons_iff]
      constructor
      · rintro ⟨larger, read, allReadable, same⟩
        obtain ⟨isReadable, gained⟩ := addLine_eq_ok.1 read
        exact ⟨⟨isReadable, allReadable⟩, fun triple => by rw [same, gained, or_assoc]⟩
      · rintro ⟨⟨isReadable, allReadable⟩, same⟩
        obtain ⟨larger, read⟩ := exists_addLine_iff.2 isReadable
        refine ⟨larger, read, allReadable, fun triple => ?_⟩
        rw [same, (addLine_eq_ok.1 read).2, or_assoc]

/-- The error says which line is at fault, and what is wrong with it. -/
def Blames (error : Error) (number : Nat) (line : List Char) : Prop :=
  ∃ fault, (∀ graph, addLine graph line = .error fault) ∧
    error = .of (.graphSyntax number fault.message)

theorem Blames.not_readable {error : Error} {number : Nat} {line : List Char}
    (blamed : Blames error number line) : ¬Readable line := by
  intro isReadable
  obtain ⟨fault, refused, -⟩ := blamed
  have isRead : ∃ larger, addLine Graph.empty line = .ok larger := exists_addLine_iff.2 isReadable
  obtain ⟨larger, read⟩ := isRead
  rw [refused] at read
  contradiction

/-- The first line that is not readable is blamed. -/
theorem addLines_eq_error {found : List (List Char)} {graph : Graph} {number : Nat}
    {error : Error} :
    addLines graph number found = .error error ↔
      ∃ before line after, found = before ++ line :: after ∧
        (∀ other ∈ before, Readable other) ∧ Blames error (before.length + number) line := by
  induction found generalizing graph number with
  | nil => simp [addLines]
  | cons line rest inductionHypothesis =>
      refine Iff.trans ?_
        (exists_split_cons Readable fun index line => Blames error (index + number) line).symm
      cases read : addLine graph line with
      | error fault =>
          have refused := addLine_eq_error read
          have blamed : Blames (.of (.graphSyntax number fault.message)) number line :=
            ⟨fault, refused, rfl⟩
          rw [addLines, read, Except.error.injEq, Nat.zero_add]
          constructor
          · rintro rfl
            exact .inl blamed
          · rintro (⟨cause, refusedToo, rfl⟩ | ⟨isReadable, _⟩)
            · rw [Except.error.inj ((refused graph).symm.trans (refusedToo graph))]
            · exact absurd isReadable blamed.not_readable
      | ok larger =>
          have isReadable : Readable line := exists_addLine_iff.1 ⟨larger, read⟩
          have goesOn : addLines graph number (line :: rest) =
              addLines larger (number + 1) rest := by
            rw [addLines, read]
          have notBlamed : ¬Blames error (0 + number) line :=
            fun blamed => blamed.not_readable isReadable
          simp only [goesOn, inductionHypothesis, notBlamed, isReadable, false_or, true_and,
            Nat.add_assoc, Nat.add_comm 1]

/-! ## Reading by the grammar -/

/-- A line is read as the grammar has it, once the blanks around it are gone. -/
structure ReadsLine (line : List Char) : Prop where
  trimmed : Trimmed line (Text.trim line)
  /-- A line is passed over, whatever was read before, exactly when it is empty or a comment. -/
  skipped : (∀ graph, addLine graph line = .ok graph) ↔ EmptyOrComment (Text.trim line)
  /-- Any other line is accepted exactly when it is a triple, and adds just that one. -/
  accepted : ¬EmptyOrComment (Text.trim line) → ∀ graph larger,
    addLine graph line = .ok larger ↔
      ∃ found, TripleText (Text.trim line) found ∧ larger = ⟨graph.triples.insert found⟩
  unique : ∀ left right, TripleText (Text.trim line) left → TripleText (Text.trim line) right →
    left = right

/-- A text is read line by line, up to the first line that is not as the grammar has it. -/
structure ReadsModel (text : String) : Prop where
  lines : ∀ found, NTriples.lines text.toList = found ↔ found ≠ [] ∧
    (∀ line ∈ found, '\n' ∉ line) ∧ ['\n'].intercalate found = text.toList
  loaded : ∀ graph, model text = .ok graph ↔
    (∀ line ∈ NTriples.lines text.toList, Readable line) ∧
    ∀ triple, triple ∈ graph.triples ↔
      ∃ line ∈ NTriples.lines text.toList, TripleText (Text.trim line) triple
  blamed : ∀ error, model text = .error error ↔
    ∃ before line after fault, NTriples.lines text.toList = before ++ line :: after ∧
      (∀ other ∈ before, Readable other) ∧ ¬Readable line ∧
      (∀ graph, addLine graph line = .error fault) ∧
      error = .of (.graphSyntax (before.length + 1) fault.message)

theorem readsLine (line : List Char) : ReadsLine line where
  trimmed := Text.trimmed_trim line
  skipped := by
    constructor
    · intro isSkipped
      by_contra notEnd
      obtain ⟨found, _, isEmpty⟩ :=
        (addLine_of_not_emptyOrComment notEnd).1 (isSkipped Graph.empty)
      have member : found ∈ Graph.empty.triples := by
        rw [isEmpty]
        exact Std.ExtTreeSet.mem_insert_self
      exact Std.ExtTreeSet.not_mem_empty member
    · exact addLine_of_emptyOrComment
  accepted notEnd _ _ := addLine_of_not_emptyOrComment notEnd
  unique _ _ := TripleText.unique

theorem readsModel (text : String) : ReadsModel text where
  lines _ := lines_eq_iff
  loaded graph := by
    simp [model, addLines_eq_ok, Graph.empty]
  blamed error := by
    rw [model, addLines_eq_error]
    constructor
    · rintro ⟨before, line, after, split, allReadable, blamed⟩
      have unreadable := blamed.not_readable
      obtain ⟨fault, refused, isError⟩ := blamed
      exact ⟨before, line, after, fault, split, allReadable, unreadable, refused, isError⟩
    · rintro ⟨before, line, after, fault, split, allReadable, _, refused, isError⟩
      exact ⟨before, line, after, split, allReadable, fault, refused, isError⟩

/-- Lines and texts are read by the grammar. While the digits of an escape are taken together, at
most eight of them, their number stays within 32 bits. -/
theorem reads_by_grammar :
    (∀ line, ReadsLine line) ∧ (∀ text, ReadsModel text) ∧
    ∀ (digits : List Char) (number : Nat), digits.length ≤ 8 →
      Text.hexNumber? digits = some number → number < 2 ^ 32 := by
  refine ⟨readsLine, readsModel, ?_⟩
  intro digits number few read
  calc
    number < 16 ^ digits.length := (hexNumber?_eq_some.1 read).lt
    _ ≤ 16 ^ 8 := Nat.pow_le_pow_right (by decide) few
    _ = 2 ^ 32 := by decide

end BuildingRules.NTriples
