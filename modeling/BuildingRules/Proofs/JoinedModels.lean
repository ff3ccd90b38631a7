import BuildingRules.Proofs.TripleLines
import Mathlib.Data.List.Count

/-!
# Models in parts

A model is read line by line, and what is wrong with a line does not depend on the lines before. So
a text whose first part ends a line is read as its parts are, one after the other, with the lines of
the second counted on: `model_append`. What is read does not depend on the order of the lines, on how
often each of them stands there, or on empty lines and comments: `loadsLineByLine`.
-/

set_option autoImplicit false

namespace BuildingRules.NTriples

/-! ## Lines of a text in parts -/

/-- What follows the text starts a line of its own. -/
def EndsLine (text : String) : Prop := text = "" ∨ text.toList.getLast? = some '\n'

theorem exists_lines_cons (text : List Char) : ∃ line others, lines text = line :: others := by
  obtain ⟨notEmpty, -, -⟩ := lines_eq_iff.1 (Eq.refl (lines text))
  exact List.exists_cons_of_ne_nil notEmpty

theorem lines_append (text rest : List Char) :
    lines (text ++ '\n' :: rest) = lines text ++ lines rest := by
  induction text with
  | nil => rfl
  | cons character others inductionHypothesis =>
    by_cases isNewline : character = '\n'
    · subst isNewline
      exact congrArg (List.cons []) inductionHypothesis
    · obtain ⟨line, more, isSplit⟩ := exists_lines_cons others
      rw [isSplit] at inductionHypothesis
      rw [List.cons_append, lines_cons isNewline inductionHypothesis, lines_cons isNewline isSplit]
      rfl

/-- Every line break ends a line, and what follows the last one is a line too. -/
theorem length_lines (text : List Char) : (lines text).length = text.count '\n' + 1 := by
  induction text with
  | nil => rfl
  | cons character others inductionHypothesis =>
    by_cases isNewline : character = '\n'
    · subst isNewline
      rw [List.count_cons_self, ← inductionHypothesis]
      rfl
    · obtain ⟨line, more, isSplit⟩ := exists_lines_cons others
      rw [List.count_cons_of_ne isNewline, ← inductionHypothesis, lines_cons isNewline isSplit,
        isSplit]
      rfl

/-! ## Reading in parts -/

theorem addLines_append (first second : List (List Char)) (graph : Graph) (number : Nat) :
    addLines graph number (first ++ second) =
      (addLines graph number first).bind fun larger =>
        addLines larger (number + first.length) second := by
  induction first generalizing graph number with
  | nil => rfl
  | cons line rest inductionHypothesis =>
    rw [List.cons_append, addLines, addLines]
    cases addLine graph line with
    | error fault => rfl
    | ok larger =>
      simp only [inductionHypothesis, List.length_cons, Nat.add_assoc, Nat.add_comm 1]

/-- An empty line at the end changes nothing. -/
theorem addLines_concat_nil (found : List (List Char)) (graph : Graph) (number : Nat) :
    addLines graph number (found ++ [[]]) = addLines graph number found := by
  rw [addLines_append]
  cases addLines graph number found with
  | error error => rfl
  | ok larger => rfl

/-- The second part is read into what the first came to, and its lines are counted on. -/
theorem model_append {front : String} (ended : EndsLine front) (back : String) :
    model (front ++ back) = (model front).bind fun graph =>
      addLines graph (front.toList.count '\n' + 1) (lines back.toList) := by
  obtain rfl | isNewline := ended
  · rw [String.empty_append]
    rfl
  · obtain ⟨text, isFront⟩ := List.getLast?_eq_some_iff.1 isNewline
    have together : lines (front ++ back).toList = lines text ++ lines back.toList := by
      rw [String.toList_append, isFront, List.append_assoc, List.singleton_append, lines_append]
    have alone : lines front.toList = lines text ++ [[]] := by
      rw [isFront, lines_append]
      rfl
    have numbered : 1 + (lines text).length = front.toList.count '\n' + 1 := by
      rw [length_lines, isFront, List.count_append, List.count_singleton_self]
      omega
    rw [model, model, together, alone, addLines_append, addLines_concat_nil, numbered]

theorem model_eq_error {text : String} {error : Error} :
    model text = .error error ↔ ∃ before line after,
      lines text.toList = before ++ line :: after ∧ (∀ other ∈ before, Readable other) ∧
        Blames error (before.length + 1) line :=
  addLines_eq_error

theorem Blames.shift {number : Nat} {reason : String} {line : List Char}
    (blamed : Blames (.of (.graphSyntax number reason)) number line) (before : Nat) :
    Blames (.of (.graphSyntax (number + before) reason)) (number + before) line := by
  obtain ⟨fault, refused, isError⟩ := blamed
  obtain ⟨-, rfl⟩ := Cause.graphSyntax.inj (congrArg Error.cause isError)
  exact ⟨fault, refused, rfl⟩

theorem Blames.number_eq {error : Error} {number : Nat} {line : List Char}
    (blamed : Blames error number line) : ∃ reason, error = .of (.graphSyntax number reason) := by
  obtain ⟨fault, -, isError⟩ := blamed
  exact ⟨fault.message, isError⟩

/-- A fault is found whatever was read before, that many lines further on. -/
theorem addLines_of_model_eq_error {text : String} {number : Nat} {reason : String}
    (refused : model text = .error (.of (.graphSyntax number reason))) (graph : Graph)
    (earlier : Nat) :
    addLines graph (earlier + 1) (lines text.toList) =
      .error (.of (.graphSyntax (number + earlier) reason)) := by
  obtain ⟨before, line, after, split, allReadable, blamed⟩ := model_eq_error.1 refused
  obtain ⟨other, isError⟩ := blamed.number_eq
  obtain ⟨rfl, rfl⟩ := Cause.graphSyntax.inj (congrArg Error.cause isError)
  refine addLines_eq_error.2 ⟨before, line, after, split, allReadable, ?_⟩
  have shifted := blamed.shift earlier
  rwa [Nat.add_assoc, Nat.add_comm 1] at shifted ⊢

theorem addLines_of_model_eq_ok {text : String} {read : Graph} (isRead : model text = .ok read)
    (graph : Graph) (number : Nat) :
    ∃ whole, addLines graph number (lines text.toList) = .ok whole ∧
      ∀ triple, triple ∈ whole.triples ↔ triple ∈ graph.triples ∨ triple ∈ read.triples := by
  obtain ⟨allReadable, gained⟩ := addLines_eq_ok.1 isRead
  have noneAtFirst : ∀ triple, triple ∉ Graph.empty.triples :=
    fun _ => Std.ExtTreeSet.not_mem_empty
  cases result : addLines graph number (lines text.toList) with
  | error error =>
    obtain ⟨before, line, after, split, -, blamed⟩ := addLines_eq_error.1 result
    exact absurd (allReadable line (split ▸ by simp)) blamed.not_readable
  | ok whole =>
    refine ⟨whole, rfl, fun triple => ?_⟩
    rw [(addLines_eq_ok.1 result).2, gained]
    simp only [noneAtFirst, false_or]

/-! ## Texts with the same lines -/

/-- The lines of both texts, without the blanks around them, are the same but for their order, for
repetitions, and for empty lines and comments. -/
def SameContent (text other : String) : Prop :=
  ∀ content, ¬EmptyOrComment content →
    (content ∈ (lines text.toList).map Text.trim ↔ content ∈ (lines other.toList).map Text.trim)

instance (text : List Char) : Decidable (EmptyOrComment text) := inferInstanceAs (Decidable (_ ∨ _))

/-- It is enough to look at the lines of either text. -/
theorem sameContent_iff {text other : String} : SameContent text other ↔
    (∀ content ∈ (lines text.toList).map Text.trim, ¬EmptyOrComment content →
      content ∈ (lines other.toList).map Text.trim) ∧
    ∀ content ∈ (lines other.toList).map Text.trim, ¬EmptyOrComment content →
      content ∈ (lines text.toList).map Text.trim := by
  unfold SameContent
  grind

instance (text other : String) : Decidable (SameContent text other) :=
  decidable_of_iff _ sameContent_iff.symm

theorem SameContent.model_eq {text other : String} (same : SameContent text other) {graph : Graph}
    (read : model text = .ok graph) : model other = .ok graph := by
  obtain ⟨allReadable, gained⟩ := (readsModel text).loaded graph |>.1 read
  refine ((readsModel other).loaded graph).2 ⟨fun line listed => ?_, fun triple => ?_⟩
  · by_cases isEnd : EmptyOrComment (Text.trim line)
    · exact .inl isEnd
    · have inText := (same _ isEnd).2 (List.mem_map_of_mem listed)
      obtain ⟨line', listed', isSame⟩ := List.mem_map.1 inText
      have isReadable := allReadable line' listed'
      rwa [Readable, isSame] at isReadable
  · rw [gained]
    constructor
    · rintro ⟨line, listed, isTriple⟩
      obtain ⟨line', listed', isSame⟩ := List.mem_map.1
        ((same _ isTriple.not_emptyOrComment).1 (List.mem_map_of_mem listed))
      exact ⟨line', listed', isSame ▸ isTriple⟩
    · rintro ⟨line, listed, isTriple⟩
      obtain ⟨line', listed', isSame⟩ := List.mem_map.1
        ((same _ isTriple.not_emptyOrComment).2 (List.mem_map_of_mem listed))
      exact ⟨line', listed', isSame ▸ isTriple⟩

/-! ## Reading line by line -/

/-- How a text is read in two parts. -/
structure LoadsInParts (front back : String) : Prop where
  front_refused : ∀ error, model front = .error error → model (front ++ back) = .error error
  back_refused : ∀ graph number reason, model front = .ok graph →
    model back = .error (.of (.graphSyntax number reason)) →
      model (front ++ back) =
        .error (.of (.graphSyntax (number + front.toList.count '\n') reason))
  loaded : ∀ left right, model front = .ok left → model back = .ok right →
    ∃ whole, model (front ++ back) = .ok whole ∧
      ∀ triple, triple ∈ whole.triples ↔ triple ∈ left.triples ∨ triple ∈ right.triples

theorem loadsInParts {front : String} (ended : EndsLine front) (back : String) :
    LoadsInParts front back where
  front_refused error refused := by
    rw [model_append ended, refused]
    rfl
  back_refused graph number reason read refused := by
    rw [model_append ended, read]
    exact addLines_of_model_eq_error refused graph _
  loaded left right readLeft readRight := by
    rw [model_append ended, readLeft]
    exact addLines_of_model_eq_ok readRight left _

/-- An error is one of syntax, and names the first line that is neither empty, a comment nor a
triple. -/
def BlamesFirst (text : String) : Prop :=
  ∀ error, model text = .error error → ∃ before line after reason,
    lines text.toList = before ++ line :: after ∧ (∀ other ∈ before, Readable other) ∧
      ¬Readable line ∧ error = .of (.graphSyntax (before.length + 1) reason)

theorem blamesFirst (text : String) : BlamesFirst text := by
  intro error refused
  obtain ⟨before, line, after, split, allReadable, blamed⟩ := model_eq_error.1 refused
  obtain ⟨reason, isError⟩ := blamed.number_eq
  exact ⟨before, line, after, reason, split, allReadable, blamed.not_readable, isError⟩

/-- A text is read part by part, the first line at fault is blamed, and the graph depends only on
what the lines say. -/
theorem loadsLineByLine :
    (∀ front back, EndsLine front → LoadsInParts front back) ∧ (∀ text, BlamesFirst text) ∧
    ∀ text other graph, SameContent text other → model text = .ok graph →
      model other = .ok graph :=
  ⟨fun _ back ended => loadsInParts ended back, blamesFirst,
    fun _ _ _ same read => same.model_eq read⟩

/-- A comment, a triple and an empty line. -/
def opening : String := "# one unit\r\n<urn:a> <urn:p> _:b .\n\n"

/-- The second line has a literal for its subject. -/
def faulty : String := "<urn:b><urn:p><urn:c>.\n\"x\" <urn:p> <urn:c> ."

/-- The last line says what the opening says. -/
def closing : String := "<urn:b><urn:p>\"x\".\r\n<urn:a> <urn:p> _:b .#"

/-- What the opening and the closing say, in another order and with another comment. -/
def shuffled : String :=
  "<urn:a> <urn:p> _:b .#\n # nothing \n<urn:b><urn:p>\"x\".\n\n<urn:a> <urn:p> _:b ."

def unitTriple : Triple := ⟨.iri ⟨"urn:a"⟩, ⟨"urn:p"⟩, .blank "b"⟩

def textTriple : Triple := ⟨.iri ⟨"urn:b"⟩, ⟨"urn:p"⟩, .literal "x"⟩

/-- Of the opening with what is faulty, the fifth line is at fault. With the closing, it comes to two
triples, in whatever order the lines stand. -/
theorem loadsLineByLine_of_faulty :
    EndsLine opening ∧ (model opening).map (·.triples.toList) = .ok [unitTriple] ∧
    model faulty =
      .error (.of (.graphSyntax 2 "malformed identifier `\"x\"` at triple subject")) ∧
    model (opening ++ faulty) =
      .error (.of (.graphSyntax 5 "malformed identifier `\"x\"` at triple subject")) ∧
    (model closing).map (·.triples.toList) = .ok [unitTriple, textTriple] ∧
    SameContent (opening ++ closing) shuffled ∧
    ∃ whole, model (opening ++ closing) = .ok whole ∧ model shuffled = .ok whole ∧
      ∀ triple, triple ∈ whole.triples ↔ triple = unitTriple ∨ triple = textTriple := by
  have ended : EndsLine opening := .inr (by decide +kernel)
  have first : (model opening).map (·.triples.toList) = .ok [unitTriple] := by rfl
  have second : (model closing).map (·.triples.toList) = .ok [unitTriple, textTriple] := by rfl
  have refused : model faulty =
      .error (.of (.graphSyntax 2 "malformed identifier `\"x\"` at triple subject")) := by
    rfl
  have same : SameContent (opening ++ closing) shuffled := by decide +kernel
  obtain ⟨left, readLeft, isLeft⟩ := map_eq_ok.1 first
  obtain ⟨right, readRight, isRight⟩ := map_eq_ok.1 second
  obtain ⟨whole, readWhole, isUnion⟩ :=
    (loadsLineByLine.1 opening closing ended).loaded left right readLeft readRight
  refine ⟨ended, first, refused,
    (loadsLineByLine.1 opening faulty ended).back_refused left 2 _ readLeft refused, second,
    same, whole, readWhole, loadsLineByLine.2.2 _ shuffled whole same readWhole,
    fun triple => ?_⟩
  rw [isUnion, ← Std.ExtTreeSet.mem_toList, ← Std.ExtTreeSet.mem_toList, isLeft, isRight]
  simp only [List.mem_cons, List.not_mem_nil, or_false, ← or_assoc, or_self]

end BuildingRules.NTriples
