import BuildingRules.Graph

/-!
# The grammar of a line

What a line of triples may look like, and what it says, apart from how it is read. `TermAt` says
that a text begins with a term and what follows it; `TripleText` puts three terms, a dot and the
end of the line together, with gaps before each of them. Blank node labels are the only part whose
extent the grammar has to settle: a label goes as far as it can.
-/

set_option autoImplicit false

namespace BuildingRules.NTriples

/-! ## Blanks -/

def AllBlank (text : List Char) : Prop := ∀ character ∈ text, Text.isBlank character = true

/-- The text is `rest` after any number of blanks. -/
def Gap (text rest : List Char) : Prop := ∃ blanks, AllBlank blanks ∧ text = blanks ++ rest

/-- The text is what is left of a line without the blanks around it. -/
structure Trimmed (line text : List Char) : Prop where
  around : ∃ front back, AllBlank front ∧ AllBlank back ∧ line = front ++ text ++ back
  first : ∀ character, text.head? = some character → Text.isBlank character = false
  last : ∀ character, text.getLast? = some character → Text.isBlank character = false

/-! ## IRIs and blank nodes -/

/-- What may stand between angle brackets. -/
def IriBody (body : List Char) : Prop :=
  body ≠ [] ∧ ∀ character ∈ body, character ≠ '>' ∧ Text.isBlank character = false

def InLabel (character : Char) : Prop :=
  character.isAlphanum = true ∨ character = '_' ∨ character = '-' ∨ character = '.'

def Label (label : List Char) : Prop :=
  label ≠ [] ∧ (∀ character ∈ label, InLabel character) ∧ label.getLast? ≠ some '.'

/-- No longer label stands at the start of the text. -/
def LongestLabel (label text : List Char) : Prop :=
  Label label ∧ label <+: text ∧
    ∀ other, Label other → other <+: text → other.length ≤ label.length

/-! ## Literals -/

/-- The value of a digit is its place among the sixteen digits. -/
def HexDigit (digit : Char) (value : Nat) : Prop :=
  "0123456789abcdef".toList[value]? = some digit ∨ "0123456789ABCDEF".toList[value]? = some digit

inductive HexNumber : List Char → Nat → Prop
  | none : HexNumber [] 0
  | more {digits : List Char} {digit : Char} {number value : Nat} :
      HexNumber digits number → HexDigit digit value →
      HexNumber (digits ++ [digit]) (16 * number + value)

/-- An escape and the character that it stands for. -/
inductive Escape : List Char → Char → Prop
  | newline : Escape ['\\', 'n'] '\n'
  | tab : Escape ['\\', 't'] '\t'
  | carriageReturn : Escape ['\\', 'r'] '\r'
  | quote : Escape ['\\', '"'] '"'
  | backslash : Escape ['\\', '\\'] '\\'
  | short {digits : List Char} {character : Char} : digits.length = 4 →
      HexNumber digits character.toNat → Escape ('\\' :: 'u' :: digits) character
  | long {digits : List Char} {character : Char} : digits.length = 8 →
      HexNumber digits character.toNat → Escape ('\\' :: 'U' :: digits) character

/-- What may stand between quotes, and the text that it is decoded to. -/
inductive LiteralBody : List Char → List Char → Prop
  | nil : LiteralBody [] []
  | raw {character : Char} {body text : List Char} : character ≠ '"' → character ≠ '\\' →
      LiteralBody body text → LiteralBody (character :: body) (character :: text)
  | escape {escaped body text : List Char} {character : Char} : Escape escaped character →
      LiteralBody body text → LiteralBody (escaped ++ body) (character :: text)

def InTag (character : Char) : Prop := character.isAlphanum = true ∨ character = '-'

/-- A language tag, the IRI of a datatype, or neither. -/
inductive Qualifier : List Char → Prop
  | none : Qualifier []
  | language {tag : List Char} : (∀ character ∈ tag, InTag character) → Qualifier ('@' :: tag)
  | datatype {body : List Char} : IriBody body → Qualifier ('^' :: '^' :: '<' :: body ++ ['>'])

/-! ## Lines -/

/-- The text begins with the term and goes on with `rest`. -/
inductive TermAt : List Char → Term → List Char → Prop
  | iri {body rest : List Char} : IriBody body →
      TermAt ('<' :: body ++ '>' :: rest) (.iri ⟨String.ofList body⟩) rest
  | blank {label rest : List Char} : LongestLabel label (label ++ rest) →
      TermAt ('_' :: ':' :: label ++ rest) (.blank (String.ofList label)) rest
  | literal {body text qualifier rest : List Char} : LiteralBody body text →
      Qualifier qualifier →
      TermAt ('"' :: body ++ '"' :: qualifier ++ rest) (.literal (String.ofList text)) rest

/-- What holds no triple: nothing, or a comment. -/
def EmptyOrComment (text : List Char) : Prop := text = [] ∨ text.head? = some '#'

/-- The text is a triple: a subject that is no literal, an IRI, an object and a dot, with nothing
after the dot but a comment. -/
inductive TripleText : List Char → Triple → Prop
  | mk {text atSubject afterSubject atPredicate afterPredicate atObject afterObject afterDot tail :
        List Char} {subject object : Term} {predicate : Iri} :
      Gap text atSubject → TermAt atSubject subject afterSubject → subject.isResource = true →
      Gap afterSubject atPredicate → TermAt atPredicate (.iri predicate) afterPredicate →
      Gap afterPredicate atObject → TermAt atObject object afterObject →
      Gap afterObject ('.' :: afterDot) → Gap afterDot tail → EmptyOrComment tail →
      TripleText text ⟨subject, predicate, object⟩

end BuildingRules.NTriples
