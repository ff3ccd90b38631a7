import BuildingRules.Graph
import BuildingRules.NTriples.Fault

/-!
# One line of triples

A line holds a subject, a predicate, an object and a dot, each of which blanks may precede, and
possibly a comment. IRIs stand between angle brackets, literals between quotes, and a blank node
has a label after `_:`. Of a literal only its text is kept.

Each reader takes the characters that are left and gives what it read and what is left after it.
-/

set_option autoImplicit false

namespace BuildingRules.NTriples

/-! ## IRIs and blank nodes -/

def iri (body : List Char) : Except Fault (Iri × List Char) :=
  let text := body.takeWhile (· != '>')
  match body.dropWhile (· != '>') with
  | [] => .error .unterminatedIri
  | _ :: rest =>
    if text.isEmpty || text.any Text.isBlank then .error (.invalidIri (String.ofList text))
    else .ok (⟨String.ofList text⟩, rest)

def isLabelChar (character : Char) : Bool :=
  character.isAlphanum || character == '_' || character == '-' || character == '.'

/-- The longest label at the start of a text: it may hold dots but not end in one. -/
def label (body : List Char) : List Char :=
  ((body.takeWhile isLabelChar).reverse.dropWhile (· == '.')).reverse

def blankNode : List Char → Except Fault (Term × List Char)
  | ':' :: body =>
    let label := label body
    if label.isEmpty then .error .emptyLabel
    else .ok (.blank (String.ofList label), body.drop label.length)
  | _ => .error .blankMarker

/-! ## Literals -/

def escapedChar (count : Nat) (digits : List Char) : Except Fault Char :=
  match Text.hexNumber? digits with
  | none => .error (.hexDigits count)
  | some code =>
    match Text.scalar? code with
    | none => .error (.invalidCodePoint code)
    | some character => .ok character

def simpleEscape? : Char → Option Char
  | 'n' => some '\n'
  | 't' => some '\t'
  | 'r' => some '\r'
  | '"' => some '"'
  | '\\' => some '\\'
  | _ => none

def prepend (character : Char) (rest : Except Fault (List Char × List Char)) :
    Except Fault (List Char × List Char) :=
  rest.map fun (text, left) => (character :: text, left)

def literalText : List Char → Except Fault (List Char × List Char)
  | [] => .error .unterminatedLiteral
  | '"' :: rest => .ok ([], rest)
  | ['\\'] => .error .unterminatedLiteral
  | '\\' :: 'u' :: a :: b :: c :: d :: rest => do
    let character ← escapedChar 4 [a, b, c, d]
    prepend character (literalText rest)
  | '\\' :: 'u' :: _ => .error (.hexDigits 4)
  | '\\' :: 'U' :: a :: b :: c :: d :: e :: f :: g :: h :: rest => do
    let character ← escapedChar 8 [a, b, c, d, e, f, g, h]
    prepend character (literalText rest)
  | '\\' :: 'U' :: _ => .error (.hexDigits 8)
  | '\\' :: escaped :: rest =>
    match simpleEscape? escaped with
    | some character => prepend character (literalText rest)
    | none => .error (.unsupportedEscape escaped)
  | character :: rest => prepend character (literalText rest)

def isTagChar (character : Char) : Bool := character.isAlphanum || character == '-'

/-- What is left after the language tag or the datatype of a literal, if it has one. -/
def afterAnnotation : List Char → Except Fault (List Char)
  | '@' :: rest => .ok (rest.dropWhile isTagChar)
  | '^' :: '^' :: '<' :: body => (iri body).map (·.2)
  | '^' :: '^' :: _ => .error .datatype
  | text => .ok text

def literal (body : List Char) : Except Fault (Term × List Char) := do
  let (text, left) ← literalText body
  let left ← afterAnnotation left
  .ok (.literal (String.ofList text), left)

/-! ## Lines -/

def term (text : List Char) : Except Fault (Term × List Char) :=
  match Text.trimStart text with
  | [] => .error .endOfLine
  | '<' :: body => (iri body).map fun (name, left) => (.iri name, left)
  | '_' :: rest => blankNode rest
  | '"' :: body => literal body
  | character :: _ => .error (.unexpectedCharacter character)

def finish (text : List Char) : Except Fault Unit :=
  match Text.trimStart text with
  | '.' :: rest =>
    match Text.trim rest with
    | [] => .ok ()
    | '#' :: _ => .ok ()
    | left => .error (.trailing (String.ofList left))
  | _ => .error .missingDot

def triple (text : List Char) : Except Fault Triple := do
  let (subject, left) ← term text
  let (predicate, left) ← term left
  match predicate with
  | .iri predicate =>
    let (object, left) ← term left
    finish left
    .ok ⟨subject, predicate, object⟩
  | _ => .error .predicate

/-- Whether a line without blanks around it holds no triple: it is empty or a comment. -/
def isSkipped : List Char → Bool
  | [] => true
  | '#' :: _ => true
  | _ => false

def addLine (graph : Graph) (line : List Char) : Except Fault Graph :=
  let text := Text.trim line
  if isSkipped text then .ok graph
  else do
    let triple ← triple text
    match graph.insert triple with
    | .ok (larger, _) => .ok larger
    | .error error => .error (.refused error.cause)

end BuildingRules.NTriples
