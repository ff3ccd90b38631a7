import BuildingRules.Vocabulary

/-!
# Identifiers

A variable is named in ASCII letters, digits and underscores. A class is named by an absolute IRI,
or by a local name that a namespace completes; local names may also hold dots and hyphens.
-/

set_option autoImplicit false

namespace BuildingRules.Identifier

def isStart (character : Char) : Bool := character.isAlpha || character == '_'

def isVariableChar (character : Char) : Bool := character.isAlphanum || character == '_'

def isLocalChar (character : Char) : Bool :=
  isVariableChar character || character == '-' || character == '.'

def isVariable (name : String) : Bool :=
  match name.toList with
  | [] => false
  | first :: rest => isStart first && rest.all isVariableChar

/-- Whether a namespace can complete `name`: it may not end in a dot. -/
def isLocalName (name : String) : Bool :=
  match name.toList with
  | [] => false
  | first :: rest => isStart first && rest.all isLocalChar && rest.getLast? != some '.'

def isSchemeChar (character : Char) : Bool :=
  character.isAlphanum || character == '+' || character == '-' || character == '.'

def isForbidden (character : Char) : Bool :=
  Text.isBlank character || "<>\"\x7b\x7d|^`\\".toList.contains character

/-- Whether a text is an absolute IRI: a scheme, `://`, something more, and no forbidden
character. -/
def isAbsoluteIri (text : String) : Bool :=
  let characters := text.toList
  match characters.dropWhile isSchemeChar with
  | ':' :: '/' :: '/' :: rest =>
    !(characters.takeWhile isSchemeChar).isEmpty && !rest.isEmpty && !characters.any isForbidden
  | _ => false

/-- The IRI that a class identifier stands for: local names are completed, absolute IRIs stand for
themselves. -/
def classIri? (space : Namespace) (identifier : String) : Option Iri :=
  if isLocalName identifier then some (space.iri identifier)
  else if isAbsoluteIri identifier then some ⟨identifier⟩
  else none

def resolveClass (space : Namespace) (path identifier : String) : Except Error Iri :=
  match classIri? space identifier with
  | some iri => .ok iri
  | none => .error (.of (.malformedIdentifier identifier path))

def checkVariable (path name : String) : Except Error Unit :=
  if isVariable name then .ok () else .error (.of (.malformedIdentifier name path))

end BuildingRules.Identifier
