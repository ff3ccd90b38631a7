import BuildingRules.Error
import BuildingRules.Text.Hex

/-!
# What can be wrong with a line of triples
-/

set_option autoImplicit false

namespace BuildingRules.NTriples

inductive Fault
  | unexpectedCharacter (character : Char)
  | endOfLine
  | unterminatedIri
  | invalidIri (text : String)
  | blankMarker
  | emptyLabel
  | unterminatedLiteral
  | unsupportedEscape (character : Char)
  | hexDigits (count : Nat)
  | invalidCodePoint (code : Nat)
  | datatype
  | predicate
  | missingDot
  | trailing (text : String)
  | refused (cause : Cause)
  deriving DecidableEq, Repr

def Fault.message : Fault → String
  | .unexpectedCharacter character => "unexpected character `" ++ character.toString ++ "`"
  | .endOfLine => "unexpected end of line"
  | .unterminatedIri => "unterminated IRI"
  | .invalidIri text => "invalid IRI `<" ++ text ++ ">`"
  | .blankMarker => "expected blank node label"
  | .emptyLabel => "empty blank node label"
  | .unterminatedLiteral => "unterminated literal"
  | .unsupportedEscape character => "unsupported escape `\\" ++ character.toString ++ "`"
  | .hexDigits count => "expected " ++ Nat.repr count ++ " hex digits in unicode escape"
  | .invalidCodePoint code =>
    "invalid code point U+" ++ String.ofList (Text.upperHexDigits code)
  | .datatype => "expected datatype IRI"
  | .predicate => "predicate must be an IRI"
  | .missingDot => "expected `.` at end of triple"
  | .trailing text => "unexpected trailing content `" ++ text ++ "`"
  | .refused cause => cause.message

end BuildingRules.NTriples
