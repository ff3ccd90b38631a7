import BuildingRules.Error
import BuildingRules.Text.Blank
import BuildingRules.Text.Quoted

/-!
# Terms of a model

A term is an IRI, a blank node or a literal. Terms are totally ordered, IRIs before blank nodes
before literals and by text within each, so that every listing of terms has one order. A term has
a written form, and `Term.ofText` reads it back as far as the form is unambiguous.
-/

set_option autoImplicit false

namespace BuildingRules

/-! ## IRIs -/

@[ext]
structure Iri where
  text : String
  deriving DecidableEq, Repr

namespace Iri

/-- What follows the last `#` or `/`; the whole text if there is neither. -/
def localName (iri : Iri) : String :=
  String.ofList (iri.text.toList.reverse.takeWhile fun c => c != '#' && c != '/').reverse

def bracketed (iri : Iri) : String := "<" ++ iri.text ++ ">"

end Iri

/-! ## Terms -/

inductive Term
  | iri (name : Iri)
  | blank (label : String)
  | literal (text : String)
  deriving DecidableEq, Repr

namespace Term

def rank : Term → Nat
  | .iri _ => 0
  | .blank _ => 1
  | .literal _ => 2

def content : Term → String
  | .iri name => name.text
  | .blank label => label
  | .literal text => text

theorem eq_of_rank_content {left right : Term} (sameRank : left.rank = right.rank)
    (sameContent : left.content = right.content) : left = right := by
  cases left <;> cases right <;> simp_all [rank, content, Iri.ext_iff]

instance : Ord Term := ⟨compareLex (compareOn rank) (compareOn content)⟩

instance : Std.TransOrd Term :=
  inferInstanceAs (Std.TransCmp (compareLex (compareOn rank) (compareOn content)))

instance : Std.LawfulEqOrd Term where
  eq_of_compare {left right} same := by
    have both := compareLex_eq_eq.1 (show compareLex _ _ left right = .eq from same)
    exact eq_of_rank_content (Std.LawfulEqCmp.eq_of_compare both.1)
      (Std.LawfulEqCmp.eq_of_compare both.2)

def iri? : Term → Option Iri
  | .iri name => some name
  | _ => none

def isResource : Term → Bool
  | .literal _ => false
  | _ => true

/-- The written form: an IRI as it is, a blank node after `_:`, a literal between quotes and
without escapes. -/
def display : Term → String
  | .iri name => name.text
  | .blank label => "_:" ++ label
  | .literal text => "\"" ++ text ++ "\""

def debug : Term → String
  | .iri name => name.bracketed
  | .blank label => "_:" ++ label
  | .literal text => Text.quoted text

/-! ## Reading the written form -/

def unquoted? : List Char → Option (List Char)
  | '"' :: rest => if rest.getLast? = some '"' then some rest.dropLast else none
  | _ => none

/-- The term whose written form is `text`. Blank nodes are tried first, then literals; what is
left must be a nonempty text without blanks, and is an IRI. -/
def ofText (text : String) : Except Error Term :=
  let refused : Except Error Term := .error (.of (.malformedIdentifier text "term"))
  match text.toList with
  | '_' :: ':' :: label => if label.isEmpty then refused else .ok (.blank (String.ofList label))
  | characters =>
    match unquoted? characters with
    | some inner => .ok (.literal (String.ofList inner))
    | none =>
      if characters.isEmpty || characters.any Text.isBlank then refused else .ok (.iri ⟨text⟩)

end Term

end BuildingRules
