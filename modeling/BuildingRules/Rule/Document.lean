import BuildingRules.Json.Reader
import BuildingRules.Pattern.Document
import BuildingRules.Rule

/-!
# Rule books in a document

A document is an object from rule names to rules. A fault in the form of the document or of a rule
condemns the whole document; the first such fault is the one that is reported. A fault in a
pattern refuses only the rule it is in.
-/

set_option autoImplicit false

namespace BuildingRules

structure Rejection where
  ruleName : String
  error : Error
  deriving Repr

/-- The rules of a document: those that can be used, and those that were refused. -/
structure RuleDocument where
  book : RuleBook
  rejected : List Rejection
  deriving Repr

namespace RuleDocument

def empty : RuleDocument := ⟨.empty, []⟩

def required (ruleName : String) (fields : List (String × Json)) (field : String) :
    Except Error Json :=
  match Json.find? field fields with
  | some value => .ok value
  | none => .error (RuleBook.Fault.missingField.inField ruleName field)

def classNames (ruleName : String) (index : Nat) : List Json → Except Error (List String)
  | [] => .ok []
  | .string className :: rest => do
    let others ← classNames ruleName (index + 1) rest
    .ok (className :: others)
  | _ :: _ =>
    .error (RuleBook.Fault.classNotString.inField ruleName (Path.item "applicability" index))

def applicability (ruleName : String) (fields : List (String × Json)) :
    Except Error (List String) := do
  match ← required ruleName fields "applicability" with
  | .array items => classNames ruleName 0 items
  | _ => .error (RuleBook.Fault.classesNotList.inField ruleName "applicability")

def definitions (ruleName : String) (fields : List (String × Json)) :
    Except Error (List (String × Json)) := do
  match ← required ruleName fields "definitions" with
  | .object entries => .ok entries
  | _ => .error (RuleBook.Fault.definitionsNotObject.inField ruleName "definitions")

/-- The rule with the variables of all entries defined; the first pattern at fault refuses it. -/
def defineAll (rule : Rule) : List (String × Json) → Except Error Rule
  | [] => .ok rule
  | (variableName, value) :: rest =>
    match Pattern.ofJson (Path.definition variableName) value with
    | .ok pattern => defineAll (rule.define variableName pattern) rest
    | .error error => .error (error.located ⟨some rule.name, none, some variableName⟩)

/-- A rule of a document. The outer failure condemns the document, the inner one refuses the
rule. -/
def rule (name : String) : Json → Except Error (Except Error Rule)
  | .object fields => do
    let classes ← applicability name fields
    let entries ← definitions name fields
    .ok (defineAll (classes.foldl Rule.appliesTo (Rule.new name)) entries)
  | _ => .error (RuleBook.Fault.ruleNotObject.inRule name)

def addEntries (document : RuleDocument) : List (String × Json) → Except Error RuleDocument
  | [] => .ok document
  | (name, value) :: rest => do
    match ← rule name value with
    | .ok rule =>
      let book ← document.book.insert rule
      addEntries { document with book := book } rest
    | .error error =>
      addEntries { document with rejected := document.rejected ++ [⟨name, error⟩] } rest

def ofJson : Json → Except Error RuleDocument
  | .object entries => addEntries empty entries
  | _ => .error RuleBook.Fault.documentNotObject.inDocument

/-- The document that a text holds. If the text holds no value, `complaint` tells what is wrong with
it. -/
def ofText (complaint : String → String) (text : String) : Except Error RuleDocument :=
  match Json.read? text with
  | some value => ofJson value
  | none => .error (RuleBook.Fault.notJson (complaint text)).inDocument

end RuleDocument

end BuildingRules
