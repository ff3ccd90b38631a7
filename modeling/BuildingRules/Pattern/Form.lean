import BuildingRules.Identifier
import BuildingRules.Json
import BuildingRules.Pattern
import BuildingRules.Pattern.Fault

/-!
# The form of a pattern in a document

Which values of a document are patterns, apart from how they are read: `Accepted`. A value that is
none offends somewhere; `sites` lists the places to be looked at in the order of the document, each
before what is below it. `toJson` writes a tree as a document.
-/

set_option autoImplicit false

namespace BuildingRules.Pattern

/-! ## Keys -/

/-- One of the relations, with or without a mark. -/
def RelationKey (key : String) : Prop :=
  ∃ (relation : Relation) (quantifier : Quantifier), key = relation.name ++ quantifier.mark

def StartsSmall (key : String) : Prop :=
  ∃ character, key.toList.head? = some character ∧ character.isLower = true

def EndsInMark (key : String) : Prop :=
  ∃ character, key.toList.getLast? = some character ∧
    (character = '?' ∨ character = '*' ∨ character = '+')

/-- Any other key that is an absolute IRI or does not look like a relation. -/
def ClassKey (key : String) : Prop :=
  key ≠ "choice" ∧ ¬RelationKey key ∧
    (Identifier.isAbsoluteIri key = true ∨ ¬StartsSmall key ∧ ¬EndsInMark key)

/-! ## Accepted values -/

mutual

inductive Accepted : Json → Prop
  | leaf (className : String) : Accepted (.string className)
  | object {entries : List (String × Json)} : entries ≠ [] →
      (∀ entry ∈ entries, AcceptedEntry entry.1 entry.2) → Accepted (.object entries)

inductive AcceptedEntry : String → Json → Prop
  | choice {branches : List Json} : branches ≠ [] → (∀ branch ∈ branches, Accepted branch) →
      AcceptedEntry "choice" (.array branches)
  | related {key : String} {value : Json} : RelationKey key → Accepted value →
      AcceptedEntry key value
  | constraint {key : String} {value : Json} : ClassKey key → Accepted value →
      AcceptedEntry key value

end

/-! ## Offences -/

inductive Site
  | value (path : String) (value : Json)
  | entry (path key : String) (value : Json)

mutual

/-- A value, and then what is below it, entry by entry. -/
def sites (path : String) : Json → List Site
  | .object entries => .value path (.object entries) :: sitesOfEntries path entries
  | .null => [.value path .null]
  | .bool value => [.value path (.bool value)]
  | .number value => [.value path (.number value)]
  | .string text => [.value path (.string text)]
  | .array items => [.value path (.array items)]

def sitesOfEntries (path : String) : List (String × Json) → List Site
  | [] => []
  | entry :: rest => sitesOfEntry path entry ++ sitesOfEntries path rest

/-- Below the key of a choice there are branches, below any other key there is a value. -/
def sitesOfEntry (path : String) : String × Json → List Site
  | (key, .array items) =>
    .entry path key (.array items) ::
      if key = "choice" then sitesOfBranches (Path.key path key) 0 items
      else [.value (Path.key path key) (.array items)]
  | (key, value) =>
    .entry path key value :: if key = "choice" then [] else sites (Path.key path key) value

def sitesOfBranches (path : String) (index : Nat) : List Json → List Site
  | [] => []
  | branch :: rest => sites (Path.item path index) branch ++ sitesOfBranches path (index + 1) rest

end

/-- What is wrong at a place itself, whatever is below it. -/
inductive Offends : Site → Error → Prop
  | wrongKind {path : String} {value : Json} : (∀ className, value ≠ .string className) →
      (∀ entries, value ≠ .object entries) →
      Offends (.value path value) ((Fault.wrongKind value.kind).error path)
  | emptyObject {path : String} : Offends (.value path (.object [])) (Fault.emptyObject.error path)
  | choiceNotList {path : String} {value : Json} : (∀ branches, value ≠ .array branches) →
      Offends (.entry path "choice" value) (Fault.choiceNotList.error (Path.key path "choice"))
  | choiceEmpty {path : String} :
      Offends (.entry path "choice" (.array [])) (Fault.choiceEmpty.error (Path.key path "choice"))
  | unknownRelation {path key : String} {value : Json} : key ≠ "choice" → ¬RelationKey key →
      ¬ClassKey key → Offends (.entry path key value) (.of (.unknownRelation key path))

def Clean (places : List Site) : Prop := ∀ site ∈ places, ∀ error, ¬Offends site error

/-- The first place that offends does so with this error. -/
def FirstOffence (places : List Site) (error : Error) : Prop :=
  ∃ before site after, places = before ++ site :: after ∧ Clean before ∧ Offends site error

/-! ## Trees -/

/-- No choice is without branches, and no conjunction has fewer than two parts. -/
inductive Proper : Pattern → Prop
  | leaf (className : String) : Proper (.leaf className)
  | constraint {className : String} {child : Pattern} : Proper child →
      Proper (.constraint className child)
  | related {relation : Relation} {quantifier : Quantifier} {child : Pattern} : Proper child →
      Proper (.related relation quantifier child)
  | choice {branches : List Pattern} : branches ≠ [] → (∀ branch ∈ branches, Proper branch) →
      Proper (.choice branches)
  | all {parts : List Pattern} : 2 ≤ parts.length → (∀ part ∈ parts, Proper part) →
      Proper (.all parts)

def entriesOfObject : Json → List (String × Json)
  | .object entries => entries
  | _ => []

mutual

/-- The document of a tree. A conjunction has the entries of all its parts. -/
def toJson : Pattern → Json
  | .leaf className => .string className
  | .constraint className child => .object [(className, child.toJson)]
  | .related relation quantifier child =>
    .object [(relation.name ++ quantifier.mark, child.toJson)]
  | .choice branches => .object [("choice", .array (branchesToJson branches))]
  | .all parts => .object (partsToEntries parts)

def branchesToJson : List Pattern → List Json
  | [] => []
  | branch :: rest => branch.toJson :: branchesToJson rest

def partsToEntries : List Pattern → List (String × Json)
  | [] => []
  | part :: rest => entriesOfObject part.toJson ++ partsToEntries rest

end

end BuildingRules.Pattern
