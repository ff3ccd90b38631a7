import BuildingRules.Identifier
import BuildingRules.Json
import BuildingRules.Pattern
import BuildingRules.Pattern.Fault

/-!
# Patterns in a document

A string is a leaf. An object has one entry for each part of a conjunction; a single entry stands
for itself. A key is `choice`, a relation with its quantifier, or a class; a key that reads as a
relation and names none is refused. The first fault in document order is the one that is reported.
-/

set_option autoImplicit false

namespace BuildingRules.Pattern

/-- Whether a key can only be meant as a relation: it starts with a small letter or ends in a
quantifier, and is not an absolute IRI. -/
def readsAsRelation (key : String) : Bool :=
  !Identifier.isAbsoluteIri key
    && (key.toList.head?.any Char.isLower
      || (key.toList.getLast?.bind Quantifier.ofMark?).isSome)

inductive Key
  | alternatives
  | related (relation : Relation) (quantifier : Quantifier)
  | unknown
  | constraint
  deriving DecidableEq, Repr

def Key.of (key : String) : Key :=
  if key == "choice" then .alternatives
  else
    match Relation.ofKey? key with
    | some (relation, quantifier) => .related relation quantifier
    | none => if readsAsRelation key then .unknown else .constraint

/-- One part stands for itself, several are a conjunction. -/
def conjunction : List Pattern → Pattern
  | [part] => part
  | parts => .all parts

mutual

def ofJson (path : String) : Json → Except Error Pattern
  | .string className => .ok (.leaf className)
  | .object entries =>
    if entries.isEmpty then .error (Fault.emptyObject.error path)
    else (ofEntries path entries).map conjunction
  | .null => .error ((Fault.wrongKind Json.null.kind).error path)
  | .bool value => .error ((Fault.wrongKind (Json.bool value).kind).error path)
  | .number value => .error ((Fault.wrongKind (Json.number value).kind).error path)
  | .array items => .error ((Fault.wrongKind (Json.array items).kind).error path)

def ofEntries (path : String) : List (String × Json) → Except Error (List Pattern)
  | [] => .ok []
  | (key, value) :: rest => do
    let first ←
      match Key.of key with
      | .alternatives =>
        match value with
        | .array branches =>
          if branches.isEmpty then .error (Fault.choiceEmpty.error (Path.key path key))
          else (ofBranches (Path.key path key) 0 branches).map .choice
        | _ => .error (Fault.choiceNotList.error (Path.key path key))
      | .related relation quantifier =>
        (ofJson (Path.key path key) value).map (.related relation quantifier)
      | .unknown => .error (.of (.unknownRelation key path))
      | .constraint => (ofJson (Path.key path key) value).map (.constraint key)
    let others ← ofEntries path rest
    .ok (first :: others)

def ofBranches (path : String) (index : Nat) : List Json → Except Error (List Pattern)
  | [] => .ok []
  | branch :: rest => do
    let first ← ofJson (Path.item path index) branch
    let others ← ofBranches path (index + 1) rest
    .ok (first :: others)

end

end BuildingRules.Pattern
