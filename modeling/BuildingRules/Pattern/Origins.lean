import BuildingRules.Pattern.Document
import BuildingRules.Pattern.Places

/-!
# Where the nodes of a tree come from

Reading a pattern with a record: for every node of the tree the value of the document that it was
made from, and the path that this value was read at. `Hole` leaves a value out of a document and
remembers the way to it.
-/

set_option autoImplicit false

namespace BuildingRules.Pattern

/-- A node of a tree, the value it was made from and the path that the value was read at. A node
that an entry of an object stands for was made from the object. -/
structure Origin where
  path : String
  value : Json
  node : Pattern

def Origin.spot (origin : Origin) : Spot := ⟨origin.path, origin.node⟩

/-- A tree with the origins of its nodes, each before those of the nodes below it. -/
structure Noted where
  tree : Pattern
  origins : List Origin

namespace Noted

/-- A node is put on top of what was read before. -/
def under (path : String) (value : Json) (node : Pattern) (below : List Noted) : Noted :=
  ⟨node, ⟨path, value, node⟩ :: below.flatMap origins⟩

def choice (path : String) (value : Json) (branches : List Noted) : Noted :=
  under path value (.choice (branches.map tree)) branches

def related (path : String) (value : Json) (relation : Relation) (quantifier : Quantifier)
    (child : Noted) : Noted :=
  under path value (.related relation quantifier child.tree) [child]

def constraint (path : String) (value : Json) (className : String) (child : Noted) : Noted :=
  under path value (.constraint className child.tree) [child]

def conjunction (path : String) (value : Json) : List Noted → Noted
  | [part] => part
  | parts => under path value (.all (parts.map tree)) parts

end Noted

mutual

def notedOfJson (path : String) : Json → Except Error Noted
  | .string className => .ok (.under path (.string className) (.leaf className) [])
  | .object entries =>
    if entries.isEmpty then .error (Fault.emptyObject.error path)
    else
      (notedOfEntries path (.object entries) entries).map (.conjunction path (.object entries))
  | .null => .error ((Fault.wrongKind Json.null.kind).error path)
  | .bool value => .error ((Fault.wrongKind (Json.bool value).kind).error path)
  | .number value => .error ((Fault.wrongKind (Json.number value).kind).error path)
  | .array items => .error ((Fault.wrongKind (Json.array items).kind).error path)

def notedOfEntries (path : String) (whole : Json) :
    List (String × Json) → Except Error (List Noted)
  | [] => .ok []
  | (key, value) :: rest => do
    let first ←
      match Key.of key with
      | .alternatives =>
        match value with
        | .array branches =>
          if branches.isEmpty then .error (Fault.choiceEmpty.error (Path.key path key))
          else (notedOfBranches (Path.key path key) 0 branches).map (.choice path whole)
        | _ => .error (Fault.choiceNotList.error (Path.key path key))
      | .related relation quantifier =>
        (notedOfJson (Path.key path key) value).map (.related path whole relation quantifier)
      | .unknown => .error (.of (.unknownRelation key path))
      | .constraint => (notedOfJson (Path.key path key) value).map (.constraint path whole key)
    let others ← notedOfEntries path whole rest
    .ok (first :: others)

def notedOfBranches (path : String) (index : Nat) : List Json → Except Error (List Noted)
  | [] => .ok []
  | branch :: rest => do
    let first ← notedOfJson (Path.item path index) branch
    let others ← notedOfBranches path (index + 1) rest
    .ok (first :: others)

end

/-- A pattern of a document with one value left out. -/
inductive Hole
  | here
  /-- The value of an entry that is a relation or a constraint. -/
  | entry (before : List (String × Json)) (key : String) (notChoice : key ≠ "choice") (hole : Hole)
      (after : List (String × Json))
  /-- A branch of a choice. -/
  | branch (before : List (String × Json)) (earlier : List Json) (hole : Hole) (later : List Json)
      (after : List (String × Json))

namespace Hole

def fill (value : Json) : Hole → Json
  | here => value
  | entry before key _ hole after => .object (before ++ (key, hole.fill value) :: after)
  | branch before earlier hole later after =>
    .object (before ++ ("choice", .array (earlier ++ hole.fill value :: later)) :: after)

/-- The path that the value left out is read at. -/
def path (start : String) : Hole → String
  | here => start
  | entry _ key _ hole _ => hole.path (Path.key start key)
  | branch _ earlier hole _ _ =>
    hole.path (Path.item (Path.key start "choice") earlier.length)

end Hole

end BuildingRules.Pattern
