/-!
# Patterns

A rule finds a variable's value with a pattern, a tree that is read from a piece of equipment
outwards: along relations, through classes, by alternatives and by conjunctions.
-/

set_option autoImplicit false

namespace BuildingRules

/-! ## Relations and quantifiers -/

inductive Relation
  | hasPoint
  | hasPart
  | isPointOf
  | isPartOf
  | feeds
  deriving DecidableEq, Repr

namespace Relation

def all : List Relation := [.hasPoint, .hasPart, .isPointOf, .isPartOf, .feeds]

def name : Relation → String
  | .hasPoint => "hasPoint"
  | .hasPart => "hasPart"
  | .isPointOf => "isPointOf"
  | .isPartOf => "isPartOf"
  | .feeds => "feeds"

def ofName? (name : String) : Option Relation := all.find? (·.name == name)

end Relation

inductive Quantifier
  | one
  | zeroOrOne
  | zeroOrMore
  | oneOrMore
  deriving DecidableEq, Repr

namespace Quantifier

def mark : Quantifier → String
  | .one => ""
  | .zeroOrOne => "?"
  | .zeroOrMore => "*"
  | .oneOrMore => "+"

def ofMark? : Char → Option Quantifier
  | '?' => some .zeroOrOne
  | '*' => some .zeroOrMore
  | '+' => some .oneOrMore
  | _ => none

def allowsZero : Quantifier → Bool
  | .zeroOrOne | .zeroOrMore => true
  | _ => false

def allowsMany : Quantifier → Bool
  | .zeroOrMore | .oneOrMore => true
  | _ => false

end Quantifier

/-- The relation and quantifier that a key of a pattern names, as in `hasPart+`. -/
def Relation.ofKey? (key : String) : Option (Relation × Quantifier) :=
  match key.toList.getLast?.bind Quantifier.ofMark? with
  | some quantifier =>
    (ofName? (String.ofList key.toList.dropLast)).map fun relation => (relation, quantifier)
  | none => (ofName? key).map fun relation => (relation, .one)

/-! ## Trees -/

inductive Pattern
  /-- The value is of a class. Below a relation it is what the relation leads to; anywhere else it
  is a point of the node. -/
  | leaf (className : String)
  /-- The node is of a class, and the value is found from the same node. -/
  | constraint (className : String) (child : Pattern)
  /-- The value is found from what a relation leads to. -/
  | related (relation : Relation) (quantifier : Quantifier) (child : Pattern)
  /-- One of the branches finds the value. -/
  | choice (branches : List Pattern)
  /-- Every part finds the same value. -/
  | all (parts : List Pattern)
  deriving Repr, BEq

namespace Pattern

def isLeaf : Pattern → Bool
  | .leaf _ => true
  | _ => false

mutual

def relationCount : Pattern → Nat
  | .leaf _ => 0
  | .constraint _ child => child.relationCount
  | .related _ _ child => 1 + child.relationCount
  | .choice branches => relationCounts branches
  | .all parts => relationCounts parts

def relationCounts : List Pattern → Nat
  | [] => 0
  | first :: rest => first.relationCount + relationCounts rest

end

mutual

def classNames : Pattern → List String
  | .leaf className => [className]
  | .constraint className child => className :: child.classNames
  | .related _ _ child => child.classNames
  | .choice branches => classNamesIn branches
  | .all parts => classNamesIn parts

def classNamesIn : List Pattern → List String
  | [] => []
  | first :: rest => first.classNames ++ classNamesIn rest

end

end Pattern

/-! ## Places in a tree -/

namespace Path

def key (path key : String) : String := path ++ "." ++ key

def item (path : String) (index : Nat) : String := path ++ "[" ++ Nat.repr index ++ "]"

def definition (variableName : String) : String := key "definitions" variableName

end Path

end BuildingRules
