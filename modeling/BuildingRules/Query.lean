import BuildingRules.Pattern
import BuildingRules.Vocabulary
import Std.Data.ExtTreeSet

/-!
# Queries

A query asks for the equipment of a class, bound to the variable `root`, together with the values
of one target variable. Its clauses hold of both, and of further variables that are not asked for.
A query has a written form for stores outside of this program.
-/

set_option autoImplicit false

namespace BuildingRules

inductive Clause
  | hasType (subject : String) (className : Iri)
  | edge (subject : String) (predicate : Iri) (quantifier : Quantifier) (object : String)
  | union (groups : List (List Clause))
  deriving Repr, BEq

namespace Clause

/-- What a union inherits from the clauses of its groups holds of every clause. -/
@[elab_as_elim]
theorem clauseInduction {motive : Clause → Prop}
    (hasType : ∀ subject className, motive (.hasType subject className))
    (edge : ∀ subject predicate quantifier object,
      motive (.edge subject predicate quantifier object))
    (union : ∀ groups, (∀ group ∈ groups, ∀ clause ∈ group, motive clause) →
      motive (.union groups)) :
    ∀ clause, motive clause
  | .hasType subject className => hasType subject className
  | .edge subject predicate quantifier object => edge subject predicate quantifier object
  | .union groups =>
    union groups fun group _inGroups clause _inGroup => clauseInduction hasType edge union clause
decreasing_by
  have groupSmaller := List.sizeOf_lt_of_mem _inGroups
  have clauseSmaller := List.sizeOf_lt_of_mem _inGroup
  rw [Clause.union.sizeOf_spec]
  omega

def isType : Clause → Bool
  | .hasType .. => true
  | _ => false

def isEdge : Clause → Bool
  | .edge .. => true
  | _ => false

mutual

/-- The clauses that remain when unions are opened. -/
def triples : Clause → List Clause
  | .hasType subject className => [.hasType subject className]
  | .edge subject predicate quantifier object => [.edge subject predicate quantifier object]
  | .union groups => triplesOfGroups groups

def triplesOfGroups : List (List Clause) → List Clause
  | [] => []
  | group :: rest => triplesOfGroup group ++ triplesOfGroups rest

def triplesOfGroup : List Clause → List Clause
  | [] => []
  | clause :: rest => clause.triples ++ triplesOfGroup rest

end

def ownVariables : Clause → List String
  | .hasType subject _ => [subject]
  | .edge subject _ _ object => [subject, object]
  | .union _ => []

/-! ## Written form -/

def indent (depth : Nat) : String := String.ofList (List.replicate (2 * depth) ' ')

mutual

def lines (depth : Nat) : Clause → List String
  | .hasType subject className =>
    [indent depth ++ "?" ++ subject ++ " " ++ Vocabulary.rdfType.bracketed ++ " "
      ++ className.bracketed ++ " ."]
  | .edge subject predicate quantifier object =>
    [indent depth ++ "?" ++ subject ++ " " ++ predicate.bracketed ++ quantifier.mark ++ " ?"
      ++ object ++ " ."]
  | .union groups =>
    [indent depth ++ "\x7b"] ++ linesOfGroups depth true groups ++ [indent depth ++ "\x7d"]

def linesOfGroups (depth : Nat) (isFirst : Bool) : List (List Clause) → List String
  | [] => []
  | group :: rest =>
    (if isFirst then [] else [indent (depth + 1) ++ "UNION"]) ++ [indent (depth + 1) ++ "\x7b"]
      ++ linesOfGroup (depth + 2) group ++ [indent (depth + 1) ++ "\x7d"]
      ++ linesOfGroups depth false rest

def linesOfGroup (depth : Nat) : List Clause → List String
  | [] => []
  | clause :: rest => clause.lines depth ++ linesOfGroup depth rest

end

end Clause

/-- A query for the pairs of an equipment of a class and a value of the target. -/
structure Query where
  className : Iri
  target : String
  clauses : List Clause
  deriving Repr, BEq

namespace Query

def root : String := "root"

def projection (query : Query) : List String := [root, query.target]

def text (query : Query) : String :=
  let head := "SELECT" ++ String.join (query.projection.map (" ?" ++ ·)) ++ " WHERE \x7b"
  "\n".intercalate (head :: Clause.linesOfGroup 1 query.clauses ++ ["\x7d"])

def triples (query : Query) : List Clause := Clause.triplesOfGroup query.clauses

def variableNames (query : Query) : List String :=
  (Std.ExtTreeSet.ofList (query.triples.flatMap Clause.ownVariables) compare).toList

def freshVariables (query : Query) : List String :=
  query.variableNames.filter fun name => name != root && name != query.target

end Query

end BuildingRules
