import BuildingRules.Graph.Reach
import BuildingRules.Query
import Std.Data.ExtTreeMap

/-!
# Answering queries over a graph

A row gives values to some variables. A clause takes a row to the rows that extend it and satisfy
the clause, in the order of the values it adds; a group does so clause by clause. A query is
answered from the row without values, and its answer keeps the variables that are asked for.
-/

set_option autoImplicit false

namespace BuildingRules

abbrev Row := Std.ExtTreeMap String Term compare

def Row.restrict (row : Row) (names : List String) : Row :=
  row.filter fun name _ => names.contains name

namespace Graph

def typeRows (graph : Graph) (row : Row) (subject : String) (className : Iri) : List Row :=
  match row[subject]? with
  | some node => if graph.hasType node className then [row] else []
  | none => (graph.instancesOf className).map fun node => row.insert subject node

/-- Where an edge of a predicate may start: everywhere if no edge is needed, otherwise at the
subjects of the predicate. -/
def starts (graph : Graph) (predicate : Iri) (quantifier : Quantifier) : List Term :=
  if quantifier.allowsZero then graph.nodes
  else (Std.ExtTreeSet.ofList ((graph.pairs predicate).map (·.1)) compare).toList

def edgeRows (graph : Graph) (row : Row) (subject : String) (predicate : Iri)
    (quantifier : Quantifier) (object : String) : List Row :=
  match row[subject]?, row[object]? with
  | some start, some finish =>
    if (graph.reach predicate quantifier .forward start).contains finish then [row] else []
  | some start, none =>
    (graph.reach predicate quantifier .forward start).toList.map fun finish =>
      row.insert object finish
  | none, some finish =>
    (graph.reach predicate quantifier .backward finish).toList.map fun start =>
      row.insert subject start
  | none, none =>
    (graph.starts predicate quantifier).flatMap fun start =>
      ((graph.reach predicate quantifier .forward start).toList.filter fun finish =>
        subject != object || finish == start).map fun finish =>
          (row.insert subject start).insert object finish

mutual

def clauseRows (graph : Graph) (row : Row) : Clause → List Row
  | .hasType subject className => graph.typeRows row subject className
  | .edge subject predicate quantifier object =>
    graph.edgeRows row subject predicate quantifier object
  | .union groups => unionRows graph row groups

def unionRows (graph : Graph) (row : Row) : List (List Clause) → List Row
  | [] => []
  | group :: rest => groupRows graph [row] group ++ unionRows graph row rest

def groupRows (graph : Graph) (rows : List Row) : List Clause → List Row
  | [] => rows
  | clause :: rest => groupRows graph (rows.flatMap fun row => clauseRows graph row clause) rest

end

/-- The solutions of a query, in the order in which they are found and as often. -/
def solutions (graph : Graph) (query : Query) : List Row :=
  (graph.groupRows [∅] query.clauses).map fun row => Row.restrict row query.projection

/-- The answer to a query within a limit of time. Every clause takes some time, so a limit of none
is exceeded by the first clause; no longer limit is. -/
def answer (graph : Graph) (limit : Option Duration) (query : Query) :
    Except Error (List Row) :=
  match limit with
  | some ⟨0⟩ =>
    if query.clauses.isEmpty then .ok (graph.solutions query)
    else .error (.of (.queryTimeout ⟨0⟩))
  | _ => .ok (graph.solutions query)

end Graph

end BuildingRules
