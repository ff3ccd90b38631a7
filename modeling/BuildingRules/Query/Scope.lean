import BuildingRules.Query.Solutions

/-!
# Scopes of variables in a query

A variable is in scope where an edge before, in the same group or in a group around it, leads to
it. `Clause.Scoped` says that all subjects are in scope. `Clause.Choice` opens a query to what is
left of it when one group is taken of each union, and `Graph.Meets` says which clause is met with
which row when a group is answered.
-/

set_option autoImplicit false

namespace BuildingRules

namespace Clause

def subject? : Clause → Option String
  | .hasType subject _ => some subject
  | .edge subject _ _ _ => some subject
  | .union _ => none

/-- The variable that an edge leads to. -/
def object? : Clause → Option String
  | .hasType _ _ => none
  | .edge _ _ _ object => some object
  | .union _ => none

/-- Every subject is in scope where it stands, if the given variables are at the start. What a
union brings into scope stays inside of its groups. -/
inductive Scoped : List String → List Clause → Prop
  | nil {scope : List String} : Scoped scope []
  | hasType {scope : List String} {subject : String} {className : Iri} {rest : List Clause} :
      subject ∈ scope → Scoped scope rest → Scoped scope (.hasType subject className :: rest)
  | edge {scope : List String} {subject object : String} {predicate : Iri}
      {quantifier : Quantifier} {rest : List Clause} :
      subject ∈ scope → Scoped (object :: scope) rest →
      Scoped scope (.edge subject predicate quantifier object :: rest)
  | union {scope : List String} {groups : List (List Clause)} {rest : List Clause} :
      (∀ group ∈ groups, Scoped scope group) → Scoped scope rest →
      Scoped scope (.union groups :: rest)

/-- What a group comes to when one group is taken of each of its unions. -/
inductive Choice : List Clause → List Clause → Prop
  | nil : Choice [] []
  | hasType {subject : String} {className : Iri} {rest taken : List Clause} :
      Choice rest taken →
      Choice (.hasType subject className :: rest) (.hasType subject className :: taken)
  | edge {subject object : String} {predicate : Iri} {quantifier : Quantifier}
      {rest taken : List Clause} : Choice rest taken →
      Choice (.edge subject predicate quantifier object :: rest)
        (.edge subject predicate quantifier object :: taken)
  | union {groups : List (List Clause)} {group rest first taken : List Clause} :
      group ∈ groups → Choice group first → Choice rest taken →
      Choice (.union groups :: rest) (first ++ taken)

end Clause

/-- When the group is answered from the first row, the clause is met with the second: each clause is
met with every row that the clauses before it lead to, and a union takes its row into its groups. -/
inductive Graph.Meets (graph : Graph) : Row → List Clause → Row → Clause → Prop
  | here {row : Row} {clause : Clause} {rest : List Clause} :
      Meets graph row (clause :: rest) row clause
  | after {row next met : Row} {first clause : Clause} {rest : List Clause} :
      next ∈ graph.clauseRows row first → Meets graph next rest met clause →
      Meets graph row (first :: rest) met clause
  | within {row met : Row} {groups : List (List Clause)} {group rest : List Clause}
      {clause : Clause} : group ∈ groups → Meets graph row group met clause →
      Meets graph row (.union groups :: rest) met clause

end BuildingRules
