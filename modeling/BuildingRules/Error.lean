import BuildingRules.Duration

/-!
# What can go wrong

An error is a cause, and the place in a rule book where it arose when that is known. Each cause
belongs to one category; only faulty input ends a run.
-/

set_option autoImplicit false

namespace BuildingRules

inductive Category
  /-- The input as a whole cannot be used. -/
  | input
  /-- One pattern cannot be made into a query. -/
  | compile
  /-- The store did not answer one query. -/
  | execution
  /-- One failed shape has no authoring shape that could be found. -/
  | resolution
  deriving DecidableEq, Repr

namespace Category

def name : Category → String
  | .input => "input"
  | .compile => "compile"
  | .execution => "execution"
  | .resolution => "resolution"

def all : List Category := [.input, .compile, .execution, .resolution]

def ofName? (name : String) : Option Category := all.find? (·.name == name)

/-- Whether failures of this category end the run. -/
def isFatal : Category → Bool
  | .input => true
  | _ => false

end Category

inductive Cause
  /-- A rule document departs from the form of a rule book, in a rule or as a whole. -/
  | malformedRules (rule : Option String) (field reason : String)
  | unknownRelation (name path : String)
  | malformedIdentifier (identifier path : String)
  | reservedVariable (name : String)
  | invalidPattern (path reason : String)
  | queryRejected (reason : String)
  | queryTimeout (limit : Duration)
  | resolutionLoop (shape : String) (steps : Nat)
  | unreadable (reason : String)
  | graphSyntax (line : Nat) (reason : String)
  deriving DecidableEq, Repr

namespace Cause

def category : Cause → Category
  | .malformedRules .. | .unreadable .. | .graphSyntax .. => .input
  | .unknownRelation .. | .malformedIdentifier .. | .reservedVariable .. | .invalidPattern .. =>
    .compile
  | .queryRejected .. | .queryTimeout .. => .execution
  | .resolutionLoop .. => .resolution

def message : Cause → String
  | .malformedRules rule field reason =>
    "malformed rule document at rule `" ++ rule.getD "<document>" ++ "` field `" ++ field ++ "`: "
      ++ reason
  | .unknownRelation name path => "unknown relationship `" ++ name ++ "` at " ++ path
  | .malformedIdentifier identifier path =>
    "malformed identifier `" ++ identifier ++ "` at " ++ path
  | .reservedVariable name => "variable name `" ++ name ++ "` is reserved"
  | .invalidPattern path reason => "invalid pattern at " ++ path ++ ": " ++ reason
  | .queryRejected reason => "query rejected: " ++ reason
  | .queryTimeout limit => "query timed out after " ++ limit.display
  | .resolutionLoop shape steps =>
    "shape resolution did not terminate after " ++ Nat.repr steps ++ " steps (stopped at " ++ shape
      ++ ")"
  | .unreadable reason => "I/O error: " ++ reason
  | .graphSyntax line reason => "graph syntax error at line " ++ Nat.repr line ++ ": " ++ reason

end Cause

structure Place where
  ruleName : Option String
  className : Option String
  variableName : Option String
  deriving DecidableEq, Repr

namespace Place

def parts (place : Place) : List String :=
  (place.ruleName.map ("rule " ++ ·)).toList ++ (place.className.map ("class " ++ ·)).toList
    ++ (place.variableName.map ("variable " ++ ·)).toList

def display (place : Place) : String :=
  if place.parts.isEmpty then "" else "in " ++ ", ".intercalate place.parts

end Place

structure Error where
  cause : Cause
  place : Option Place
  deriving DecidableEq, Repr

namespace Error

def of (cause : Cause) : Error := ⟨cause, none⟩

def located (error : Error) (place : Place) : Error := { error with place := some place }

theorem eq_located_iff {error fault : Error} {place : Place} :
    error = fault.located place ↔ error.cause = fault.cause ∧ error.place = some place :=
  Iff.of_eq (Error.mk.injEq ..)

def category (error : Error) : Category := error.cause.category

def message (error : Error) : String := error.cause.message

end Error

/-! ## Computations that can fail -/

theorem bind_eq_ok {Reason Value Result : Type} {first : Except Reason Value}
    {next : Value → Except Reason Result} {result : Result} :
    (first >>= next) = .ok result ↔ ∃ value, first = .ok value ∧ next value = .ok result := by
  cases first with
  | error refused => simp [bind, Except.bind]
  | ok value => simp [bind, Except.bind]

theorem bind_eq_error {Reason Value Result : Type} {first : Except Reason Value}
    {next : Value → Except Reason Result} {reason : Reason} :
    (first >>= next) = .error reason ↔
      first = .error reason ∨ ∃ value, first = .ok value ∧ next value = .error reason := by
  cases first with
  | error refused => simp [bind, Except.bind]
  | ok value => simp [bind, Except.bind]

theorem map_eq_ok {Reason Value Result : Type} {first : Except Reason Value}
    {change : Value → Result} {result : Result} :
    first.map change = .ok result ↔ ∃ value, first = .ok value ∧ change value = result := by
  cases first with
  | error refused => simp [Except.map]
  | ok value => simp [Except.map]

/-! ## The first fault of a list -/

/-- Either the first entry is to blame, or it is good and the blame falls on the rest. The number
that is blamed is that of the entries before. -/
theorem exists_split_cons {Entry : Type} (good : Entry → Prop) (blamed : Nat → Entry → Prop)
    {first : Entry} {rest : List Entry} :
    (∃ before entry after, first :: rest = before ++ entry :: after ∧
      (∀ other ∈ before, good other) ∧ blamed before.length entry) ↔
    blamed 0 first ∨ good first ∧ ∃ before entry after, rest = before ++ entry :: after ∧
      (∀ other ∈ before, good other) ∧ blamed (before.length + 1) entry := by
  constructor
  · rintro ⟨before, entry, after, split, allGood, isBlamed⟩
    cases before with
    | nil =>
      obtain ⟨rfl, rfl⟩ := List.cons.inj split
      exact .inl isBlamed
    | cons _ others =>
      obtain ⟨rfl, rfl⟩ := List.cons.inj split
      obtain ⟨isGood, othersGood⟩ := List.forall_mem_cons.1 allGood
      exact .inr ⟨isGood, others, entry, after, rfl, othersGood, isBlamed⟩
  · rintro (isBlamed | ⟨isGood, before, entry, after, rfl, allGood, isBlamed⟩)
    · exact ⟨[], first, rest, rfl, nofun, isBlamed⟩
    · exact ⟨first :: before, entry, after, rfl, List.forall_mem_cons.2 ⟨isGood, allGood⟩,
        isBlamed⟩

end BuildingRules
