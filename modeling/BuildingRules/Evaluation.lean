import BuildingRules.Binding
import BuildingRules.Query.Compile
import BuildingRules.Rule.Document
import BuildingRules.Settings

/-!
# Evaluating rules

Each pair of a class and a definition of a rule is a step: one query, put to a store. The rows of
all steps are merged by equipment, and the equipment whose binding is complete satisfies the rule.
A step that cannot be compiled or answered is recorded as a failure and finds nothing.
-/

set_option autoImplicit false

namespace BuildingRules

/-! ## Stores -/

structure Store where
  answer : (limit : Option Duration) → Query → Except Error (List Row)

def Graph.store (graph : Graph) : Store := ⟨graph.answer⟩

/-! ## Steps -/

structure Step where
  className : String
  variableName : String
  query : Except Error Query

def Rule.steps (space : Namespace) (rule : Rule) : List Step :=
  rule.applicability.flatMap fun className =>
    rule.definitions.map fun definition =>
      ⟨className, definition.variableName,
        Query.compile space className definition.variableName definition.pattern⟩

/-- What a store says to a step; a step without a query never reaches it. -/
def Step.answer (store : Store) (limit : Option Duration) (step : Step) :
    Except Error (List Row) :=
  step.query.bind (store.answer limit)

/-! ## Failures -/

structure Failure where
  ruleName : String
  className : Option String
  variableName : Option String
  error : Error
  deriving Repr

namespace Failure

def new (ruleName : String) (className variableName : Option String) (error : Error) : Failure :=
  ⟨ruleName, className, variableName, error.located ⟨some ruleName, className, variableName⟩⟩

def ofRejection (rejection : Rejection) : Failure :=
  new rejection.ruleName none (rejection.error.place.bind (·.variableName)) rejection.error

def display (failure : Failure) : String :=
  match failure.error.place with
  | some place => failure.error.message ++ " (" ++ place.display ++ ")"
  | none => failure.error.message

end Failure

def Step.failure? (store : Store) (limit : Option Duration) (ruleName : String) (step : Step) :
    Option Failure :=
  match step.answer store limit with
  | .ok _ => none
  | .error error => some (.new ruleName (some step.className) (some step.variableName) error)

def Step.rows (store : Store) (limit : Option Duration) (step : Step) : List Row :=
  match step.answer store limit with
  | .ok rows => rows
  | .error _ => []

/-! ## Outcomes -/

abbrev Found := Std.ExtTreeMap Term Binding compare

/-- What has been found, with one more row. The row counts for the equipment it is about; a row
about none is passed over. -/
def absorb (found : Found) (row : Row) : Found :=
  match row[Query.root]? with
  | some equipment =>
    found.insert equipment ((found[equipment]?.getD .empty).mergeRow row)
  | none => found

/-- What a rule came to: the equipment that satisfies it, and how much more was found of which
something is missing. -/
@[ext]
structure Outcome where
  ruleName : String
  ruleIri : String
  instances : Found
  discarded : Nat

namespace Outcome

def succeeded (outcome : Outcome) (equipment : Term) : Bool := outcome.instances.contains equipment

def binding? (outcome : Outcome) (equipment : Term) : Option Binding :=
  outcome.instances[equipment]?

def size (outcome : Outcome) : Nat := outcome.instances.size

end Outcome

def Rule.found (settings : Settings) (store : Store) (rule : Rule) : Found :=
  ((rule.steps settings.space).flatMap (Step.rows store settings.limit)).foldl absorb ∅

def Rule.outcome (settings : Settings) (store : Store) (rule : Rule) : Outcome :=
  let found := rule.found settings store
  let complete := found.filter fun _ binding => binding.size == rule.expectedSize
  ⟨rule.name, settings.ruleIri rule.name, complete, found.size - complete.size⟩

def Rule.failures (settings : Settings) (store : Store) (rule : Rule) : List Failure :=
  (rule.steps settings.space).filterMap (Step.failure? store settings.limit rule.name)

def Rule.queries (space : Namespace) (rule : Rule) : List Query :=
  (rule.steps space).filterMap fun step => step.query.toOption

/-! ## Evaluations -/

structure Evaluation where
  outcomes : List Outcome
  failures : List Failure
  asked : List Query

namespace Evaluation

def ofBook (settings : Settings) (store : Store) (book : RuleBook) : Evaluation where
  outcomes := book.rules.map (Rule.outcome settings store)
  failures := book.rules.flatMap (Rule.failures settings store)
  asked := book.rules.flatMap (Rule.queries settings.space)

/-- The evaluation of a document: its refused rules fail before all others. -/
def ofDocument (settings : Settings) (store : Store) (document : RuleDocument) : Evaluation :=
  let evaluation := ofBook settings store document.book
  { evaluation with failures := document.rejected.map .ofRejection ++ evaluation.failures }

def outcome? (evaluation : Evaluation) (ruleName : String) : Option Outcome :=
  evaluation.outcomes.find? (·.ruleName == ruleName)

def failuresOf (evaluation : Evaluation) (ruleName : String) : List Failure :=
  evaluation.failures.filter (·.ruleName == ruleName)

def isClean (evaluation : Evaluation) : Bool := evaluation.failures.isEmpty

def successCount (evaluation : Evaluation) : Nat :=
  evaluation.outcomes.foldr (fun outcome count => outcome.size + count) 0

end Evaluation

end BuildingRules
