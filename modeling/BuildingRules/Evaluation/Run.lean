import BuildingRules.Evaluation

/-!
# Evaluating step by step

A document is evaluated in a run, which takes its steps one after the other: each query is put to
the store when its step is reached, and a failure is recorded when it occurs. The store may keep a
memory, so that what it says depends on all that it was asked before.
-/

set_option autoImplicit false

namespace BuildingRules

/-- A store with a memory. -/
structure Service (Memory : Type) where
  answer : (limit : Option Duration) → Query → Memory → Except Error (List Row) × Memory

/-- A store that has nothing to remember. -/
def Store.service (store : Store) : Service Unit :=
  ⟨fun limit query _ => (store.answer limit query, ())⟩

/-- How far a run has come: the memory of the store, the queries that were put to it and the
failures that occurred, in their order. -/
structure Run (Memory : Type) where
  memory : Memory
  asked : List Query
  failures : List Failure

def Rule.outcomeOf (settings : Settings) (rule : Rule) (found : Found) : Outcome :=
  let complete := found.filter fun _ binding => binding.size == rule.expectedSize
  ⟨rule.name, settings.ruleIri rule.name, complete, found.size - complete.size⟩

namespace Run

variable {Memory : Type}

def start (memory : Memory) : Run Memory := ⟨memory, [], []⟩

def ask (service : Service Memory) (limit : Option Duration) (query : Query) (run : Run Memory) :
    Except Error (List Row) × Run Memory :=
  let reply := service.answer limit query run.memory
  (reply.1, { run with memory := reply.2, asked := run.asked ++ [query] })

def record (failure : Failure) (run : Run Memory) : Run Memory :=
  { run with failures := run.failures ++ [failure] }

/-- What a rule found so far, and the run, after one more step. A step without a query does not
reach the store. -/
def takeStep (service : Service Memory) (limit : Option Duration) (ruleName : String)
    (state : Found × Run Memory) (step : Step) : Found × Run Memory :=
  let (answer, run) :=
    match step.query with
    | .ok query => state.2.ask service limit query
    | .error error => (.error error, state.2)
  match answer with
  | .ok rows => (rows.foldl absorb state.1, run)
  | .error error =>
    (state.1, run.record (.new ruleName (some step.className) (some step.variableName) error))

def takeRule (settings : Settings) (service : Service Memory) (state : List Outcome × Run Memory)
    (rule : Rule) : List Outcome × Run Memory :=
  let (found, run) :=
    (rule.steps settings.space).foldl (takeStep service settings.limit rule.name) (∅, state.2)
  (state.1 ++ [rule.outcomeOf settings found], run)

/-- The evaluation of a document that a run comes to. Refused rules are put before the failures of
the run. -/
def ofDocument (settings : Settings) (service : Service Memory) (memory : Memory)
    (document : RuleDocument) : Evaluation :=
  let (outcomes, run) := document.book.rules.foldl (takeRule settings service) ([], start memory)
  ⟨outcomes, document.rejected.map .ofRejection ++ run.failures, run.asked⟩

end Run

end BuildingRules
