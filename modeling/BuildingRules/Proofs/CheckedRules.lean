import BuildingRules.Check
import BuildingRules.Evaluation.Run
import BuildingRules.Proofs.BuiltRules

/-!
# Checking and evaluating

A run puts to the store the queries of the steps that have one, whatever the store says, and over a
store without memory it comes to the evaluation that is described rule by rule
(`Run.ofDocument_service`). A graph answers every query, so what a check of a document finds is what
fails when the document is evaluated: `checksAsEvaluated`.
-/

set_option autoImplicit false

namespace BuildingRules

namespace Run

variable {Memory : Type}

/-! ## What a run asks -/

theorem asked_takeStep (service : Service Memory) (limit : Option Duration) (ruleName : String)
    (state : Found × Run Memory) (step : Step) :
    (takeStep service limit ruleName state step).2.asked =
      state.2.asked ++ step.query.toOption.toList := by
  unfold takeStep
  cases step.query with
  | error error => exact (List.append_nil _).symm
  | ok query =>
    dsimp only [ask]
    cases (service.answer limit query state.2.memory).1 <;> rfl

theorem asked_foldl_takeStep (service : Service Memory) (limit : Option Duration)
    (ruleName : String) (steps : List Step) (state : Found × Run Memory) :
    (steps.foldl (takeStep service limit ruleName) state).2.asked =
      state.2.asked ++ steps.filterMap fun step => step.query.toOption := by
  induction steps generalizing state with
  | nil => exact (List.append_nil _).symm
  | cons step rest inductionHypothesis =>
    rw [List.foldl_cons, inductionHypothesis, asked_takeStep, List.append_assoc]
    cases isQuery : step.query.toOption <;> simp [isQuery]

/-- Each rule comes to one outcome, and puts its queries to the store. -/
theorem foldl_takeRule (settings : Settings) (service : Service Memory) (rules : List Rule)
    (state : List Outcome × Run Memory) :
    (rules.foldl (takeRule settings service) state).1.length = state.1.length + rules.length ∧
    (rules.foldl (takeRule settings service) state).2.asked =
      state.2.asked ++ rules.flatMap (Rule.queries settings.space) := by
  induction rules generalizing state with
  | nil => exact ⟨rfl, (List.append_nil _).symm⟩
  | cons rule rest inductionHypothesis =>
    obtain ⟨outcomes, asked⟩ := inductionHypothesis (takeRule settings service state rule)
    rw [List.foldl_cons, outcomes, asked]
    constructor
    · simp only [takeRule, List.length_append, List.length_cons, List.length_nil]
      omega
    · rw [takeRule, asked_foldl_takeStep, List.flatMap_cons, List.append_assoc]
      rfl

/-! ## What a run records -/

/-- Every failure says at which step it occurred. -/
def BlamesSteps (failures : List Failure) : Prop :=
  ∀ failure ∈ failures, failure.className.isSome = true ∧ failure.variableName.isSome = true

theorem blamesSteps_takeStep (service : Service Memory) (limit : Option Duration)
    (ruleName : String) (state : Found × Run Memory) (step : Step)
    (blamed : BlamesSteps state.2.failures) :
    BlamesSteps (takeStep service limit ruleName state step).2.failures := by
  have recorded : ∀ (run : Run Memory) (error : Error), BlamesSteps run.failures → BlamesSteps
      (run.record (.new ruleName (some step.className) (some step.variableName) error)).failures :=
    fun run error before => List.forall_mem_append.2 ⟨before, by simp [Failure.new]⟩
  unfold takeStep
  cases step.query with
  | error error => exact recorded state.2 error blamed
  | ok query =>
    dsimp only [ask]
    cases (service.answer limit query state.2.memory).1 with
    | ok rows => exact blamed
    | error error => exact recorded _ error blamed

theorem blamesSteps_foldl_takeRule (settings : Settings) (service : Service Memory)
    (rules : List Rule) (state : List Outcome × Run Memory)
    (blamed : BlamesSteps state.2.failures) :
    BlamesSteps (rules.foldl (takeRule settings service) state).2.failures := by
  induction rules generalizing state with
  | nil => exact blamed
  | cons rule rest inductionHypothesis =>
    apply inductionHypothesis
    have start : BlamesSteps ((∅ : Found), state.2).2.failures := blamed
    exact List.foldlRecOn (motive := fun taken => BlamesSteps taken.2.failures)
      (rule.steps settings.space) _ start fun taken stillBlamed step _ =>
        blamesSteps_takeStep service settings.limit rule.name taken step stillBlamed

/-! ## Stores without memory -/

theorem takeStep_service (store : Store) (limit : Option Duration) (ruleName : String)
    (found : Found) (run : Run Unit) (step : Step) :
    takeStep store.service limit ruleName (found, run) step =
      ((step.rows store limit).foldl absorb found,
        ⟨(), run.asked ++ step.query.toOption.toList,
          run.failures ++ (step.failure? store limit ruleName).toList⟩) := by
  unfold takeStep Step.rows Step.failure? Step.answer
  cases step.query with
  | error error => simp [record, Except.bind, Except.toOption]
  | ok query =>
    simp only [ask, Store.service, Except.bind]
    cases store.answer limit query <;> simp [record, Except.toOption]

theorem foldl_takeStep_service (store : Store) (limit : Option Duration) (ruleName : String)
    (steps : List Step) (found : Found) (run : Run Unit) :
    steps.foldl (takeStep store.service limit ruleName) (found, run) =
      ((steps.flatMap (Step.rows store limit)).foldl absorb found,
        ⟨(), run.asked ++ steps.filterMap fun step => step.query.toOption,
          run.failures ++ steps.filterMap (Step.failure? store limit ruleName)⟩) := by
  induction steps generalizing found run with
  | nil => simp
  | cons step rest inductionHypothesis =>
    rw [List.foldl_cons, takeStep_service, inductionHypothesis, List.flatMap_cons,
      List.foldl_append]
    cases isQuery : step.query.toOption <;>
      cases fails : step.failure? store limit ruleName <;> simp [isQuery, fails]

theorem foldl_takeRule_service (settings : Settings) (store : Store) (rules : List Rule)
    (outcomes : List Outcome) (run : Run Unit) :
    rules.foldl (takeRule settings store.service) (outcomes, run) =
      (outcomes ++ rules.map (Rule.outcome settings store),
        ⟨(), run.asked ++ rules.flatMap (Rule.queries settings.space),
          run.failures ++ rules.flatMap (Rule.failures settings store)⟩) := by
  induction rules generalizing outcomes run with
  | nil => simp
  | cons rule rest inductionHypothesis =>
    have taken : takeRule settings store.service (outcomes, run) rule =
        (outcomes ++ [rule.outcome settings store],
          ⟨(), run.asked ++ rule.queries settings.space,
            run.failures ++ rule.failures settings store⟩) := by
      rw [takeRule, foldl_takeStep_service]
      rfl
    rw [List.foldl_cons, taken, inductionHypothesis]
    simp

theorem ofDocument_service (settings : Settings) (store : Store) (document : RuleDocument) :
    ofDocument settings store.service () document =
      Evaluation.ofDocument settings store document := by
  rw [ofDocument, foldl_takeRule_service]
  rfl

end Run

/-! ## What a check counts -/

theorem Rule.length_steps (space : Namespace) (rule : Rule) :
    (rule.steps space).length = rule.applicability.length * rule.definitions.length := by
  simp [Rule.steps, List.length_flatMap]

namespace RuleDocument

/-- The queries that compile, in the order of the steps, are those of the rules. -/
theorem queries_steps (space : Namespace) (document : RuleDocument) :
    (document.steps space).filterMap (fun entry => entry.2.query.toOption) =
      document.book.rules.flatMap (Rule.queries space) := by
  rw [steps, List.filterMap_flatMap]
  simp only [List.filterMap_map]
  rfl

/-- Every step either compiles or is a problem. -/
theorem compiled_add_problems (entries : List (String × Step)) :
    (entries.filterMap fun entry => entry.2.query.toOption).length +
      (entries.filterMap Problem.ofStep?).length = entries.length := by
  induction entries with
  | nil => rfl
  | cons entry rest inductionHypothesis =>
    cases isQuery : entry.2.query with
    | ok query =>
      have asks : entry.2.query.toOption = some query := by rw [isQuery]; rfl
      have isNone : Problem.ofStep? entry = none := by rw [Problem.ofStep?, isQuery]
      simp only [List.filterMap_cons, asks, isNone, List.length_cons]
      omega
    | error error =>
      have asksNothing : entry.2.query.toOption = none := by rw [isQuery]; rfl
      obtain ⟨problem, isProblem⟩ : ∃ problem, Problem.ofStep? entry = some problem := by
        rw [Problem.ofStep?, isQuery]
        exact ⟨_, rfl⟩
      simp only [List.filterMap_cons, asksNothing, isProblem, List.length_cons]
      omega

/-- A step for each class and each definition of every rule that can be used. -/
def stepCount (document : RuleDocument) : Nat :=
  document.book.rules.foldr
    (fun rule count => rule.applicability.length * rule.definitions.length + count) 0

theorem length_steps (space : Namespace) (document : RuleDocument) :
    (document.steps space).length = document.stepCount := by
  unfold steps stepCount
  induction document.book.rules with
  | nil => rfl
  | cons rule rest inductionHypothesis =>
    rw [List.flatMap_cons, List.length_append, List.length_map, Rule.length_steps,
      inductionHypothesis, List.foldr_cons]

theorem size_of_addEntries {entries : List (String × Json)} {document result : RuleDocument}
    (added : addEntries document entries = .ok result) :
    result.book.size + result.rejected.length =
      document.book.size + document.rejected.length + entries.length := by
  induction entries generalizing document with
  | nil =>
    obtain rfl := Except.ok.inj added
    rfl
  | cons entry rest inductionHypothesis =>
    rw [addEntries] at added
    obtain ⟨read, -, added⟩ := bind_eq_ok.1 added
    cases read with
    | ok rule =>
      obtain ⟨book, inserted, added⟩ := bind_eq_ok.1 added
      have larger : book.size = document.book.size + 1 := by
        rw [RuleBook.size, rules_of_insert inserted, List.length_append]
        rfl
      have sized := inductionHypothesis added
      simp only [larger, List.length_cons] at sized ⊢
      omega
    | error refusal =>
      have sized := inductionHypothesis added
      simp only [List.length_append, List.length_cons, List.length_nil] at sized ⊢
      omega

/-- Each entry of a document is a rule that can be used or one that is refused. -/
theorem size_of_ofJson {value : Json} {document : RuleDocument}
    (read : ofJson value = .ok document) :
    ∃ entries, value = .object entries ∧
      document.book.size + document.rejected.length = entries.length := by
  unfold ofJson at read
  split at read
  next entries =>
    refine ⟨entries, rfl, ?_⟩
    rw [size_of_addEntries read]
    exact Nat.zero_add _
  next => contradiction

end RuleDocument

/-! ## Problems and failures -/

/-- The problem that tells of a failure: the text of its error, and for a step also its class and
its variable. -/
def Failure.problem (failure : Failure) : Problem :=
  match failure.className, failure.variableName with
  | some className, some variableName =>
    ⟨failure.ruleName, "class " ++ className ++ ", variable " ++ variableName ++ ": "
      ++ failure.error.message⟩
  | _, _ => ⟨failure.ruleName, failure.error.message⟩

/-- A graph that is given time answers every query, so a step fails there only when it has none. -/
theorem failure?_graph (graph : Graph) (ruleName : String) (step : Step) :
    (step.failure? graph.store none ruleName).map Failure.problem =
      Problem.ofStep? (ruleName, step) := by
  unfold Step.failure? Step.answer Problem.ofStep?
  cases step.query with
  | ok query => rfl
  | error error => rfl

theorem problems_steps (settings : Settings) (graph : Graph) (forever : settings.limit = none)
    (document : RuleDocument) :
    (document.steps settings.space).filterMap Problem.ofStep? =
      (document.book.rules.flatMap (Rule.failures settings graph.store)).map Failure.problem := by
  rw [RuleDocument.steps, List.filterMap_flatMap, List.map_flatMap]
  congr 1
  funext rule
  rw [List.filterMap_map, Rule.failures, forever, List.map_filterMap]
  congr 1
  funext step
  exact (failure?_graph graph rule.name step).symm

/-! ## Agreement -/

/-- What checking a document says about evaluating it. -/
structure ChecksAsEvaluated (settings : Settings) (value : Json) (document : RuleDocument) :
    Prop where
  /-- Taken step by step over a store without memory, the document is evaluated as described. -/
  evaluation : ∀ store : Store, Run.ofDocument settings store.service () document =
    Evaluation.ofDocument settings store document
  /-- Over a graph, and with no limit of time, the failures are the problems, in their order. -/
  problems : settings.limit = none → ∀ graph : Graph,
    (Summary.ofDocument settings.space document).problems =
      (Run.ofDocument settings graph.store.service () document).failures.map Failure.problem
  clean : settings.limit = none → ∀ graph : Graph,
    ((Summary.ofDocument settings.space document).isOk = true ↔
      (Run.ofDocument settings graph.store.service () document).isClean = true)
  /-- The first failures are those of refused rules, all others are those of steps. -/
  refused : ∀ {Memory : Type} (service : Service Memory) (memory : Memory), ∃ failures,
    (Run.ofDocument settings service memory document).failures =
      document.rejected.map Failure.ofRejection ++ failures ∧
    Run.BlamesSteps failures
  /-- Whatever store it is, the queries put to it are those that compile. -/
  asked : ∀ {Memory : Type} (service : Service Memory) (memory : Memory),
    (Run.ofDocument settings service memory document).asked =
      (document.steps settings.space).filterMap (fun entry => entry.2.query.toOption) ∧
    (Summary.ofDocument settings.space document).compiled =
      (Run.ofDocument settings service memory document).asked.length
  outcomes : ∀ {Memory : Type} (service : Service Memory) (memory : Memory),
    (Summary.ofDocument settings.space document).rules =
      (Run.ofDocument settings service memory document).outcomes.length + document.rejected.length
  entries : ∃ entries, value = .object entries ∧
    (Summary.ofDocument settings.space document).rules = entries.length
  /-- Behind the problems of refused rules there are those of the steps without a query. -/
  steps : ∃ problems,
    (Summary.ofDocument settings.space document).problems =
      document.rejected.map Problem.ofRejection ++ problems ∧
    (Summary.ofDocument settings.space document).compiled + problems.length = document.stepCount

theorem checksAsEvaluated (settings : Settings) {value : Json} {document : RuleDocument}
    (read : RuleDocument.ofJson value = .ok document) :
    ChecksAsEvaluated settings value document := by
  have same : settings.limit = none → ∀ graph : Graph,
      (Summary.ofDocument settings.space document).problems =
        (Run.ofDocument settings graph.store.service () document).failures.map
          Failure.problem := by
    intro forever graph
    rw [Run.ofDocument_service, Summary.ofDocument, Evaluation.ofDocument, List.map_append,
      problems_steps settings graph forever, List.map_map]
    rfl
  have asked : ∀ {Memory : Type} (service : Service Memory) (memory : Memory),
      (Run.ofDocument settings service memory document).asked =
        (document.steps settings.space).filterMap fun entry => entry.2.query.toOption := by
    intro Memory service memory
    rw [RuleDocument.queries_steps]
    exact (Run.foldl_takeRule settings service document.book.rules ([], .start memory)).2
  refine
    { evaluation := fun store => Run.ofDocument_service settings store document
      problems := same
      clean := fun forever graph => ?_
      refused := fun service memory => ⟨_, rfl, ?_⟩
      asked := fun service memory => ⟨asked service memory, ?_⟩
      outcomes := fun service memory => ?_
      entries := RuleDocument.size_of_ofJson read
      steps := ⟨_, rfl, ?_⟩ }
  · rw [Summary.isOk, Evaluation.isClean, same forever graph, List.isEmpty_map]
  · exact Run.blamesSteps_foldl_takeRule settings service document.book.rules ([], .start memory)
      (by simp [Run.BlamesSteps, Run.start])
  · rw [asked service memory, Summary.ofDocument]
  · have outcomes :=
      (Run.foldl_takeRule settings service document.book.rules ([], .start memory)).1
    rw [List.length_nil, Nat.zero_add] at outcomes
    exact congrArg (· + document.rejected.length) outcomes.symm
  · rw [← RuleDocument.length_steps settings.space]
    exact RuleDocument.compiled_add_problems (document.steps settings.space)

/-- One rule that can be used, a class of which is none, and one with a relation that is none. -/
def unevenDocument : Json :=
  .object
    [("Flow", .object
      [("applicability", .array [.string "VAV", .string "not a class"]),
        ("definitions", .object [("flow", .string "Flow_Sensor")])]),
      ("Typo", .object
        [("applicability", .array [.string "VAV"]),
          ("definitions", .object [("flow", .object [("hasPont", .string "Flow_Sensor")])])])]

theorem checksAsEvaluated_of_unevenDocument :
    ∃ document, RuleDocument.ofJson unevenDocument = .ok document ∧
      (Summary.ofDocument Settings.default.space document).problems =
        [⟨"Typo", "unknown relationship `hasPont` at definitions.flow"⟩,
          ⟨"Flow", "class not a class, variable flow: " ++
            "malformed identifier `not a class` at applicability"⟩] ∧
      ((Run.ofDocument .default Graph.empty.store.service () document).failures.map fun failure =>
          (failure.ruleName, failure.className, failure.variableName)) =
        [("Typo", none, some "flow"), ("Flow", some "not a class", some "flow")] ∧
      ChecksAsEvaluated .default unevenDocument document :=
  ⟨_, rfl, rfl, rfl, checksAsEvaluated .default rfl⟩

end BuildingRules
