import BuildingRules.Check
import BuildingRules.Json.Forms
import BuildingRules.Json.Printer
import BuildingRules.NTriples.Model
import BuildingRules.Text.Decimal

/-!
# The command line

Arguments are read from left to right; the first that makes no sense ends the run. A command reads
its files through a function, so that a run is a function of the arguments and the files. What is
wrong with a text that is no JSON is told by another function, `complaint`.
-/

set_option autoImplicit false

namespace BuildingRules.CommandLine

/-! ## Arguments -/

inductive Command
  | check
  | compile
  | evaluate
  deriving DecidableEq, Repr

def Command.ofWord? : String → Option Command
  | "check" => some .check
  | "compile" => some .compile
  | "evaluate" => some .evaluate
  | _ => none

inductive Setting
  | space
  | ruleBase
  | limit
  deriving DecidableEq, Repr

def Setting.ofWord? : String → Option Setting
  | "--namespace" => some .space
  | "--rule-prefix" => some .ruleBase
  | "--timeout-ms" => some .limit
  | _ => none

structure Request where
  command : Option Command
  files : List String
  settings : Settings
  json : Bool
  help : Bool
  version : Bool
  deriving Repr

def Request.none : Request := ⟨.none, [], .default, false, false, false⟩

/-- A natural number of 64 bits in decimal digits, which a plus sign may precede. -/
def word64? (text : String) : Option Nat :=
  let digits :=
    match text.toList with
    | '+' :: rest => rest
    | characters => characters
  if digits.isEmpty || !digits.all Char.isDigit then none
  else
    let value := Text.decimalNumber digits
    if value < Nat.pow 2 64 then some value else none

def Request.set (request : Request) (value : String) : Setting → Except String Request
  | .space => .ok { request with settings := { request.settings with space := ⟨value⟩ } }
  | .ruleBase => .ok { request with settings := { request.settings with ruleBase := value } }
  | .limit =>
    match word64? value with
    | some millis =>
      .ok { request with settings := { request.settings with limit := some (.ofMillis millis) } }
    | .none => .error ("invalid --timeout-ms value: " ++ value)

def Request.switch? (request : Request) : String → Option Request
  | "-h" | "--help" => some { request with help := true }
  | "-V" | "--version" => some { request with version := true }
  | "-v" | "--verbose" => some request
  | "--json" => some { request with json := true }
  | _ => .none

/-- The request with a word that is no option: the command, or a file once there is a command. -/
def Request.addWord (request : Request) (word : String) : Except String Request :=
  match request.command, Command.ofWord? word with
  | some _, _ => .ok { request with files := request.files ++ [word] }
  | .none, some command => .ok { request with command := some command }
  | .none, .none => .error ("unknown command: " ++ word)

def Request.read (request : Request) : List String → Except String Request
  | [] => .ok request
  | word :: rest =>
    match request.switch? word with
    | some switched => switched.read rest
    | .none =>
      match Setting.ofWord? word with
      | some setting =>
        match rest with
        | [] => .error (word ++ " requires a value")
        | value :: rest => do (← request.set value setting).read rest
      | .none =>
        if word.toList.head? == some '-' then .error ("unknown option: " ++ word)
        else do (← request.addWord word).read rest

/-! ## Output -/

structure Output where
  succeeded : Bool
  stdout : String
  stderr : String
  deriving DecidableEq, Repr

def bold (text : String) : String := "\x1b[1m" ++ text ++ "\x1b[0m"

def yellow (text : String) : String := "\x1b[33m" ++ text ++ "\x1b[0m"

def red (text : String) : String := "\x1b[31m" ++ text ++ "\x1b[0m"

def unlines (lines : List String) : String := String.join (lines.map (· ++ "\n"))

def Output.failure (message : String) : Output := ⟨false, "", unlines [red ("Error: " ++ message)]⟩

def helpText : String :=
  unlines
    [bold "brickrules" ++ " - Building-model rule compiler and evaluator",
      "",
      bold "USAGE:",
      "    brickrules <COMMAND> [OPTIONS] <FILES...>",
      "",
      bold "COMMANDS:",
      "    check <rules.json>                 Compile every rule and report problems",
      "    compile <rules.json>               Print each compiled query",
      "    evaluate <rules.json> <model.nt>   Apply rules to an N-Triples model",
      "",
      bold "OPTIONS:",
      "    -h, --help             Print help information",
      "    -V, --version          Print version information",
      "    -v, --verbose          Enable debug logging (RUST_LOG overrides)",
      "    --namespace IRI        Namespace for class and relationship names",
      "    --rule-prefix PREFIX   Prefix for rule IRIs (default urn:rules_manifest/)",
      "    --timeout-ms N         Per-query time limit",
      "    --json                 Print evaluation results as JSON",
      "",
      bold "EXAMPLES:",
      "    brickrules check rules.json",
      "    brickrules compile --namespace https://brickschema.org/schema/Brick# rules.json",
      "    brickrules evaluate --json rules.json building.nt"]

def versionText : String := unlines ["brickrules 0.1.0"]

/-! ## Commands -/

inductive FileFault
  | missing
  | denied
  | directory
  | notDirectory
  | nameTooLong
  | notText
  | other (reason : String)
  deriving DecidableEq, Repr

def FileFault.message : FileFault → String
  | .missing => "No such file or directory (os error 2)"
  | .denied => "Permission denied (os error 13)"
  | .directory => "Is a directory (os error 21)"
  | .notDirectory => "Not a directory (os error 20)"
  | .nameTooLong => "File name too long (os error 36)"
  | .notText => "stream did not contain valid UTF-8"
  | .other reason => reason

/-- The texts of the files that can be read; for others, why not. -/
abbrev Files := String → Except FileFault String

def readFile (files : Files) (path : String) : Except Error String :=
  match files path with
  | .ok text => .ok text
  | .error fault =>
    .error (.of (.unreadable ("failed to read " ++ path ++ ": " ++ fault.message)))

def readRules (complaint : String → String) (files : Files) (path : String) :
    Except Error RuleDocument := do
  RuleDocument.ofText complaint (← readFile files path)

def check (settings : Settings) (document : RuleDocument) : Output :=
  let summary := Summary.ofDocument settings.space document
  let head := Nat.repr summary.rules ++ " rules, " ++ Nat.repr summary.compiled
    ++ " queries compiled, " ++ Nat.repr summary.problems.length ++ " problems"
  let lines := summary.problems.map fun problem =>
    "  " ++ yellow problem.ruleName ++ ": " ++ problem.message
  ⟨summary.isOk, unlines (head :: lines), ""⟩

def stepLines (ruleName : String) (step : Step) : List String :=
  [bold ("# " ++ ruleName ++ " / " ++ step.className ++ " / " ++ step.variableName),
    match step.query with
    | .ok query => query.text
    | .error error => "# error: " ++ error.message,
    ""]

def compile (settings : Settings) (document : RuleDocument) : Output :=
  let steps := document.steps settings.space
  let refusals := document.rejected.map fun rejection =>
    yellow rejection.ruleName ++ ": " ++ rejection.error.message
  ⟨true, unlines (steps.flatMap fun entry => stepLines entry.1 entry.2), unlines refusals⟩

def evaluationJson (report : Report) (failures : List Failure) : Json :=
  .object [("results", report.toJson), ("errors", .array (failures.map Failure.toJson))]

def evaluate (settings : Settings) (json : Bool) (document : RuleDocument) (model : Graph) :
    Output :=
  let evaluation := Evaluation.ofDocument settings model.store document
  let report := Report.build evaluation.outcomes .empty
  if json then ⟨true, unlines [(evaluationJson report evaluation.failures).pretty], ""⟩
  else
    ⟨true, report.markdown,
      unlines (evaluation.failures.map fun failure =>
        yellow "warning:" ++ " " ++ failure.display)⟩

def Output.ofResult : Except Error Output → Output
  | .ok output => output
  | .error error => .failure error.message

def perform (complaint : String → String) (files : Files) (request : Request) : Output :=
  if request.help then ⟨true, helpText, ""⟩
  else if request.version then ⟨true, versionText, ""⟩
  else
    match request.command, request.files with
    | some .check, [rules] => .ofResult do
      let document ← readRules complaint files rules
      .ok (check request.settings document)
    | some .compile, [rules] => .ofResult do
      let document ← readRules complaint files rules
      .ok (compile request.settings document)
    | some .evaluate, [rules, model] => .ofResult do
      let document ← readRules complaint files rules
      let graph ← NTriples.model (← readFile files model)
      .ok (evaluate request.settings request.json document graph)
    | .none, _ => ⟨false, helpText, ""⟩
    | some .evaluate, _ => .failure "evaluate expects <rules.json> <model.nt>"
    | some _, _ => .failure "expected exactly one rule document"

def run (complaint : String → String) (files : Files) (arguments : List String) : Output :=
  match Request.none.read arguments with
  | .ok request => perform complaint files request
  | .error message => .failure message

end BuildingRules.CommandLine
