import BuildingRules.Json.Reader
import BuildingRules.Report

/-!
# JSON forms

How the library's values are written as JSON, and how settings are read back. A term is its written
form, so maps keyed by terms become objects; where two terms are written alike, the later one
stays.
-/

set_option autoImplicit false

namespace BuildingRules

/-! ## Writing -/

def Term.toJson (term : Term) : Json := .string term.display

def Binding.toJson (binding : Binding) : Json :=
  .ofEntries (binding.toList.map fun entry => (entry.1, entry.2.toJson))

def Outcome.toJson (outcome : Outcome) : Json :=
  .object
    [("rule", .string outcome.ruleName), ("rule_iri", .string outcome.ruleIri),
      ("instances",
        .ofEntries (outcome.instances.toList.map fun entry => (entry.1.display, entry.2.toJson))),
      ("discarded", .ofNat outcome.discarded)]

def Diagnostic.toJson (diagnostic : Diagnostic) : Json :=
  .object
    [("focus_node", diagnostic.focus.toJson), ("failed_shape", diagnostic.failedShape.toJson),
      ("reason", .string diagnostic.reason)]

def Grouping.toJson (grouping : Grouping) : Json :=
  .ofEntries (grouping.shapes.map fun shape =>
    (shape.display, .ofEntries ((grouping.foci shape).map fun focus =>
      (focus.display, .array ((grouping.reasons shape focus).map .string)))))

def Details.toJson : Details → Json
  | .found binding => binding.toJson
  | .failed reasons => .array (reasons.map .string)

def Record.toJson (record : Record) : Json :=
  .object
    [("rule", .string record.rule), ("focus_node", record.focus.toJson),
      ("details", record.details.toJson), ("success", .bool record.isSuccess)]

def Report.toJson (report : Report) : Json :=
  .object [("results", .array (report.records.map Record.toJson))]

def Json.ofName? : Option String → Json
  | some name => .string name
  | none => .null

def Failure.toJson (failure : Failure) : Json :=
  .object
    [("rule", .string failure.ruleName), ("class", .ofName? failure.className),
      ("variable", .ofName? failure.variableName),
      ("category", .string failure.error.category.name),
      ("message", .string failure.error.message)]

def Duration.toJson (duration : Duration) : Json :=
  .object [("secs", .ofNat duration.seconds), ("nanos", .ofNat duration.subsecond)]

def Settings.toJson (settings : Settings) : Json :=
  .object
    [("namespace", .string settings.space.base), ("rule_prefix", .string settings.ruleBase),
      ("query_timeout",
        match settings.limit with
        | some limit => limit.toJson
        | none => .null)]

/-! ## Reading -/

namespace Json

def text? : Json → Option String
  | .string text => some text
  | _ => none

def natBelow? (bound : Nat) : Json → Option Nat
  | .number (.integer value) =>
    if 0 ≤ value && value < bound then some value.toNat else none
  | _ => none

def occurrences (key : String) (entries : List (String × Json)) : Nat :=
  (entries.filter (·.1 == key)).length

/-- The fields of a record, in the order of their names. The record is an object in which no field
is repeated, or an array of at most as many values, in the order of the names. -/
def fields? (names : List String) : Json → Option (List (Option Json))
  | .object entries =>
    if names.any fun name => 1 < occurrences name entries then none
    else some (names.map fun name => find? name entries)
  | .array items =>
    if items.length ≤ names.length then
      some (items.map some ++ List.replicate (names.length - items.length) none)
    else none
  | _ => none

def hasOnly (names : List String) : Json → Bool
  | .object entries => entries.all fun entry => names.contains entry.1
  | _ => true

def fieldOr? {Value : Type} (fallback : Value) (read : Json → Option Value) :
    Option Json → Option Value
  | some value => read value
  | none => some fallback

end Json

def Term.ofJson? (value : Json) : Option Term := do
  let text ← value.text?
  (Term.ofText text).toOption

def Namespace.ofJson? (value : Json) : Option Namespace := value.text?.map Namespace.mk

/-- The category that a string names, also when it is the only key of an object without a value. -/
def Category.ofJson? : Json → Option Category
  | .string name => Category.ofName? name
  | .object [(name, .null)] => Category.ofName? name
  | _ => none

/-- A map from terms to numbers below a bound; where two keys write the same term, the later one
stays. -/
def Term.countsOfJson? (bound : Nat) : Json → Option (Std.ExtTreeMap Term Nat compare)
  | .object entries =>
    entries.foldlM (fun counts entry => do
      let term ← (Term.ofText entry.1).toOption
      let count ← entry.2.natBelow? bound
      some (counts.insert term count)) ∅
  | _ => none

def Term.countsToJson (counts : Std.ExtTreeMap Term Nat compare) : Json :=
  .ofEntries (counts.toList.map fun entry => (entry.1.display, .ofNat entry.2))

/-- The duration of an object with seconds and nanoseconds and nothing else, as long as its whole
seconds have 64 bits. -/
def Duration.ofJson? (value : Json) : Option Duration := do
  let names := ["secs", "nanos"]
  if !value.hasOnly names then none
  match ← value.fields? names with
  | [some seconds, some nanoseconds] =>
    let seconds ← seconds.natBelow? (Nat.pow 2 64)
    let nanoseconds ← nanoseconds.natBelow? (Nat.pow 2 32)
    let duration := Duration.ofParts seconds nanoseconds
    if duration.seconds < Nat.pow 2 64 then some duration else none
  | _ => none

def Duration.limitOfJson? : Json → Option (Option Duration)
  | .null => some none
  | value => (Duration.ofJson? value).map some

def Settings.fieldNames : List String := ["namespace", "rule_prefix", "query_timeout"]

/-- The settings of a record; missing fields have the default and unknown ones are passed over. -/
def Settings.ofText? (text : String) : Option Settings := do
  match ← (← Json.readRecord? fieldNames text).fields? fieldNames with
  | [space, base, limit] =>
    let space ← Json.fieldOr? Settings.default.space Namespace.ofJson? space
    let base ← Json.fieldOr? Settings.default.ruleBase Json.text? base
    let limit ← Json.fieldOr? Settings.default.limit Duration.limitOfJson? limit
    some ⟨space, base, limit⟩
  | _ => none

def Depth.fieldNames : List String := ["max_depth"]

/-- The depth of a record; missing, it has the default, and unknown fields are passed over. -/
def Depth.ofText? (text : String) : Option Nat := do
  match ← (← Json.readRecord? fieldNames text).fields? fieldNames with
  | [depth] => Json.fieldOr? Depth.default (Json.natBelow? (Nat.pow 2 64)) depth
  | _ => none

def Depth.toJson (depth : Nat) : Json := .object [("max_depth", .ofNat depth)]

end BuildingRules
