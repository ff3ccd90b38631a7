import BuildingRules.Evaluation
import BuildingRules.Shape.Grouping

/-!
# Reports

A report lists a record for each equipment that satisfies a rule, and then one for each node that
failed a shape. It is written as a text with a section for either kind.
-/

set_option autoImplicit false

namespace BuildingRules

inductive Details
  | found (binding : Binding)
  | failed (reasons : List String)

structure Record where
  rule : String
  focus : Term
  details : Details

namespace Record

def isSuccess (record : Record) : Bool :=
  match record.details with
  | .found _ => true
  | .failed _ => false

def lines (record : Record) : List String :=
  let head := "- `" ++ record.focus.display ++ "`"
  match record.details with
  | .found binding => [head ++ ": " ++ binding.display]
  | .failed reasons => head :: reasons.map ("  - " ++ ·)

end Record

structure Report where
  records : List Record

namespace Report

def successesOf (outcome : Outcome) : List Record :=
  outcome.instances.toList.map fun entry => ⟨outcome.ruleIri, entry.1, .found entry.2⟩

def failureOf (group : Group) : Record :=
  ⟨group.shape.display, group.focus, .failed group.reasons⟩

def build (outcomes : List Outcome) (grouping : Grouping) : Report :=
  ⟨outcomes.flatMap successesOf ++ grouping.groups.map failureOf⟩

def successes (report : Report) : List Record := report.records.filter (·.isSuccess)

def failures (report : Report) : List Record := report.records.filter (!·.isSuccess)

/-! ## Written form -/

/-- The lines of records, with a heading wherever the rule differs from the one before. -/
def bodyLines : (current : Option String) → List Record → List String
  | _, [] => []
  | current, record :: rest =>
    (if current == some record.rule then [] else ["", "### " ++ record.rule, ""])
      ++ record.lines ++ bodyLines (some record.rule) rest

def sectionLines (title : String) (records : List Record) : List String :=
  ["", "## " ++ title]
    ++ (if records.isEmpty then ["", "None."] else bodyLines none records)

def lines (report : Report) : List String :=
  ["# Rule Application Report"] ++ sectionLines "Satisfied rules" report.successes
    ++ sectionLines "Validation failures" report.failures

def markdown (report : Report) : String := String.join (report.lines.map (· ++ "\n"))

end Report

end BuildingRules
