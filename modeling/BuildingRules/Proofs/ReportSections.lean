import BuildingRules.Report
import Mathlib.Data.List.Nodup

/-!
# Sections of a report

In a section, a record is under the heading of its rule, which is written again only where the rule
differs from that of the record before. If the records of each rule follow one another, each rule
has one heading, and under it are the records of that rule and no others: `bodyLines_none`, and for
the whole text `markdown_of_clustered`.
-/

set_option autoImplicit false

namespace BuildingRules

/-! ## Clusters -/

section Clusters

variable {Element : Type}

/-- What is listed more than once is so without anything between. -/
inductive Clustered : List Element → Prop
  | nil : Clustered []
  | cons {first : Element} {rest : List Element}
      (together : first ∈ rest → rest.head? = some first) (later : Clustered rest) :
      Clustered (first :: rest)

theorem clustered_append {first : Element} {block rest : List Element}
    (constant : ∀ element ∈ block, element = first) (fresh : first ∉ rest)
    (clustered : Clustered rest) : Clustered (block ++ rest) := by
  induction block with
  | nil => exact clustered
  | cons element others inductionHypothesis =>
    obtain ⟨rfl, constant⟩ := List.forall_mem_cons.1 constant
    refine .cons (fun again => ?_) (inductionHypothesis constant)
    cases others with
    | nil => exact absurd again fresh
    | cons second others => rw [constant second List.mem_cons_self]; rfl

/-- Blocks of one element each make up clusters, if no two blocks have the same element. -/
theorem clustered_flatMap {Outer : Type} {outers : List Outer} {name : Outer → Element}
    {block : Outer → List Element} (distinct : (outers.map name).Nodup)
    (constant : ∀ outer ∈ outers, ∀ element ∈ block outer, element = name outer) :
    Clustered (outers.flatMap block) := by
  induction outers with
  | nil => exact .nil
  | cons outer rest inductionHypothesis =>
    rw [List.map_cons, List.nodup_cons] at distinct
    obtain ⟨constantHere, constantLater⟩ := List.forall_mem_cons.1 constant
    refine clustered_append constantHere (fun again => distinct.1 ?_)
      (inductionHypothesis distinct.2 constantLater)
    obtain ⟨later, inRest, inBlock⟩ := List.mem_flatMap.1 again
    exact List.mem_map.2 ⟨later, inRest, (constantLater later inRest _ inBlock).symm⟩

end Clusters

/-! ## Items -/

/-- The equipment with its binding, or the node with a line of its own for each reason. -/
def Record.item : Record → List String
  | ⟨_, focus, .found binding⟩ => ["- `" ++ focus.display ++ "`: " ++ binding.display]
  | ⟨_, focus, .failed reasons⟩ =>
    ("- `" ++ focus.display ++ "`") :: reasons.map fun reason => "  - " ++ reason

theorem Record.lines_eq_item (record : Record) : record.lines = record.item := by
  obtain ⟨rule, focus, details⟩ := record
  cases details with
  | found binding => simp [lines, item, String.append_assoc]
  | failed reasons => rfl

namespace Report

/-! ## One heading for each rule -/

/-- The rules in the order in which they first occur, each with a heading and the items of all its
records. -/
def groupedLines (records : List Record) : List String :=
  (records.map (·.rule)).eraseDups.flatMap fun rule =>
    ["", "### " ++ rule, ""] ++ (records.filter (·.rule == rule)).flatMap Record.item

theorem groupedLines_cons (record : Record) (rest : List Record) :
    groupedLines (record :: rest) =
      ["", "### " ++ record.rule, ""] ++ record.item ++
        (rest.filter (·.rule == record.rule)).flatMap Record.item ++
        groupedLines (rest.filter (·.rule != record.rule)) := by
  rw [groupedLines, List.map_cons, List.eraseDups_cons, List.flatMap_cons]
  congr 1
  · simp
  · rw [groupedLines, List.filter_map]
    refine List.flatMap_congr fun rule later => ?_
    obtain ⟨other, isOther, rfl⟩ := List.mem_map.1 (List.mem_eraseDups.1 later)
    have different : other.rule ≠ record.rule := by simpa using (List.mem_filter.1 isOther).2
    rw [List.filter_cons_of_neg (by simpa using different.symm), List.filter_filter]
    congr 2
    refine List.filter_congr fun candidate _ => ?_
    by_cases isSame : candidate.rule = other.rule <;> simp [isSame, different]

/-- Behind a record, the others of its rule come first, without another heading. -/
theorem bodyLines_some {rule : String} {records : List Record}
    (clustered : Clustered (records.map (·.rule)))
    (first : rule ∈ records.map (·.rule) → (records.map (·.rule)).head? = some rule) :
    bodyLines (some rule) records =
      (records.filter (·.rule == rule)).flatMap Record.item ++
        groupedLines (records.filter (·.rule != rule)) := by
  induction records generalizing rule with
  | nil => rfl
  | cons record rest inductionHypothesis =>
    cases clustered with
    | cons together later =>
      have behind := inductionHypothesis later together
      by_cases same : record.rule = rule
      · subst same
        rw [bodyLines, behind, Record.lines_eq_item]
        simp
      · have fresh : rule ∉ (record :: rest).map (·.rule) := fun again =>
          same (Option.some.inj (first again))
        have others : ∀ other ∈ record :: rest, other.rule ≠ rule := fun other listed isRule =>
          fresh (List.mem_map.2 ⟨other, listed, isRule⟩)
        rw [List.filter_eq_nil_iff.2 (by simpa using others),
          List.filter_eq_self.2 (by simpa using others), groupedLines_cons, bodyLines, behind,
          Record.lines_eq_item]
        simp [Ne.symm same]

theorem bodyLines_none {records : List Record} (clustered : Clustered (records.map (·.rule))) :
    bodyLines none records = groupedLines records := by
  cases records with
  | nil => rfl
  | cons record rest =>
    cases clustered with
    | cons together later =>
      rw [bodyLines, bodyLines_some later together, groupedLines_cons, Record.lines_eq_item]
      simp

/-! ## The whole text -/

def groupedSection (title : String) (records : List Record) : List String :=
  ["", "## " ++ title] ++ (if records.isEmpty then ["", "None."] else groupedLines records)

/-- The title and both sections, in each of which every rule has one heading. -/
def groupedMarkdown (report : Report) : String :=
  String.join ((["# Rule Application Report"] ++
    groupedSection "Satisfied rules" report.successes ++
    groupedSection "Validation failures" report.failures).map (· ++ "\n"))

theorem markdown_of_clustered {report : Report}
    (successes : Clustered (report.successes.map (·.rule)))
    (failures : Clustered (report.failures.map (·.rule))) :
    report.markdown = report.groupedMarkdown := by
  rw [markdown, lines, sectionLines, sectionLines, bodyLines_none successes,
    bodyLines_none failures]
  rfl

end Report

end BuildingRules
