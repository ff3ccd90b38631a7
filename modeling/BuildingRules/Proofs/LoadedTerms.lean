import BuildingRules.Json.Forms
import BuildingRules.Proofs.SatisfiedRules
import BuildingRules.Proofs.SettledValues
import BuildingRules.Proofs.TripleLines
import BuildingRules.Proofs.WrittenTerms

/-!
# Writing the terms of a loaded model

A model lets through IRIs that are written like a blank node or a literal. Apart from these its
terms are written apart and read back. The equipment of an outcome is all there in the outcome's
written form unless one of them is an IRI that is written like another that is a blank node:
`writesLoaded`.
-/

set_option autoImplicit false

namespace BuildingRules

/-! ## Terms of a graph -/

namespace Graph

/-- The term is the subject, the predicate or the object of a triple. -/
def Mentions (graph : Graph) (term : Term) : Prop :=
  ∃ triple ∈ graph.triples,
    term = triple.subject ∨ term = .iri triple.predicate ∨ term = triple.object

/-- Different terms are written differently, and each is read back as it was. -/
structure WritesApart (graph : Graph) : Prop where
  distinct : ∀ left right, graph.Mentions left → graph.Mentions right →
    left.display = right.display → left = right
  readBack : ∀ term, graph.Mentions term → Term.ofText term.display = .ok term

theorem mentions_of_typing {graph : Graph} {subject : Term} {className : Iri}
    (typed : typing subject className ∈ graph.triples) : graph.Mentions subject :=
  ⟨_, typed, .inl rfl⟩

end Graph

namespace NTriples

/-- As the grammar has them, blank nodes have a label and IRIs hold something and no blanks. -/
theorem TermAt.ofText_display_iff {text rest : List Char} {term : Term}
    (isTerm : TermAt text term rest) :
    Term.ofText term.display = .ok term ↔ ∀ name, term = .iri name → ¬name.Mistakable := by
  cases isTerm with
  | @iri body _ isBody =>
    obtain ⟨notEmpty, within⟩ := isBody
    have hasText : String.ofList body ≠ "" := by simpa using notEmpty
    have noBlank : ∀ character ∈ (String.ofList body).toList,
        Text.isBlank character = false := by
      rw [String.toList_ofList]
      exact fun character member => (within character member).2
    refine (@Term.ofText_iri_iff ⟨String.ofList body⟩).trans ?_
    simp only [hasText, ne_eq, not_false_eq_true, true_and, Term.iri.injEq]
    constructor
    · rintro ⟨-, notMistakable⟩ name rfl
      exact notMistakable
    · exact fun notMistakable => ⟨noBlank, notMistakable _ rfl⟩
  | @blank label _ isLabel =>
    have hasLabel : String.ofList label ≠ "" := by simpa using isLabel.1.1
    exact iff_of_true (Term.ofText_display_blank hasLabel) nofun
  | literal _ _ => exact iff_of_true (Term.ofText_display_literal _) nofun

variable {text : String} {graph : Graph}

theorem exists_termAt_of_mentions (loaded : model text = .ok graph) {term : Term}
    (mentioned : graph.Mentions term) : ∃ start rest, TermAt start term rest := by
  obtain ⟨triple, member, isPart⟩ := mentioned
  obtain ⟨line, -, isTriple⟩ := (((readsModel text).loaded graph).1 loaded).2 triple |>.1 member
  cases isTriple with
  | mk _ isSubject _ _ isPredicate _ isObject =>
    rcases isPart with rfl | rfl | rfl
    · exact ⟨_, _, isSubject⟩
    · exact ⟨_, _, isPredicate⟩
    · exact ⟨_, _, isObject⟩

theorem isResource_of_loaded (loaded : model text = .ok graph) {triple : Triple}
    (member : triple ∈ graph.triples) : triple.subject.isResource = true := by
  obtain ⟨line, -, isTriple⟩ := (((readsModel text).loaded graph).1 loaded).2 triple |>.1 member
  cases isTriple with
  | mk _ _ isResource => exact isResource

theorem ofText_display_iff_of_mentions (loaded : model text = .ok graph) {term : Term}
    (mentioned : graph.Mentions term) :
    Term.ofText term.display = .ok term ↔ ∀ name, term = .iri name → ¬name.Mistakable := by
  obtain ⟨start, rest, isTerm⟩ := exists_termAt_of_mentions loaded mentioned
  exact isTerm.ofText_display_iff

theorem writesApart_iff (loaded : model text = .ok graph) :
    graph.WritesApart ↔ ∀ name, graph.Mentions (.iri name) → ¬name.Mistakable := by
  constructor
  · intro apart name mentioned
    exact (ofText_display_iff_of_mentions loaded mentioned).1 (apart.readBack _ mentioned) name rfl
  · intro notMistakable
    have readBack : ∀ term, graph.Mentions term → Term.ofText term.display = .ok term := by
      intro term mentioned
      refine (ofText_display_iff_of_mentions loaded mentioned).2 ?_
      rintro name rfl
      exact notMistakable name mentioned
    refine ⟨fun left right leftMentioned rightMentioned same => ?_, readBack⟩
    have leftRead := readBack left leftMentioned
    rw [same, readBack right rightMentioned] at leftRead
    exact (Except.ok.inj leftRead).symm

end NTriples

/-! ## Outcomes -/

namespace Outcome

/-- Under the instances there is one entry for each of them, with its binding. -/
def WritesAll (outcome : Outcome) : Prop :=
  outcome.toJson = .object
    [("rule", .string outcome.ruleName), ("rule_iri", .string outcome.ruleIri),
      ("instances",
        .object (outcome.instances.toList.map fun entry => (entry.1.display, entry.2.toJson))),
      ("discarded", .ofNat outcome.discarded)]

theorem writesAll_iff {outcome : Outcome} :
    outcome.WritesAll ↔ ∀ left right, left ∈ outcome.instances → right ∈ outcome.instances →
      left.display = right.display → left = right := by
  have keys : (outcome.instances.toList.map fun entry =>
      (entry.1.display, entry.2.toJson)).map Prod.fst =
        outcome.instances.keys.map Term.display := by
    rw [← Std.ExtTreeMap.map_fst_toList_eq_keys, List.map_map, List.map_map]
    rfl
  have distinctKeys : outcome.instances.keys.Nodup :=
    Std.ExtTreeMap.distinct_keys.imp fun different same =>
      different (Std.LawfulEqCmp.compare_eq_iff_eq.2 same)
  have settled : outcome.WritesAll ↔ (outcome.instances.keys.map Term.display).Nodup := by
    rw [← keys, ← Json.distinctEntries_eq_self_iff]
    simp [WritesAll, toJson, Json.ofEntries]
  rw [settled]
  constructor
  · intro distinct left right isLeft isRight
    exact List.inj_on_of_nodup_map distinct (Std.ExtTreeMap.mem_keys.2 isLeft)
      (Std.ExtTreeMap.mem_keys.2 isRight)
  · intro apart
    exact List.Nodup.map_on (fun left isLeft right isRight =>
      apart left right (Std.ExtTreeMap.mem_keys.1 isLeft) (Std.ExtTreeMap.mem_keys.1 isRight))
      distinctKeys

end Outcome

theorem Term.exists_blank {term : Term} (isResource : term.isResource = true)
    (notIri : term.iri? = none) : ∃ label, term = .blank label := by
  cases term with
  | iri name => contradiction
  | blank label => exact ⟨label, rfl⟩
  | literal text => contradiction

namespace Graph

variable {graph : Graph}

theorem eq_solutions_of_answer {limit : Option Duration} {query : Query} {rows : List Row}
    (answered : graph.answer limit query = .ok rows) : rows = graph.solutions query := by
  unfold answer at answered
  split at answered
  next =>
    split at answered
    next => exact (Except.ok.inj answered).symm
    next => contradiction
  next => exact (Except.ok.inj answered).symm

/-- Whatever the limit, equipment that satisfies a rule is of a class. -/
theorem exists_typing_of_mem_instances {settings : Settings} {rule : Rule} {equipment : Term}
    (satisfies : equipment ∈ (rule.outcome settings graph.store).instances) :
    ∃ className, typing equipment className ∈ graph.triples := by
  rw [Std.ExtTreeMap.mem_iff_isSome_getElem?, Option.isSome_iff_exists] at satisfies
  obtain ⟨binding, isInstance⟩ := satisfies
  obtain ⟨someRow, -, -⟩ := Rule.getElem?_instances_eq_some.1 isInstance
  obtain ⟨row, listed⟩ := List.exists_mem_of_ne_nil _ someRow
  obtain ⟨inRows, hasRoot⟩ := mem_rowsAbout.1 listed
  obtain ⟨className, -, definition, -, query, rows, compiled, answered, member⟩ :=
    Rule.mem_rows_iff_finds.1 inRows
  rw [eq_solutions_of_answer answered] at member
  obtain ⟨other, value, ⟨resolved, -, typed⟩, -, rfl⟩ :=
    (Query.mem_solutions_iff compiled graph row).1 member
  have notRoot := (Query.compile_eq_ok.1 compiled).1
  rw [Query.getElem?_pairRow notRoot, if_pos rfl] at hasRoot
  obtain rfl := Option.some.inj hasRoot
  exact ⟨resolved, typed⟩

end Graph

/-! ## Loaded models -/

/-- How the terms of a graph and the outcomes of rules over it come out in writing. -/
structure WritesLoaded (graph : Graph) : Prop where
  readBack : ∀ term, graph.Mentions term →
    (Term.ofText term.display = .ok term ↔ ∀ name, term = .iri name → ¬name.Mistakable)
  apart : graph.WritesApart ↔ ∀ name, graph.Mentions (.iri name) → ¬name.Mistakable
  outcomes : ∀ settings book,
    ∀ outcome ∈ (Evaluation.ofBook settings graph.store book).outcomes,
      outcome.WritesAll ↔ ∀ name label, .iri name ∈ outcome.instances →
        .blank label ∈ outcome.instances → name.text ≠ (Term.blank label).display

theorem writesLoaded {text : String} {graph : Graph} (loaded : NTriples.model text = .ok graph) :
    WritesLoaded graph where
  readBack _ := NTriples.ofText_display_iff_of_mentions loaded
  apart := NTriples.writesApart_iff loaded
  outcomes settings book outcome listed := by
    obtain ⟨rule, -, rfl⟩ := List.mem_map.1 listed
    have isResource : ∀ equipment, equipment ∈ (rule.outcome settings graph.store).instances →
        equipment.isResource = true := by
      intro equipment satisfies
      obtain ⟨className, typed⟩ := Graph.exists_typing_of_mem_instances satisfies
      exact NTriples.isResource_of_loaded loaded typed
    rw [Outcome.writesAll_iff]
    constructor
    · intro distinct name label isIri isBlank same
      exact absurd (distinct _ _ isIri isBlank same) nofun
    · intro notWritten left right isLeft isRight same
      rcases Term.display_eq_iff.1 same with equal | ⟨name, rfl, notIri, sameText⟩ |
        ⟨name, rfl, notIri, sameText⟩
      · exact equal
      · obtain ⟨label, rfl⟩ := Term.exists_blank (isResource right isRight) notIri
        exact absurd sameText.symm (notWritten name label isLeft isRight)
      · obtain ⟨label, rfl⟩ := Term.exists_blank (isResource left isLeft) notIri
        exact absurd sameText.symm (notWritten name label isRight isLeft)

/-- Two units. The one is an IRI that is written like the other, a blank node. -/
def twinModel : String :=
  "<_:x> <http://www.w3.org/1999/02/22-rdf-syntax-ns#type> <urn:VAV> .\n"
    ++ "_:x <http://www.w3.org/1999/02/22-rdf-syntax-ns#type> <urn:VAV> ."

def twinSettings : Settings := { Settings.default with space := ⟨"urn:"⟩ }

/-- Each unit feeds itself, in no step. -/
def twinRule : Rule :=
  ((Rule.new "twins").appliesTo "VAV").define "fed" (.related .feeds .zeroOrMore (.leaf "VAV"))

def twinClass : Iri := twinSettings.space.iri "VAV"

def twinGraph : Graph :=
  ⟨(Graph.empty.triples.insert (Graph.typing (.iri ⟨"_:x"⟩) twinClass)).insert
    (Graph.typing (.blank "x") twinClass)⟩

set_option maxRecDepth 20000 in
theorem model_twinModel : NTriples.model twinModel = .ok twinGraph := by
  rfl

theorem not_writesAll_of_twinModel :
    NTriples.model twinModel = .ok twinGraph ∧ ¬twinGraph.WritesApart ∧
      ∃ outcome ∈ (Evaluation.ofBook twinSettings twinGraph.store ⟨[twinRule]⟩).outcomes,
        outcome.size = 2 ∧ ¬outcome.WritesAll := by
  refine ⟨model_twinModel, fun apart => ?_, _, List.mem_singleton_self _, ?_, fun all => ?_⟩
  · have typed : Graph.typing (.iri ⟨"_:x"⟩) twinClass ∈ twinGraph.triples :=
      Graph.contains_iff.1 (by decide +kernel)
    exact absurd (apart.readBack _ (Graph.mentions_of_typing typed)) (by decide)
  · decide +kernel
  · have same := Outcome.writesAll_iff.1 all (.iri ⟨"_:x"⟩) (.blank "x")
      (Std.ExtTreeMap.mem_iff_contains.2 (by decide +kernel))
      (Std.ExtTreeMap.mem_iff_contains.2 (by decide +kernel)) (by decide)
    exact absurd same (by decide)

theorem writesLoaded_of_twinModel :
    NTriples.model twinModel = .ok twinGraph ∧ WritesLoaded twinGraph :=
  ⟨model_twinModel, writesLoaded model_twinModel⟩

end BuildingRules
