import BuildingRules.Proofs.FirstDefects
import BuildingRules.Proofs.PatternOrigins

/-!
# Errors of reading and of compiling

Reading a definition and compiling its tree tell the same paths: a node is taken up at the path that
the value was read at which it was made from. So a name that is of no class is reported where
reading would report an error in its stead: `samePlaces`.
-/

set_option autoImplicit false

namespace BuildingRules

namespace Pattern

/-! ## Errors in a part of a document -/

/-- Where other branches are good, an error of one is the error of all. -/
theorem ofBranches_reports {path : String} {index : Nat} {earlier later : List Json} {branch : Json}
    {trees : List Pattern} (read : ofBranches path index (earlier ++ branch :: later) = .ok trees) :
    (∃ tree, ofJson (Path.item path (index + earlier.length)) branch = .ok tree) ∧
      ∀ other error, ofJson (Path.item path (index + earlier.length)) other = .error error →
        ofBranches path index (earlier ++ other :: later) = .error error := by
  induction earlier generalizing index trees with
  | nil =>
    rw [List.nil_append, ofBranches_cons] at read
    obtain ⟨tree, isRead, -⟩ := bind_eq_ok.1 read
    refine ⟨⟨tree, isRead⟩, fun other error fails => ?_⟩
    rw [List.nil_append, ofBranches_cons]
    exact bind_eq_error.2 (.inl fails)
  | cons first rest inductionHypothesis =>
    rw [List.cons_append, ofBranches_cons] at read
    obtain ⟨tree, firstRead, read⟩ := bind_eq_ok.1 read
    obtain ⟨others, othersRead, -⟩ := bind_eq_ok.1 read
    rw [List.length_cons, Nat.add_comm rest.length 1, ← Nat.add_assoc]
    refine (inductionHypothesis othersRead).imp_right fun reports other error fails => ?_
    rw [List.cons_append, ofBranches_cons]
    exact bind_eq_error.2
      (.inr ⟨tree, firstRead, bind_eq_error.2 (.inl (reports other error fails))⟩)

theorem ofEntries_reports {path : String} {before after : List (String × Json)}
    {entry : String × Json} {parts : List Pattern}
    (read : ofEntries path (before ++ entry :: after) = .ok parts) :
    (∃ part, ofEntry path entry.1 entry.2 = .ok part) ∧
      ∀ (other : String × Json) (error : Error), ofEntry path other.1 other.2 = .error error →
        ofEntries path (before ++ other :: after) = .error error := by
  induction before generalizing parts with
  | nil =>
    rw [List.nil_append, ofEntries_cons] at read
    obtain ⟨part, isRead, -⟩ := bind_eq_ok.1 read
    refine ⟨⟨part, isRead⟩, fun other error fails => ?_⟩
    rw [List.nil_append, ofEntries_cons]
    exact bind_eq_error.2 (.inl fails)
  | cons first rest inductionHypothesis =>
    rw [List.cons_append, ofEntries_cons] at read
    obtain ⟨part, firstRead, read⟩ := bind_eq_ok.1 read
    obtain ⟨others, othersRead, -⟩ := bind_eq_ok.1 read
    refine (inductionHypothesis othersRead).imp_right fun reports other error fails => ?_
    rw [List.cons_append, ofEntries_cons]
    exact bind_eq_error.2
      (.inr ⟨part, firstRead, bind_eq_error.2 (.inl (reports other error fails))⟩)

theorem ofJson_object_reports {path : String} {before after : List (String × Json)}
    {entry : String × Json} {tree : Pattern}
    (read : ofJson path (.object (before ++ entry :: after)) = .ok tree) :
    (∃ part, ofEntry path entry.1 entry.2 = .ok part) ∧
      ∀ (other : String × Json) (error : Error), ofEntry path other.1 other.2 = .error error →
        ofJson path (.object (before ++ other :: after)) = .error error := by
  have notEmpty : ∀ other : String × Json, (before ++ other :: after).isEmpty = false := by simp
  rw [ofJson, notEmpty entry] at read
  obtain ⟨parts, partsRead, -⟩ := map_eq_ok.1 read
  refine (ofEntries_reports partsRead).imp_right fun reports other error fails => ?_
  rw [ofJson, notEmpty other, reports other error fails]
  rfl

theorem ofEntry_reports {path key : String} {value : Json} {part : Pattern}
    (notChoice : key ≠ "choice") (read : ofEntry path key value = .ok part) :
    (∃ child, ofJson (Path.key path key) value = .ok child) ∧
      ∀ other error, ofJson (Path.key path key) other = .error error →
        ofEntry path key other = .error error := by
  unfold ofEntry at read ⊢
  have means := Key.means_of key
  generalize Key.of key = kind at means read
  cases means with
  | alternatives isChoice => exact absurd isChoice notChoice
  | related =>
    obtain ⟨child, childRead, -⟩ := map_eq_ok.1 read
    exact ⟨⟨child, childRead⟩, fun other error fails => by simp only [fails]; rfl⟩
  | unknown => simp at read
  | constraint =>
    obtain ⟨child, childRead, -⟩ := map_eq_ok.1 read
    exact ⟨⟨child, childRead⟩, fun other error fails => by simp only [fails]; rfl⟩

theorem ofEntry_choice_reports {path : String} {earlier later : List Json} {branch : Json}
    {part : Pattern}
    (read : ofEntry path "choice" (.array (earlier ++ branch :: later)) = .ok part) :
    (∃ tree, ofJson (Path.item (Path.key path "choice") earlier.length) branch = .ok tree) ∧
      ∀ other error,
        ofJson (Path.item (Path.key path "choice") earlier.length) other = .error error →
          ofEntry path "choice" (.array (earlier ++ other :: later)) = .error error := by
  have reads : ∀ other, ofEntry path "choice" (.array (earlier ++ other :: later)) =
      (ofBranches (Path.key path "choice") 0 (earlier ++ other :: later)).map .choice := by
    intro other
    have notEmpty : (earlier ++ other :: later).isEmpty = false := by simp
    change (if (earlier ++ other :: later).isEmpty then _ else _) = _
    rw [notEmpty]
    rfl
  rw [reads] at read
  obtain ⟨trees, treesRead, -⟩ := map_eq_ok.1 read
  have reports := ofBranches_reports treesRead
  rw [Nat.zero_add] at reports
  refine reports.imp_right fun reports other error fails => ?_
  rw [reads, reports other error fails]
  rfl

/-- If a document can be read, so can its parts, each at the path that leads there; and an error in
the place of a part would be the error of the document. -/
theorem Hole.reports (hole : Hole) : ∀ {start : String} {value : Json} {tree : Pattern},
    ofJson start (hole.fill value) = .ok tree →
      (∃ part, ofJson (hole.path start) value = .ok part) ∧
        ∀ other error, ofJson (hole.path start) other = .error error →
          ofJson start (hole.fill other) = .error error := by
  induction hole with
  | here =>
    intro start value tree read
    exact ⟨⟨tree, read⟩, fun _ _ fails => fails⟩
  | entry before key notChoice hole after inductionHypothesis =>
    intro start value tree read
    obtain ⟨⟨part, partRead⟩, objectReports⟩ := ofJson_object_reports read
    obtain ⟨⟨child, childRead⟩, entryReports⟩ := ofEntry_reports notChoice partRead
    refine (inductionHypothesis childRead).imp_right fun reports other error fails => ?_
    exact objectReports (key, hole.fill other) error
      (entryReports _ error (reports other error fails))
  | branch before earlier hole later after inductionHypothesis =>
    intro start value tree read
    obtain ⟨⟨part, partRead⟩, objectReports⟩ := ofJson_object_reports read
    obtain ⟨⟨child, childRead⟩, choiceReports⟩ := ofEntry_choice_reports partRead
    refine (inductionHypothesis childRead).imp_right fun reports other error fails => ?_
    exact objectReports ("choice", .array (earlier ++ hole.fill other :: later)) error
      (choiceReports _ error (reports other error fails))

/-! ## Class names in a document -/

theorem ofJson_wrongKind {path : String} {value : Json}
    (notString : ∀ className, value ≠ .string className)
    (notObject : ∀ entries, value ≠ .object entries) :
    ofJson path value = .error ((Fault.wrongKind value.kind).error path) := by
  cases value with
  | string className => exact absurd rfl (notString className)
  | object entries => exact absurd rfl (notObject entries)
  | _ => rfl

theorem ofEntry_unknown {path key : String} (value : Json) (notChoice : key ≠ "choice")
    (notRelation : ¬RelationKey key) (notClass : ¬ClassKey key) :
    ofEntry path key value = .error (.of (.unknownRelation key path)) := by
  unfold ofEntry
  have means := Key.means_of key
  generalize Key.of key = kind at means ⊢
  cases means with
  | alternatives isChoice => exact absurd isChoice notChoice
  | related isRelated => exact absurd ⟨_, _, isRelated⟩ notRelation
  | unknown => rfl
  | constraint isClass => exact absurd isClass notClass

/-- Reading would report any value in the place of the class name that is no pattern, and any key
in its place that is no key of a pattern, with this path. -/
inductive ReadsClassAt (start : String) (document : Json) (name place : String) : Prop
  | string (hole : Hole) : document = hole.fill (.string name) → hole.path start = place →
      (∀ wrong : Json, (∀ className, wrong ≠ .string className) →
        (∀ entries, wrong ≠ .object entries) →
          ofJson start (hole.fill wrong) = .error ((Fault.wrongKind wrong.kind).error place)) →
      ReadsClassAt start document name place
  | key (hole : Hole) (before : List (String × Json)) (child : Json)
      (after : List (String × Json)) :
      document = hole.fill (.object (before ++ (name, child) :: after)) → ClassKey name →
      hole.path start = place →
      (∀ key : String, key ≠ "choice" → ¬RelationKey key → ¬ClassKey key →
        ofJson start (hole.fill (.object (before ++ (key, child) :: after))) =
          .error (.of (.unknownRelation key place))) →
      ReadsClassAt start document name place

/-- A node that names a class was made from the string, or from the object that has the name as a
key. -/
theorem Origin.FoundIn.readsClassAt {start name : String} {document : Json} {tree : Pattern}
    {origin : Origin} (found : origin.FoundIn start document)
    (read : ofJson start document = .ok tree) (named : origin.node.className? = some name) :
    ReadsClassAt start document name origin.path := by
  obtain ⟨path, value, node⟩ := origin
  obtain ⟨made, hole, rfl, rfl⟩ := found
  -- whatever is wrong in the hole is what reading the document reports
  obtain ⟨⟨part, partRead⟩, reports⟩ := hole.reports read
  cases made with
  | string className =>
    obtain rfl := Option.some.inj named
    exact .string hole rfl rfl fun wrong notString notObject =>
      reports _ _ (ofJson_wrongKind notString notObject)
  | @entry entries key child node listed entryRead =>
    cases readsEntry_of_eq_ok entryRead with
    | choice => contradiction
    | related => contradiction
    | constraint isClass =>
      obtain rfl := Option.some.inj named
      obtain ⟨before, after, rfl⟩ := List.append_of_mem listed
      refine .key hole before child after rfl isClass rfl fun other notChoice notRelated notClass =>
        reports _ _ ((ofJson_object_reports partRead).2 (other, child) _ ?_)
      exact ofEntry_unknown child notChoice notRelated notClass
  | entries => contradiction

/-! ## Calls -/

namespace Follows

variable {Result : Type} {spots : List Spot} {recorded : Recorded Result}

theorem calls_of_ok {result : Result} (follows : Follows spots (.ok result) recorded) :
    recorded.calls = spots := by
  cases follows
  rfl

theorem calls_of_error {error : Error} (follows : Follows spots (.error error) recorded) :
    ∃ before spot after, spots = before ++ spot :: after ∧ recorded.calls = before ++ [spot] ∧
      spot.defect? = some error := by
  cases follows with
  | stopped _ isDefect => exact ⟨_, _, _, rfl, rfl, isDefect⟩

end Follows

end Pattern

namespace Query

theorem follows_compile {space : Namespace} {className target : String} (pattern : Pattern)
    (notRoot : target ≠ root) (isVariable : Identifier.isVariable target = true)
    (isClass : Identifier.IsClass className) :
    Pattern.Follows (pattern.spots (Path.definition target))
      (compile space className target pattern)
      (recordedCompile space className target pattern) := by
  obtain ⟨resolved, isResolved⟩ := (@Identifier.isClass_iff space className).1 isClass
  have checked : Identifier.checkVariable "definitions" target = .ok () :=
    Identifier.checkVariable_eq_ok.2 isVariable
  unfold compile recordedCompile
  rw [beq_eq_false_iff_ne.2 notRoot, checked, Identifier.resolveClass_eq_ok.2 isResolved,
    ← List.append_nil (Pattern.spots _ _)]
  exact (Pattern.records pattern _ _ _).bind fun _ => .pure _

/-- Compiling what was read as the definition of a variable takes up every node at the path that the
value was read at from which the node was made. -/
structure SamePlaces (space : Namespace) (className target : String) (value : Json)
    (noted : Pattern.Noted) : Prop where
  nodes : noted.origins.map Pattern.Origin.node = noted.tree.nodes
  found : ∀ origin ∈ noted.origins, origin.FoundIn (Path.definition target) value
  outcome : (recordedCompile space className target noted.tree).outcome =
    compile space className target noted.tree
  through : ∀ query, compile space className target noted.tree = .ok query →
    (recordedCompile space className target noted.tree).calls =
      noted.origins.map Pattern.Origin.spot
  stopped : ∀ error, compile space className target noted.tree = .error error →
    ∃ before origin after, noted.origins = before ++ origin :: after ∧
      (recordedCompile space className target noted.tree).calls =
        (before ++ [origin]).map Pattern.Origin.spot ∧
      origin.spot.defect? = some error
  reported : ∀ name place,
    compile space className target noted.tree = .error (.of (.malformedIdentifier name place)) →
      Pattern.ReadsClassAt (Path.definition target) value name place

theorem samePlaces {space : Namespace} {className target : String} {value : Json} {tree : Pattern}
    (read : Pattern.ofJson (Path.definition target) value = .ok tree) (notRoot : target ≠ root)
    (isVariable : Identifier.isVariable target = true) (isClass : Identifier.IsClass className) :
    ∃ noted, Pattern.notedOfJson (Path.definition target) value = .ok noted ∧
      noted.tree = tree ∧ SamePlaces space className target value noted := by
  rw [← Pattern.map_notedOfJson] at read
  obtain ⟨noted, notedRead, rfl⟩ := map_eq_ok.1 read
  have placed := Pattern.placed_notedOfJson value _ _ notedRead
  have follows := @follows_compile space _ _ noted.tree notRoot isVariable isClass
  have stopped : ∀ error, compile space className target noted.tree = .error error →
      ∃ before origin after, noted.origins = before ++ origin :: after ∧
        (recordedCompile space className target noted.tree).calls =
          (before ++ [origin]).map Pattern.Origin.spot ∧
        origin.spot.defect? = some error := by
    intro error failed
    rw [failed] at follows
    obtain ⟨before, spot, after, split, isCalls, isDefect⟩ := follows.calls_of_error
    rw [← placed.spots] at split
    obtain ⟨earlier, rest, isOrigins, rfl, isRest⟩ := List.map_eq_append_iff.1 split
    obtain ⟨origin, later, rfl, rfl, -⟩ := List.map_eq_cons_iff.1 isRest
    exact ⟨earlier, origin, later, isOrigins, by rw [isCalls, List.map_append]; rfl, isDefect⟩
  refine ⟨noted, notedRead, rfl, ?nodes, placed.found, follows.outcome_eq, ?through, stopped,
    ?reported⟩
  case nodes =>
    rw [← Pattern.map_node_spots noted.tree (Path.definition target), ← placed.spots, List.map_map]
    rfl
  case through =>
    intro query succeeded
    rw [succeeded] at follows
    rw [placed.spots, follows.calls_of_ok]
  case reported =>
    intro name place failed
    obtain ⟨before, origin, after, isOrigins, -, isDefect⟩ := stopped _ failed
    have found := placed.found origin (by simp [isOrigins])
    rw [Pattern.map_notedOfJson] at read
    rcases Pattern.Spot.defect?_eq_some_iff.1 isDefect with
      ⟨other, named, -, isError⟩ | ⟨-, isError⟩ | ⟨-, isError⟩
    · cases isError
      exact found.readsClassAt read named
    · cases isError
    · cases isError

/-- One key of the object below the relation is of no class. -/
def strayDocument : Json :=
  .object [("choice", .array
    [.string "Sensor",
    .object [("feeds*", .object
      [("VAV", .string "Sensor"),
      ("No class", .object [("hasPart", .string "neither this")])])]])]

/-- The object below the relation has become a conjunction. -/
def strayPattern : Pattern :=
  .choice
    [.leaf "Sensor",
    .related .feeds .zeroOrMore (.all
      [.constraint "VAV" (.leaf "Sensor"),
      .constraint "No class" (.related .hasPart .one (.leaf "neither this"))])]

theorem samePlaces_of_strayDocument :
    compile .brick "VAV" "fed" strayPattern =
        .error (.of (.malformedIdentifier "No class" "definitions.fed.choice[1].feeds*")) ∧
      ∃ noted, Pattern.notedOfJson (Path.definition "fed") strayDocument = .ok noted ∧
        noted.tree = strayPattern ∧ SamePlaces .brick "VAV" "fed" strayDocument noted :=
  ⟨rfl, samePlaces rfl (by decide) (by decide) (by decide)⟩

end Query

end BuildingRules
