import BuildingRules.Pattern.Origins
import BuildingRules.Proofs.PatternDocuments

/-!
# Where reading finds the nodes of a tree

The path of a node in its tree is the path that the value was read at from which the node was made:
`placed_notedOfJson`. An error in a part of a document is reported as the error of the whole, with
the path of the part: `Hole.reports`.
-/

set_option autoImplicit false

namespace BuildingRules.Pattern

/-! ## Entries -/

/-- What an entry is read as, with the record. -/
def notedOfEntry (path : String) (whole : Json) (key : String) (value : Json) :
    Except Error Noted :=
  match Key.of key with
  | .alternatives =>
    match value with
    | .array branches =>
      if branches.isEmpty then .error (Fault.choiceEmpty.error (Path.key path key))
      else (notedOfBranches (Path.key path key) 0 branches).map (.choice path whole)
    | _ => .error (Fault.choiceNotList.error (Path.key path key))
  | .related relation quantifier =>
    (notedOfJson (Path.key path key) value).map (.related path whole relation quantifier)
  | .unknown => .error (.of (.unknownRelation key path))
  | .constraint => (notedOfJson (Path.key path key) value).map (.constraint path whole key)

theorem notedOfEntries_cons (path : String) (whole : Json) (entry : String × Json)
    (rest : List (String × Json)) :
    notedOfEntries path whole (entry :: rest) =
      (do
        let first ← notedOfEntry path whole entry.1 entry.2
        let others ← notedOfEntries path whole rest
        .ok (first :: others)) := by
  obtain ⟨key, value⟩ := entry
  rw [notedOfEntries.eq_def, notedOfEntry.eq_def]
  dsimp only
  cases Key.of key with
  | alternatives =>
    cases value with
    | array branches => cases branches <;> rfl
    | _ => rfl
  | _ => rfl

/-! ## The record changes nothing -/

theorem map_notedOfBranches (branches : List Json)
    (below : ∀ branch ∈ branches, ∀ path,
      (notedOfJson path branch).map Noted.tree = ofJson path branch) :
    ∀ path index, (notedOfBranches path index branches).map (List.map Noted.tree) =
      ofBranches path index branches := by
  induction branches with
  | nil =>
    intro path index
    rw [notedOfBranches, ofBranches]
    rfl
  | cons branch rest inductionHypothesis =>
    intro path index
    obtain ⟨belowBranch, belowRest⟩ := List.forall_mem_cons.1 below
    rw [notedOfBranches, ofBranches_cons, ← belowBranch, ← inductionHypothesis belowRest]
    cases notedOfJson (Path.item path index) branch with
    | error error => rfl
    | ok first => cases notedOfBranches path (index + 1) rest <;> rfl

theorem map_notedOfEntry (path key : String) (whole value : Json)
    (below : ∀ path, (notedOfJson path value).map Noted.tree = ofJson path value)
    (belowBranches : ∀ branches, value = .array branches → ∀ branch ∈ branches,
      ∀ path, (notedOfJson path branch).map Noted.tree = ofJson path branch) :
    (notedOfEntry path whole key value).map Noted.tree = ofEntry path key value := by
  rw [notedOfEntry.eq_def, ofEntry.eq_def]
  cases Key.of key with
  | alternatives =>
    cases value with
    | array branches =>
      have same := map_notedOfBranches branches (belowBranches branches rfl) (Path.key path key) 0
      cases branches with
      | nil => rfl
      | cons branch rest =>
        simp only [List.isEmpty_cons, Bool.false_eq_true, if_false, ← same]
        cases notedOfBranches (Path.key path key) 0 (branch :: rest) <;> rfl
    | _ => rfl
  | related relation quantifier =>
    simp only [← below]
    cases notedOfJson (Path.key path key) value <;> rfl
  | unknown => rfl
  | constraint =>
    simp only [← below]
    cases notedOfJson (Path.key path key) value <;> rfl

theorem map_notedOfEntries (path : String) (whole : Json) (entries : List (String × Json))
    (below : ∀ entry ∈ entries,
      (notedOfEntry path whole entry.1 entry.2).map Noted.tree = ofEntry path entry.1 entry.2) :
    (notedOfEntries path whole entries).map (List.map Noted.tree) = ofEntries path entries := by
  induction entries with
  | nil =>
    rw [notedOfEntries, ofEntries]
    rfl
  | cons entry rest inductionHypothesis =>
    obtain ⟨belowEntry, belowRest⟩ := List.forall_mem_cons.1 below
    rw [notedOfEntries_cons, ofEntries_cons, ← belowEntry, ← inductionHypothesis belowRest]
    cases notedOfEntry path whole entry.1 entry.2 with
    | error error => rfl
    | ok first => cases notedOfEntries path whole rest <;> rfl

theorem tree_conjunction (path : String) (whole : Json) (parts : List Noted) :
    (Noted.conjunction path whole parts).tree = conjunction (parts.map Noted.tree) := by
  match parts with
  | [] => rfl
  | [part] => rfl
  | first :: second :: rest => rfl

theorem map_notedOfJson (value : Json) :
    ∀ path, (notedOfJson path value).map Noted.tree = ofJson path value := by
  induction value using documentInduction with
  | other value notObject =>
    intro path
    cases value with
    | object entries => exact absurd rfl (notObject entries)
    | _ => rw [notedOfJson, ofJson]; rfl
  | object entries inductionHypothesis =>
    intro path
    have same := map_notedOfEntries path (.object entries) entries fun entry listed =>
      map_notedOfEntry path entry.1 (.object entries) entry.2
        (inductionHypothesis entry.1 entry.2 listed).1
        (inductionHypothesis entry.1 entry.2 listed).2
    rw [notedOfJson, ofJson]
    cases entries with
    | nil => rfl
    | cons entry rest =>
      simp only [List.isEmpty_cons, Bool.false_eq_true, if_false, ← same]
      cases notedOfEntries path (.object (entry :: rest)) (entry :: rest) with
      | error error => rfl
      | ok parts => exact congrArg Except.ok (tree_conjunction path _ parts)

/-! ## Origins -/

/-- What a node can be made from: a leaf from a string, any other node from an object, either from
one of its entries or from all of them. -/
inductive MadeFrom (path : String) : Json → Pattern → Prop
  | string (className : String) : MadeFrom path (.string className) (.leaf className)
  | entry {entries : List (String × Json)} {key : String} {value : Json} {node : Pattern} :
      (key, value) ∈ entries → ofEntry path key value = .ok node →
      MadeFrom path (.object entries) node
  | entries {entries : List (String × Json)} {parts : List Pattern} : 2 ≤ entries.length →
      ofEntries path entries = .ok parts → MadeFrom path (.object entries) (.all parts)

/-- The node was made from a value of the document, which was read at the path that leads there. -/
structure Origin.FoundIn (start : String) (document : Json) (origin : Origin) : Prop where
  made : MadeFrom origin.path origin.value origin.node
  stands : ∃ hole : Hole, hole.fill origin.value = document ∧ hole.path start = origin.path

/-- The nodes of a tree that was read at a path are written down with the places that they have in
the tree, and with what they were made from. -/
structure Placed (path : String) (value : Json) (noted : Noted) : Prop where
  spots : noted.origins.map Origin.spot = noted.tree.spots path
  found : ∀ origin ∈ noted.origins, origin.FoundIn path value

theorem Origin.FoundIn.entry {path key : String} {value : Json} {origin : Origin}
    (notChoice : key ≠ "choice") (found : origin.FoundIn (Path.key path key) value)
    (before after : List (String × Json)) :
    origin.FoundIn path (.object (before ++ (key, value) :: after)) := by
  obtain ⟨hole, fills, leads⟩ := found.stands
  exact ⟨found.made, .entry before key notChoice hole after, by rw [Hole.fill, fills], leads⟩

theorem Origin.FoundIn.branch {path : String} {branch : Json} {origin : Origin}
    {earlier : List Json}
    (found : origin.FoundIn (Path.item (Path.key path "choice") earlier.length) branch)
    (later : List Json) (before after : List (String × Json)) :
    origin.FoundIn path
      (.object (before ++ ("choice", .array (earlier ++ branch :: later)) :: after)) := by
  obtain ⟨hole, fills, leads⟩ := found.stands
  exact ⟨found.made, .branch before earlier hole later after, by rw [Hole.fill, fills], leads⟩

/-- A node that is put on top of others was made from the whole value. -/
theorem Placed.under {path : String} {value : Json} {node : Pattern} {below : List Noted}
    (made : MadeFrom path value node)
    (spots : ⟨path, node⟩ :: (below.flatMap Noted.origins).map Origin.spot = node.spots path)
    (found : ∀ part ∈ below, ∀ origin ∈ part.origins, origin.FoundIn path value) :
    Placed path value (.under path value node below) where
  spots := spots
  found := by
    refine List.forall_mem_cons.2 ⟨⟨made, .here, rfl, rfl⟩, fun origin listed => ?_⟩
    obtain ⟨part, inBelow, inPart⟩ := List.mem_flatMap.1 listed
    exact found part inBelow origin inPart

/-- All branches are read, each at the path of its number. -/
theorem placed_notedOfBranches (branches : List Json)
    (below : ∀ branch ∈ branches, ∀ path noted, notedOfJson path branch = .ok noted →
      Placed path branch noted) :
    ∀ path index noted, notedOfBranches (Path.key path "choice") index branches = .ok noted →
      (noted.flatMap Noted.origins).map Origin.spot =
        spotsOfBranches path index (noted.map Noted.tree) ∧
      ∀ part ∈ noted, ∃ earlier branch later, branches = earlier ++ branch :: later ∧
        Placed (Path.item (Path.key path "choice") (index + earlier.length)) branch part := by
  induction branches with
  | nil =>
    intro path index noted read
    rw [notedOfBranches] at read
    obtain rfl := Except.ok.inj read
    exact ⟨by rw [List.map_nil, spotsOfBranches]; rfl, List.forall_mem_nil _⟩
  | cons branch rest inductionHypothesis =>
    intro path index noted read
    obtain ⟨belowBranch, belowRest⟩ := List.forall_mem_cons.1 below
    rw [notedOfBranches] at read
    obtain ⟨first, firstRead, read⟩ := bind_eq_ok.1 read
    obtain ⟨others, othersRead, read⟩ := bind_eq_ok.1 read
    obtain rfl := Except.ok.inj read
    have placed := belowBranch _ _ firstRead
    obtain ⟨spots, othersPlaced⟩ := inductionHypothesis belowRest _ _ _ othersRead
    constructor
    · rw [List.flatMap_cons, List.map_append, placed.spots, spots, List.map_cons, spotsOfBranches]
    · refine List.forall_mem_cons.2 ⟨⟨[], branch, rest, rfl, placed⟩, fun part listed => ?_⟩
      obtain ⟨earlier, other, later, rfl, otherPlaced⟩ := othersPlaced part listed
      refine ⟨branch :: earlier, other, later, rfl, ?_⟩
      rwa [List.length_cons, Nat.add_comm earlier.length 1, ← Nat.add_assoc]

theorem placed_notedOfEntry {path key : String} {value : Json} {before after : List (String × Json)}
    (below : ∀ path noted, notedOfJson path value = .ok noted → Placed path value noted)
    (belowBranches : ∀ branches, value = .array branches → ∀ branch ∈ branches,
      ∀ path noted, notedOfJson path branch = .ok noted → Placed path branch noted)
    {noted : Noted}
    (read : notedOfEntry path (.object (before ++ (key, value) :: after)) key value = .ok noted) :
    Placed path (.object (before ++ (key, value) :: after)) noted := by
  have treeRead : ofEntry path key value = .ok noted.tree := by
    rw [← map_notedOfEntry path key (.object (before ++ (key, value) :: after)) value
      (map_notedOfJson value) fun _ _ branch _ => map_notedOfJson branch, read]
    rfl
  have made : MadeFrom path (.object (before ++ (key, value) :: after)) noted.tree :=
    .entry (by simp) treeRead
  unfold notedOfEntry at read
  have means := Key.means_of key
  generalize Key.of key = kind at means read
  cases means with
  | alternatives isChoice =>
    subst isChoice
    cases value with
    | array branches =>
      simp only at read
      split at read
      next => contradiction
      next =>
        obtain ⟨noted, branchesRead, rfl⟩ := map_eq_ok.1 read
        obtain ⟨spots, placed⟩ :=
          placed_notedOfBranches branches (belowBranches _ rfl) _ _ _ branchesRead
        refine .under made (by rw [spots, Pattern.spots]) fun part listed origin inPart => ?_
        -- the way to an origin below goes through the branch that it was found in
        obtain ⟨earlier, branch, later, rfl, partPlaced⟩ := placed part listed
        rw [Nat.zero_add] at partPlaced
        exact (partPlaced.found origin inPart).branch later before after
    | _ => simp at read
  | @related relation quantifier isRelated =>
    obtain ⟨child, childRead, rfl⟩ := map_eq_ok.1 read
    have placed := below _ _ childRead
    have notChoice : key ≠ "choice" := fun same =>
      not_relationKey_choice (same ▸ ⟨relation, quantifier, isRelated⟩)
    refine .under made ?_ (List.forall_mem_singleton.2 fun origin listed =>
      (placed.found origin listed).entry notChoice before after)
    rw [List.flatMap_singleton, placed.spots, Pattern.spots, ← isRelated]
  | unknown => simp at read
  | constraint isClass =>
    obtain ⟨child, childRead, rfl⟩ := map_eq_ok.1 read
    have placed := below _ _ childRead
    refine .under made ?_ (List.forall_mem_singleton.2 fun origin listed =>
      (placed.found origin listed).entry isClass.1 before after)
    rw [List.flatMap_singleton, placed.spots, Pattern.spots]

theorem placed_notedOfEntries (path : String) (whole : Json) (entries : List (String × Json))
    (below : ∀ entry ∈ entries, ∀ part, notedOfEntry path whole entry.1 entry.2 = .ok part →
      Placed path whole part) :
    ∀ parts, notedOfEntries path whole entries = .ok parts →
      parts.length = entries.length ∧ ∀ part ∈ parts, Placed path whole part := by
  induction entries with
  | nil =>
    intro parts read
    rw [notedOfEntries] at read
    obtain rfl := Except.ok.inj read
    exact ⟨rfl, List.forall_mem_nil _⟩
  | cons entry rest inductionHypothesis =>
    intro parts read
    obtain ⟨belowEntry, belowRest⟩ := List.forall_mem_cons.1 below
    rw [notedOfEntries_cons] at read
    obtain ⟨first, firstRead, read⟩ := bind_eq_ok.1 read
    obtain ⟨others, othersRead, read⟩ := bind_eq_ok.1 read
    obtain rfl := Except.ok.inj read
    obtain ⟨sameLength, placed⟩ := inductionHypothesis belowRest _ othersRead
    exact ⟨by rw [List.length_cons, List.length_cons, sameLength],
      List.forall_mem_cons.2 ⟨belowEntry _ firstRead, placed⟩⟩

/-- Parts of a conjunction stand where it stands. -/
theorem map_spot_of_parts {path : String} {whole : Json} {parts : List Noted}
    (placed : ∀ part ∈ parts, Placed path whole part) :
    (parts.flatMap Noted.origins).map Origin.spot = spotsOfParts path (parts.map Noted.tree) := by
  induction parts with
  | nil => rw [List.map_nil, spotsOfParts]; rfl
  | cons part rest inductionHypothesis =>
    obtain ⟨placedPart, placedRest⟩ := List.forall_mem_cons.1 placed
    rw [List.flatMap_cons, List.map_append, placedPart.spots, inductionHypothesis placedRest,
      List.map_cons, spotsOfParts]

theorem Placed.conjunction {path : String} {entries : List (String × Json)} {parts : List Noted}
    (notEmpty : entries ≠ []) (sameLength : parts.length = entries.length)
    (read : ofEntries path entries = .ok (parts.map Noted.tree))
    (placed : ∀ part ∈ parts, Placed path (.object entries) part) :
    Placed path (.object entries) (.conjunction path (.object entries) parts) := by
  match parts with
  | [] => exact absurd (List.eq_nil_of_length_eq_zero sameLength.symm) notEmpty
  -- a single entry stands for itself, at the path of the object
  | [part] => exact List.forall_mem_singleton.1 placed
  | first :: second :: rest =>
    have several : 2 ≤ entries.length := by
      rw [← sameLength, List.length_cons, List.length_cons]
      omega
    refine .under (.entries several read) ?_ fun part listed => (placed part listed).found
    rw [map_spot_of_parts placed, Pattern.spots]

/-- The nodes of the tree stand, in their order, where the values were read from which they were
made. -/
theorem placed_notedOfJson (value : Json) :
    ∀ path noted, notedOfJson path value = .ok noted → Placed path value noted := by
  induction value using documentInduction with
  | other value notObject =>
    intro path noted read
    cases value with
    | string className =>
      rw [notedOfJson] at read
      obtain rfl := Except.ok.inj read
      exact .under (.string className) (by rw [Pattern.spots]; rfl) (List.forall_mem_nil _)
    | object entries => exact absurd rfl (notObject entries)
    | _ => contradiction
  | object entries inductionHypothesis =>
    intro path noted read
    rw [notedOfJson] at read
    split at read
    next => contradiction
    next notEmpty =>
      obtain ⟨parts, partsRead, rfl⟩ := map_eq_ok.1 read
      have treesRead : ofEntries path entries = .ok (parts.map Noted.tree) := by
        rw [← map_notedOfEntries path (.object entries) entries fun entry _ =>
          map_notedOfEntry path entry.1 _ entry.2 (map_notedOfJson entry.2) fun _ _ branch _ =>
            map_notedOfJson branch, partsRead]
        rfl
      obtain ⟨sameLength, placed⟩ := placed_notedOfEntries path (.object entries) entries
        (fun entry listed part partRead => by
          obtain ⟨before, after, rfl⟩ := List.append_of_mem listed
          exact placed_notedOfEntry (inductionHypothesis entry.1 entry.2 listed).1
            (inductionHypothesis entry.1 entry.2 listed).2 partRead) parts partsRead
      exact .conjunction (fun isEmpty => notEmpty (List.isEmpty_iff.2 isEmpty)) sameLength treesRead
        placed

end BuildingRules.Pattern
