import BuildingRules.Proofs.FirstOffences
import BuildingRules.Proofs.PatternKeys
import Mathlib.Data.List.Forall2
import Mathlib.Tactic.ByContra

/-!
# Reading patterns from documents

A value is read as a pattern exactly when it has the form of one, whatever place it is read at; the
tree can be written back, so nothing of the document is lost. A value that is refused is refused for
the first place of the document that offends: `readsDocument`.
-/

set_option autoImplicit false

namespace BuildingRules.Pattern

/-! ## Induction on a document -/

/-- What an object inherits from the values of its entries, and from the branches that these list,
holds of every value. -/
@[elab_as_elim]
theorem documentInduction {motive : Json → Prop}
    (other : ∀ value, (∀ entries, value ≠ .object entries) → motive value)
    (object : ∀ entries, (∀ key value, (key, value) ∈ entries → motive value ∧
      ∀ branches, value = .array branches → ∀ branch ∈ branches, motive branch) →
      motive (.object entries)) :
    ∀ value, motive value
  | .object entries =>
    object entries fun _ value _listed =>
      ⟨documentInduction other object value, fun _ _isList branch _isBranch =>
        documentInduction other object branch⟩
  | .null => other _ nofun
  | .bool _ => other _ nofun
  | .number _ => other _ nofun
  | .string _ => other _ nofun
  | .array _ => other _ nofun
termination_by value => sizeOf value
decreasing_by
  · have smaller := List.sizeOf_lt_of_mem _listed
    simp only [Prod.mk.sizeOf_spec, Json.object.sizeOf_spec] at smaller ⊢
    omega
  · subst _isList
    have smaller := List.sizeOf_lt_of_mem _listed
    have branchSmaller := List.sizeOf_lt_of_mem _isBranch
    simp only [Prod.mk.sizeOf_spec, Json.array.sizeOf_spec, Json.object.sizeOf_spec]
      at smaller ⊢
    omega

/-! ## Entries -/

/-- What an entry is read as. -/
def ofEntry (path key : String) (value : Json) : Except Error Pattern :=
  match Key.of key with
  | .alternatives =>
    match value with
    | .array branches =>
      if branches.isEmpty then .error (Fault.choiceEmpty.error (Path.key path key))
      else (ofBranches (Path.key path key) 0 branches).map .choice
    | _ => .error (Fault.choiceNotList.error (Path.key path key))
  | .related relation quantifier =>
    (ofJson (Path.key path key) value).map (.related relation quantifier)
  | .unknown => .error (.of (.unknownRelation key path))
  | .constraint => (ofJson (Path.key path key) value).map (.constraint key)

theorem ofEntries_cons (path : String) (entry : String × Json) (rest : List (String × Json)) :
    ofEntries path (entry :: rest) =
      (do
        let first ← ofEntry path entry.1 entry.2
        let others ← ofEntries path rest
        .ok (first :: others)) := by
  obtain ⟨key, value⟩ := entry
  rw [ofEntries.eq_def, ofEntry.eq_def]
  dsimp only
  cases Key.of key with
  | alternatives =>
    cases value with
    | array branches => cases branches <;> rfl
    | _ => rfl
  | _ => rfl

theorem ofBranches_cons (path : String) (index : Nat) (branch : Json) (rest : List Json) :
    ofBranches path index (branch :: rest) =
      (do
        let first ← ofJson (Path.item path index) branch
        let others ← ofBranches path (index + 1) rest
        .ok (first :: others)) := by
  rw [ofBranches]

/-- What an entry is read as depends on its key, and below that on what its value is read as. -/
inductive ReadsEntry (path key : String) (value : Json) : Pattern → Prop
  | choice {branches : List Json} {trees : List Pattern} : key = "choice" →
      value = .array branches → branches ≠ [] →
      ofBranches (Path.key path key) 0 branches = .ok trees →
      ReadsEntry path key value (.choice trees)
  | related {relation : Relation} {quantifier : Quantifier} {child : Pattern} :
      key = relation.name ++ quantifier.mark → ofJson (Path.key path key) value = .ok child →
      ReadsEntry path key value (.related relation quantifier child)
  | constraint {child : Pattern} : ClassKey key → ofJson (Path.key path key) value = .ok child →
      ReadsEntry path key value (.constraint key child)

theorem readsEntry_of_eq_ok {path key : String} {value : Json} {part : Pattern}
    (read : ofEntry path key value = .ok part) : ReadsEntry path key value part := by
  unfold ofEntry at read
  have means := Key.means_of key
  generalize Key.of key = kind at means read
  cases means with
  | alternatives isChoice =>
    cases value with
    | array branches =>
      simp only at read
      split at read
      next => contradiction
      next notEmpty =>
        obtain ⟨trees, isRead, rfl⟩ := map_eq_ok.1 read
        exact .choice isChoice rfl (fun isEmpty => notEmpty (List.isEmpty_iff.2 isEmpty)) isRead
    | _ => simp at read
  | related isRelated =>
    obtain ⟨child, isRead, rfl⟩ := map_eq_ok.1 read
    exact .related isRelated isRead
  | unknown => simp at read
  | constraint isClass =>
    obtain ⟨child, isRead, rfl⟩ := map_eq_ok.1 read
    exact .constraint isClass isRead

/-! ## Which error is reported -/

theorem settles_ofBranches (branches : List Json)
    (below : ∀ branch ∈ branches, ∀ path, Settles (sites path branch) (ofJson path branch)) :
    ∀ path index,
      Settles (sitesOfBranches path index branches) (ofBranches path index branches) := by
  induction branches with
  | nil =>
    intro path index
    exact clean_nil
  | cons branch rest inductionHypothesis =>
    intro path index
    obtain ⟨belowBranch, belowRest⟩ := List.forall_mem_cons.1 below
    rw [sitesOfBranches, ofBranches_cons]
    refine (belowBranch _).bind fun first => ?_
    rw [← List.append_nil (sitesOfBranches _ _ _)]
    exact (inductionHypothesis belowRest path (index + 1)).bind fun _ => clean_nil

theorem sitesOfEntry_eq_cons (path key : String) (value : Json) :
    ∃ rest, sitesOfEntry path (key, value) = .entry path key value :: rest := by
  cases value with
  | array items => exact ⟨_, by rw [sitesOfEntry]⟩
  | _ => exact ⟨_, by rw [sitesOfEntry]; nofun⟩

theorem sitesOfEntry_choice (path : String) (branches : List Json) :
    sitesOfEntry path ("choice", .array branches) =
      .entry path "choice" (.array branches) ::
        sitesOfBranches (Path.key path "choice") 0 branches := by
  rw [sitesOfEntry, if_pos rfl]

theorem sitesOfEntry_of_ne {key : String} (notChoice : key ≠ "choice") (path : String)
    (value : Json) :
    sitesOfEntry path (key, value) = .entry path key value :: sites (Path.key path key) value := by
  cases value with
  | array items => rw [sitesOfEntry, if_neg notChoice, sites]
  | _ =>
    rw [sitesOfEntry, if_neg notChoice]
    nofun

theorem settles_ofEntry (path key : String) (value : Json)
    (below : ∀ path, Settles (sites path value) (ofJson path value))
    (belowBranches : ∀ branches, value = .array branches → ∀ branch ∈ branches,
      ∀ path, Settles (sites path branch) (ofJson path branch)) :
    Settles (sitesOfEntry path (key, value)) (ofEntry path key value) := by
  rw [ofEntry.eq_def]
  have means := Key.means_of key
  generalize Key.of key = kind at means ⊢
  cases means with
  | alternatives isChoice =>
    subst isChoice
    obtain ⟨rest, startsAt⟩ := sitesOfEntry_eq_cons path "choice" value
    cases value with
    | array branches =>
      cases branches with
      | nil =>
        rw [startsAt]
        exact .offends .choiceEmpty
      | cons branch rest =>
        rw [sitesOfEntry_choice]
        have settled := settles_ofBranches (branch :: rest) (belowBranches _ rfl)
          (Path.key path "choice") 0
        exact .cons (not_offends_choice (List.cons_ne_nil branch rest)) (settled.map _)
    | _ =>
      rw [startsAt]
      exact .offends (.choiceNotList nofun)
  | @related relation quantifier isRelated =>
    have isRelation : RelationKey key := ⟨relation, quantifier, isRelated⟩
    have notChoice : key ≠ "choice" := fun same => not_relationKey_choice (same ▸ isRelation)
    rw [sitesOfEntry_of_ne notChoice]
    exact .cons (not_offends_entry notChoice (.inl isRelation)) ((below _).map _)
  | unknown notChoice notRelation notClass =>
    rw [sitesOfEntry_of_ne notChoice]
    exact .offends (.unknownRelation notChoice notRelation notClass)
  | constraint isClass =>
    rw [sitesOfEntry_of_ne isClass.1]
    exact .cons (not_offends_entry isClass.1 (.inr isClass)) ((below _).map _)

theorem settles_ofEntries (path : String) (entries : List (String × Json))
    (below : ∀ entry ∈ entries, Settles (sitesOfEntry path entry) (ofEntry path entry.1 entry.2)) :
    Settles (sitesOfEntries path entries) (ofEntries path entries) := by
  induction entries with
  | nil => exact clean_nil
  | cons entry rest inductionHypothesis =>
    obtain ⟨belowEntry, belowRest⟩ := List.forall_mem_cons.1 below
    rw [sitesOfEntries, ofEntries_cons]
    refine belowEntry.bind fun first => ?_
    rw [← List.append_nil (sitesOfEntries _ _)]
    exact (inductionHypothesis belowRest).bind fun _ => clean_nil

theorem settles_ofJson (value : Json) :
    ∀ path, Settles (sites path value) (ofJson path value) := by
  induction value using documentInduction with
  | other value notObject =>
    intro path
    cases value with
    | string text =>
      refine clean_cons.2 ⟨fun error offends => ?_, clean_nil⟩
      cases offends with | wrongKind notString => exact notString text rfl
    | object entries => exact absurd rfl (notObject entries)
    | _ => exact .offends (.wrongKind nofun notObject)
  | object entries inductionHypothesis =>
    intro path
    rw [sites, ofJson]
    cases entries with
    | nil => exact .offends .emptyObject
    | cons entry rest =>
      have settled := settles_ofEntries path (entry :: rest) fun entry listed =>
        settles_ofEntry path entry.1 entry.2 (inductionHypothesis entry.1 entry.2 listed).1
          (inductionHypothesis entry.1 entry.2 listed).2
      exact .cons (not_offends_object (List.cons_ne_nil entry rest)) (settled.map conjunction)

/-! ## Which values are accepted -/

theorem clean_sitesOfBranches (branches : List Json)
    (below : ∀ branch ∈ branches, ∀ path, Clean (sites path branch) ↔ Accepted branch) :
    ∀ path index,
      Clean (sitesOfBranches path index branches) ↔ ∀ branch ∈ branches, Accepted branch := by
  induction branches with
  | nil => exact fun _ _ => ⟨fun _ => nofun, fun _ => clean_nil⟩
  | cons branch rest inductionHypothesis =>
    intro path index
    obtain ⟨belowBranch, belowRest⟩ := List.forall_mem_cons.1 below
    rw [sitesOfBranches, clean_append, belowBranch, inductionHypothesis belowRest,
      List.forall_mem_cons]

theorem clean_sitesOfEntry (path key : String) (value : Json)
    (below : ∀ path, Clean (sites path value) ↔ Accepted value)
    (belowBranches : ∀ branches, value = .array branches → ∀ branch ∈ branches,
      ∀ path, Clean (sites path branch) ↔ Accepted branch) :
    Clean (sitesOfEntry path (key, value)) ↔ AcceptedEntry key value := by
  constructor
  · intro clean
    obtain ⟨rest, startsAt⟩ := sitesOfEntry_eq_cons path key value
    have cleanHere : ∀ error, ¬Offends (.entry path key value) error := by
      rw [startsAt] at clean
      exact (clean_cons.1 clean).1
    by_cases isChoice : key = "choice"
    · subst isChoice
      obtain ⟨branches, rfl⟩ : ∃ branches, value = .array branches := by
        by_contra notList
        exact cleanHere _ (.choiceNotList fun branches isList => notList ⟨branches, isList⟩)
      rw [sitesOfEntry_choice, clean_cons, clean_sitesOfBranches _ (belowBranches _ rfl)] at clean
      refine .choice ?_ clean.2
      rintro rfl
      exact cleanHere _ .choiceEmpty
    · rw [sitesOfEntry_of_ne isChoice, clean_cons, below] at clean
      by_cases isRelation : RelationKey key
      · exact .related isRelation clean.2
      · by_cases isClass : ClassKey key
        · exact .constraint isClass clean.2
        · exact absurd (.unknownRelation isChoice isRelation isClass) (cleanHere _)
  · intro accepted
    cases accepted with
    | choice notEmpty accepted =>
      rw [sitesOfEntry_choice, clean_cons, clean_sitesOfBranches _ (belowBranches _ rfl)]
      exact ⟨not_offends_choice notEmpty, accepted⟩
    | related isRelation accepted =>
      have notChoice : key ≠ "choice" := fun same => not_relationKey_choice (same ▸ isRelation)
      rw [sitesOfEntry_of_ne notChoice, clean_cons, below]
      exact ⟨not_offends_entry notChoice (.inl isRelation), accepted⟩
    | constraint isClass accepted =>
      rw [sitesOfEntry_of_ne isClass.1, clean_cons, below]
      exact ⟨not_offends_entry isClass.1 (.inr isClass), accepted⟩

theorem clean_sitesOfEntries (path : String) (entries : List (String × Json))
    (below : ∀ entry ∈ entries,
      (Clean (sitesOfEntry path entry) ↔ AcceptedEntry entry.1 entry.2)) :
    Clean (sitesOfEntries path entries) ↔ ∀ entry ∈ entries, AcceptedEntry entry.1 entry.2 := by
  induction entries with
  | nil => exact ⟨fun _ => nofun, fun _ => clean_nil⟩
  | cons entry rest inductionHypothesis =>
    obtain ⟨belowEntry, belowRest⟩ := List.forall_mem_cons.1 below
    rw [sitesOfEntries, clean_append, belowEntry, inductionHypothesis belowRest,
      List.forall_mem_cons]

theorem clean_sites_iff (value : Json) : ∀ path, Clean (sites path value) ↔ Accepted value := by
  induction value using documentInduction with
  | other value notObject =>
    intro path
    constructor
    · intro clean
      cases value with
      | string text => exact .leaf text
      | object entries => exact absurd rfl (notObject entries)
      | _ => exact absurd (.wrongKind nofun notObject) ((clean_cons.1 clean).1 _)
    · intro accepted
      cases accepted with
      | leaf className =>
        exact (settles_ofJson (.string className) path).ok_iff.1 ⟨.leaf className, rfl⟩
      | object => exact absurd rfl (notObject _)
  | object entries inductionHypothesis =>
    intro path
    have below := clean_sitesOfEntries path entries fun entry listed =>
      clean_sitesOfEntry path entry.1 entry.2 (inductionHypothesis entry.1 entry.2 listed).1
        (inductionHypothesis entry.1 entry.2 listed).2
    rw [sites, clean_cons, below]
    constructor
    · rintro ⟨cleanHere, accepted⟩
      refine .object ?_ accepted
      rintro rfl
      exact cleanHere _ .emptyObject
    · intro accepted
      cases accepted with
      | object notEmpty accepted => exact ⟨not_offends_object notEmpty, accepted⟩

/-! ## The tree that is read -/

theorem ofBranches_path_iff (branches : List Json)
    (below : ∀ branch ∈ branches, ∀ path other tree,
      ofJson path branch = .ok tree ↔ ofJson other branch = .ok tree) :
    ∀ path other index trees,
      ofBranches path index branches = .ok trees ↔ ofBranches other index branches = .ok trees := by
  induction branches with
  | nil =>
    intro path other index trees
    rw [ofBranches, ofBranches]
  | cons branch rest inductionHypothesis =>
    intro path other index trees
    obtain ⟨belowBranch, belowRest⟩ := List.forall_mem_cons.1 below
    simp only [ofBranches_cons, bind_eq_ok,
      belowBranch (Path.item path index) (Path.item other index),
      inductionHypothesis belowRest path other]

theorem ofEntry_path_iff (path other key : String) (value : Json)
    (below : ∀ path other tree, ofJson path value = .ok tree ↔ ofJson other value = .ok tree)
    (belowBranches : ∀ branches, value = .array branches → ∀ branch ∈ branches,
      ∀ path other tree, ofJson path branch = .ok tree ↔ ofJson other branch = .ok tree)
    (part : Pattern) :
    ofEntry path key value = .ok part ↔ ofEntry other key value = .ok part := by
  rw [ofEntry.eq_def, ofEntry.eq_def]
  have sameChild := below (Path.key path key) (Path.key other key)
  cases Key.of key with
  | alternatives =>
    cases value with
    | array branches =>
      cases branches with
      | nil => exact ⟨nofun, nofun⟩
      | cons branch rest =>
        have sameBranches := ofBranches_path_iff (branch :: rest) (belowBranches _ rfl)
          (Path.key path key) (Path.key other key) 0
        simp only [List.isEmpty_cons, Bool.false_eq_true, if_false, map_eq_ok, sameBranches]
    | _ => exact ⟨nofun, nofun⟩
  | related relation quantifier => simp only [map_eq_ok, sameChild]
  | unknown => exact ⟨nofun, nofun⟩
  | constraint => simp only [map_eq_ok, sameChild]

theorem ofEntries_path_iff (path other : String) (entries : List (String × Json))
    (below : ∀ entry ∈ entries, ∀ part,
      ofEntry path entry.1 entry.2 = .ok part ↔ ofEntry other entry.1 entry.2 = .ok part) :
    ∀ parts, ofEntries path entries = .ok parts ↔ ofEntries other entries = .ok parts := by
  induction entries with
  | nil =>
    intro parts
    rw [ofEntries, ofEntries]
  | cons entry rest inductionHypothesis =>
    intro parts
    obtain ⟨belowEntry, belowRest⟩ := List.forall_mem_cons.1 below
    simp only [ofEntries_cons, bind_eq_ok, belowEntry, inductionHypothesis belowRest]

theorem ofJson_path_iff (value : Json) :
    ∀ path other tree, ofJson path value = .ok tree ↔ ofJson other value = .ok tree := by
  induction value using documentInduction with
  | other value notObject =>
    intro path other tree
    cases value with
    | string text => rw [ofJson, ofJson]
    | object entries => exact absurd rfl (notObject entries)
    | _ => exact ⟨nofun, nofun⟩
  | object entries inductionHypothesis =>
    intro path other tree
    have sameParts := ofEntries_path_iff path other entries fun entry listed =>
      ofEntry_path_iff path other entry.1 entry.2 (inductionHypothesis entry.1 entry.2 listed).1
        (inductionHypothesis entry.1 entry.2 listed).2
    rw [ofJson, ofJson]
    split
    next => exact ⟨nofun, nofun⟩
    next => simp only [map_eq_ok, sameParts]

/-- The tree writes the value, and has neither an empty choice nor a conjunction of one part. -/
def Restores (value : Json) (tree : Pattern) : Prop := tree.toJson = value ∧ Proper tree

theorem branchesToJson_eq {branches : List Json} {trees : List Pattern}
    (restored : List.Forall₂ Restores branches trees) :
    branchesToJson trees = branches ∧ ∀ tree ∈ trees, Proper tree := by
  induction restored with
  | nil => exact ⟨by rw [branchesToJson], nofun⟩
  | cons first _ inductionHypothesis =>
    rw [branchesToJson, first.1, inductionHypothesis.1, List.forall_mem_cons]
    exact ⟨rfl, first.2, inductionHypothesis.2⟩

theorem partsToEntries_eq {entries : List (String × Json)} {parts : List Pattern}
    (restored : List.Forall₂ (fun entry => Restores (.object [entry])) entries parts) :
    partsToEntries parts = entries ∧ ∀ part ∈ parts, Proper part := by
  induction restored with
  | nil => exact ⟨by rw [partsToEntries], nofun⟩
  | cons first _ inductionHypothesis =>
    rw [partsToEntries, first.1, inductionHypothesis.1, List.forall_mem_cons]
    exact ⟨rfl, first.2, inductionHypothesis.2⟩

theorem restores_ofBranches (branches : List Json)
    (below : ∀ branch ∈ branches, ∀ path tree, ofJson path branch = .ok tree →
      Restores branch tree) :
    ∀ path index trees, ofBranches path index branches = .ok trees →
      List.Forall₂ Restores branches trees := by
  induction branches with
  | nil =>
    intro path index trees read
    rw [ofBranches] at read
    obtain rfl := Except.ok.inj read
    exact .nil
  | cons branch rest inductionHypothesis =>
    intro path index trees read
    obtain ⟨belowBranch, belowRest⟩ := List.forall_mem_cons.1 below
    rw [ofBranches_cons] at read
    obtain ⟨first, firstRead, read⟩ := bind_eq_ok.1 read
    obtain ⟨others, othersRead, read⟩ := bind_eq_ok.1 read
    obtain rfl := Except.ok.inj read
    exact .cons (belowBranch _ _ firstRead) (inductionHypothesis belowRest _ _ _ othersRead)

theorem restores_ofEntry (path key : String) (value : Json)
    (below : ∀ path tree, ofJson path value = .ok tree → Restores value tree)
    (belowBranches : ∀ branches, value = .array branches → ∀ branch ∈ branches,
      ∀ path tree, ofJson path branch = .ok tree → Restores branch tree)
    {part : Pattern} (read : ofEntry path key value = .ok part) :
    Restores (.object [(key, value)]) part := by
  cases readsEntry_of_eq_ok read with
  | @choice branches trees isChoice isList notEmpty branchesRead =>
    subst isChoice isList
    have restored := restores_ofBranches branches (belowBranches _ rfl) _ _ _ branchesRead
    obtain ⟨written, proper⟩ := branchesToJson_eq restored
    refine ⟨by rw [toJson, written], .choice ?_ proper⟩
    rintro rfl
    cases restored
    exact notEmpty rfl
  | related isRelated childRead =>
    obtain ⟨written, proper⟩ := below _ _ childRead
    exact ⟨by rw [toJson, written, isRelated], .related proper⟩
  | constraint isClass childRead =>
    obtain ⟨written, proper⟩ := below _ _ childRead
    exact ⟨by rw [toJson, written], .constraint proper⟩

theorem restores_ofEntries (path : String) (entries : List (String × Json))
    (below : ∀ entry ∈ entries, ∀ part, ofEntry path entry.1 entry.2 = .ok part →
      Restores (.object [entry]) part) :
    ∀ parts, ofEntries path entries = .ok parts →
      List.Forall₂ (fun entry => Restores (.object [entry])) entries parts := by
  induction entries with
  | nil =>
    intro parts read
    rw [ofEntries] at read
    obtain rfl := Except.ok.inj read
    exact .nil
  | cons entry rest inductionHypothesis =>
    intro parts read
    obtain ⟨belowEntry, belowRest⟩ := List.forall_mem_cons.1 below
    rw [ofEntries_cons] at read
    obtain ⟨first, firstRead, read⟩ := bind_eq_ok.1 read
    obtain ⟨others, othersRead, read⟩ := bind_eq_ok.1 read
    obtain rfl := Except.ok.inj read
    exact .cons (belowEntry _ firstRead) (inductionHypothesis belowRest _ othersRead)

theorem restores_conjunction {entries : List (String × Json)} {parts : List Pattern}
    (notEmpty : entries ≠ [])
    (restored : List.Forall₂ (fun entry => Restores (.object [entry])) entries parts) :
    Restores (.object entries) (conjunction parts) := by
  obtain ⟨written, proper⟩ := partsToEntries_eq restored
  cases restored with
  | nil => exact absurd rfl notEmpty
  | cons first rest =>
    cases rest with
    | nil => exact first
    | cons second rest =>
      refine ⟨?_, Proper.all (by simp) proper⟩
      change (all _).toJson = _
      rw [toJson, written]

theorem restores_ofJson (value : Json) :
    ∀ path tree, ofJson path value = .ok tree → Restores value tree := by
  induction value using documentInduction with
  | other value notObject =>
    intro path tree read
    cases value with
    | string text =>
      rw [ofJson] at read
      obtain rfl := Except.ok.inj read
      exact ⟨by rw [toJson], .leaf text⟩
    | object entries => exact absurd rfl (notObject entries)
    | _ => contradiction
  | object entries inductionHypothesis =>
    intro path tree read
    rw [ofJson] at read
    split at read
    next => contradiction
    next notEmpty =>
      obtain ⟨parts, partsRead, rfl⟩ := map_eq_ok.1 read
      refine restores_conjunction (fun isEmpty => notEmpty (List.isEmpty_iff.2 isEmpty)) ?_
      exact restores_ofEntries path entries (fun entry listed part =>
        restores_ofEntry path entry.1 entry.2 (inductionHypothesis entry.1 entry.2 listed).1
          (inductionHypothesis entry.1 entry.2 listed).2) parts partsRead

/-! ## Documents -/

/-- What reading a value as a pattern does, at any path. -/
structure ReadsDocument (value : Json) : Prop where
  accepted : ∀ path, (∃ tree, ofJson path value = .ok tree) ↔ Accepted value
  faults : ∀ path error, ofJson path value = .error error ↔ FirstOffence (sites path value) error
  samePlace : ∀ path other tree, ofJson path value = .ok tree → ofJson other value = .ok tree
  proper : ∀ path tree, ofJson path value = .ok tree → Proper tree
  determines : ∀ path other otherValue tree, ofJson path value = .ok tree →
    ofJson other otherValue = .ok tree → value = otherValue

theorem readsDocument (value : Json) : ReadsDocument value where
  accepted path := (settles_ofJson value path).ok_iff.trans (clean_sites_iff value path)
  faults path error := (settles_ofJson value path).error_iff error
  samePlace path other tree := (ofJson_path_iff value path other tree).1
  proper path tree read := (restores_ofJson value path tree read).2
  determines path other otherValue tree read otherRead :=
    (restores_ofJson value path tree read).1.symm.trans
      (restores_ofJson otherValue other tree otherRead).1

example : ofJson "definitions.zone"
    (.object [("VAV", .string "Zone"), ("choice", .array [.object [("hasPart?", .null)]]),
      ("feeds", .object [])]) =
    .error (.of (.invalidPattern "definitions.zone.choice[0].hasPart?"
      "expected a class name or pattern object, found null")) := by
  rfl

end BuildingRules.Pattern
