import BuildingRules.Pattern.Form

/-!
# The first offence

An outcome settles some places when it is a result if none of them offends, and otherwise the error
of the first that does. Outcomes are put together as their places are.
-/

set_option autoImplicit false

namespace BuildingRules.Pattern

/-! ## Offences -/

theorem Offends.unique {site : Site} {error other : Error} (offends : Offends site error)
    (offendsToo : Offends site other) : error = other := by
  cases offends with
  | wrongKind _ notObject =>
    cases offendsToo with
    | wrongKind => rfl
    | emptyObject => exact absurd rfl (notObject [])
  | emptyObject =>
    cases offendsToo with
    | wrongKind _ notObject => exact absurd rfl (notObject [])
    | emptyObject => rfl
  | choiceNotList notList =>
    cases offendsToo with
    | choiceNotList => rfl
    | choiceEmpty => exact absurd rfl (notList [])
    | unknownRelation notChoice => exact absurd rfl notChoice
  | choiceEmpty =>
    cases offendsToo with
    | choiceNotList notList => exact absurd rfl (notList [])
    | choiceEmpty => rfl
    | unknownRelation notChoice => exact absurd rfl notChoice
  | unknownRelation notChoice =>
    cases offendsToo with
    | choiceNotList => exact absurd rfl notChoice
    | choiceEmpty => exact absurd rfl notChoice
    | unknownRelation => rfl

theorem clean_nil : Clean [] := nofun

theorem clean_cons {site : Site} {rest : List Site} :
    Clean (site :: rest) ↔ (∀ error, ¬Offends site error) ∧ Clean rest :=
  List.forall_mem_cons

theorem clean_append {first second : List Site} :
    Clean (first ++ second) ↔ Clean first ∧ Clean second :=
  List.forall_mem_append

theorem FirstOffence.not_clean {places : List Site} {error : Error}
    (isFirst : FirstOffence places error) : ¬Clean places := by
  obtain ⟨before, site, after, rfl, -, offends⟩ := isFirst
  exact fun clean => clean site (by simp) error offends

theorem FirstOffence.append {first second : List Site} {error : Error}
    (isFirst : FirstOffence first error) : FirstOffence (first ++ second) error := by
  obtain ⟨before, site, after, rfl, clean, offends⟩ := isFirst
  exact ⟨before, site, after ++ second, by simp, clean, offends⟩

theorem FirstOffence.after {first second : List Site} {error : Error} (clean : Clean first)
    (isFirst : FirstOffence second error) : FirstOffence (first ++ second) error := by
  obtain ⟨before, site, after, rfl, cleanBefore, offends⟩ := isFirst
  exact ⟨first ++ before, site, after, by simp, clean_append.2 ⟨clean, cleanBefore⟩, offends⟩

theorem firstOffence_cons {place : Site} {rest : List Site} {error : Error} :
    FirstOffence (place :: rest) error ↔
      Offends place error ∨ (∀ other, ¬Offends place other) ∧ FirstOffence rest error :=
  exists_split_cons (fun site => ∀ other, ¬Offends site other) fun _ site => Offends site error

theorem FirstOffence.unique {places : List Site} {error other : Error}
    (isFirst : FirstOffence places error) (isFirstToo : FirstOffence places other) :
    error = other := by
  induction places with
  | nil => exact absurd clean_nil isFirst.not_clean
  | cons place rest inductionHypothesis =>
    rcases firstOffence_cons.1 isFirst with offends | ⟨clean, isFirst⟩
    · rcases firstOffence_cons.1 isFirstToo with offendsToo | ⟨clean, _⟩
      · exact offends.unique offendsToo
      · exact absurd offends (clean error)
    · rcases firstOffence_cons.1 isFirstToo with offends | ⟨_, isFirstToo⟩
      · exact absurd offends (clean other)
      · exact inductionHypothesis isFirst isFirstToo

/-- There is a result if no place offends, and otherwise the error of the first that does. -/
def Settles {Result : Type} (places : List Site) : Except Error Result → Prop
  | .ok _ => Clean places
  | .error error => FirstOffence places error

namespace Settles

variable {Value Result : Type} {places first second : List Site} {site : Site}

theorem ok_iff {outcome : Except Error Result} (settles : Settles places outcome) :
    (∃ result, outcome = .ok result) ↔ Clean places := by
  cases outcome with
  | ok result => exact ⟨fun _ => settles, fun _ => ⟨result, rfl⟩⟩
  | error error => exact ⟨nofun, fun clean => absurd clean (FirstOffence.not_clean settles)⟩

theorem error_iff {outcome : Except Error Result} (settles : Settles places outcome)
    (error : Error) : outcome = .error error ↔ FirstOffence places error := by
  cases outcome with
  | ok result => exact ⟨nofun, fun isFirst => absurd settles isFirst.not_clean⟩
  | error other =>
    constructor
    · intro same
      obtain rfl := Except.error.inj same
      exact settles
    · intro isFirst
      rw [FirstOffence.unique isFirst settles]

theorem map {outcome : Except Error Value} (change : Value → Result)
    (settles : Settles places outcome) : Settles places (outcome.map change) := by
  cases outcome with
  | ok value => exact settles
  | error error => exact settles

theorem bind {outcome : Except Error Value} {next : Value → Except Error Result}
    (settles : Settles first outcome) (settlesNext : ∀ value, Settles second (next value)) :
    Settles (first ++ second) (outcome >>= next) := by
  cases outcome with
  | error error => exact FirstOffence.append settles
  | ok value =>
    have settlesSecond := settlesNext value
    change Settles (first ++ second) (next value)
    cases isNext : next value with
    | ok result =>
      rw [isNext] at settlesSecond
      exact clean_append.2 ⟨settles, settlesSecond⟩
    | error error =>
      rw [isNext] at settlesSecond
      exact FirstOffence.after settles settlesSecond

theorem offends {error : Error} (isOffence : Offends site error) :
    Settles (site :: places) (.error error : Except Error Result) :=
  ⟨[], site, places, rfl, clean_nil, isOffence⟩

theorem cons {outcome : Except Error Result} (clean : ∀ error, ¬Offends site error)
    (settles : Settles places outcome) : Settles (site :: places) outcome := by
  have alone : Clean [site] := clean_cons.2 ⟨clean, clean_nil⟩
  cases outcome with
  | ok result => exact clean_append.2 ⟨alone, settles⟩
  | error error => exact FirstOffence.after alone settles

end Settles

theorem not_offends_object {path : String} {entries : List (String × Json)}
    (notEmpty : entries ≠ []) (error : Error) : ¬Offends (.value path (.object entries)) error := by
  rintro offends
  cases offends with
  | wrongKind _ notObject => exact notObject entries rfl
  | emptyObject => exact notEmpty rfl

theorem not_offends_choice {path : String} {branches : List Json} (notEmpty : branches ≠ [])
    (error : Error) : ¬Offends (.entry path "choice" (.array branches)) error := by
  rintro offends
  cases offends with
  | choiceNotList notList => exact notList branches rfl
  | choiceEmpty => exact notEmpty rfl
  | unknownRelation notChoice => exact notChoice rfl

theorem not_offends_entry {path key : String} {value : Json} (notChoice : key ≠ "choice")
    (known : RelationKey key ∨ ClassKey key) (error : Error) :
    ¬Offends (.entry path key value) error := by
  rintro offends
  cases offends with
  | choiceNotList => exact notChoice rfl
  | choiceEmpty => exact notChoice rfl
  | unknownRelation _ notRelation notClass => exact known.elim notRelation notClass

end BuildingRules.Pattern
