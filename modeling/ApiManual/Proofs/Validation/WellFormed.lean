import ApiManual.Proofs.Results
import ApiManual.Proofs.Validation.Accepted

/-!
# What holds of every description

A description that has been accepted keeps to all the rules, at every depth: in whatever way it
was given, its id is not blank, its tables of paths and catalogs have the names they may have,
and what is known by a name in a resource has a name of its own.

The rules are spread over the checks of the parts.  So there is one lemma for each part, from the
innermost one outwards: a part that is accepted is well-formed.
-/

namespace ApiManual

open Validation Checked

/-- A name has at least one character, and no white space in it. -/
def Name.IsName (s : String) : Prop := s ≠ "" ∧ ∀ c ∈ s.toList, Text.isBlank c = false

theorem Name.isName_iff {s : String} : IsName s ↔ isValid s.toList = true := by
  simp only [IsName, isValid, Bool.and_eq_true, Bool.not_eq_true', List.isEmpty_eq_false_iff,
    List.any_eq_false, Bool.not_eq_true, ne_eq, String.toList_eq_nil_iff]

/-- What holds of the actions and queries of a resource. -/
structure Resource.IsWellFormed (r : Resource) : Prop where
  actionNames : ∀ a ∈ r.actions, Name.IsName a.name
  actionsDiffer : (r.actions.map Action.name).Nodup
  queriesDiffer : (r.queries.map Query.key).Nodup
  queryIds : ∀ q ∈ r.queries, q.type = .id → ∃ id, q.queryId = some id ∧ id ≠ ""

/-- What holds of a table of paths.  It is of one shape, and not of none. -/
inductive PathTable.IsWellFormed : PathTable → Prop where
  | flat {entries : List (String × Resource)} (paths : ∀ e ∈ entries, e.1 ≠ "")
      (resources : ∀ e ∈ entries, e.2.IsWellFormed) : IsWellFormed (.flat entries)
  | versioned {entries : List (String × Versions)} (paths : ∀ e ∈ entries, e.1 ≠ "")
      (filled : ∀ e ∈ entries, e.2 ≠ [])
      (versions : ∀ e ∈ entries, ∀ version ∈ e.2,
        version.1 ≠ "" ∧ version.1 ∉ Resource.fieldNames ∧ version.2.IsWellFormed) :
      IsWellFormed (.versioned entries)

/-- What holds of the names of a catalog. -/
structure Catalog.IsWellFormed {α : Type} (c : Catalog α) : Prop where
  filled : c ≠ []
  names : ∀ e ∈ c, Name.IsName e.1

/-- What holds of a description. -/
structure Description.IsWellFormed (d : Description) : Prop where
  id : ∃ c ∈ d.id.toList, Text.isBlank c = false
  paths : ∀ t, d.paths = some t → t.IsWellFormed
  definitions : ∀ c, d.definitions = some c → c.IsWellFormed
  errors : ∀ c, d.errors = some c → c.IsWellFormed

/-! ## Resources -/

theorem Action.isName_of_check {v : Value} {a : Action} (h : Action.check v = .good a) :
    Name.IsName a.name := by
  obtain ⟨es, -, -, name, -⟩ := Action.check_eq_good_iff.1 h
  obtain ⟨-, w, -, read⟩ := Field.exists_of_required name
  obtain ⟨-, valid⟩ := obeying_eq_good_iff.1 read
  exact Name.isName_iff.2 (Action.brokenName?_eq_none_iff.1 valid)

theorem Resource.isWellFormed_of_check {v : Value} {r : Resource}
    (h : Resource.check v = .good r) : r.IsWellFormed := by
  obtain ⟨⟨es, -, read⟩, names⟩ := Resource.check_eq_good_iff.1 h
  refine ⟨fun a mem => ?name, names.actions, names.queries, fun q mem => ?query⟩
  case name =>
    rcases Field.eq_or_exists_of_defaulted read.actions with none | ⟨-, w, -, given⟩
    · rw [none] at mem
      cases mem
    · obtain ⟨w, good⟩ := exists_of_mem_list given mem
      exact Action.isName_of_check good
  case query =>
    rcases Field.eq_or_exists_of_defaulted read.queries with none | ⟨-, w, -, given⟩
    · rw [none] at mem
      cases mem
    · obtain ⟨w, good⟩ := exists_of_mem_list given mem
      exact Query.brokenId?_eq_none_iff.1 (Query.check_eq_good_iff.1 good).2

/-! ## Tables -/

/-- The versions of a path are those that made it a path with versions. -/
theorem Versions.isWellFormed_of_check {v : Value} {vs : Versions}
    (versioned : (PathEntry.given v).isVersioned = true) (h : Versions.check v = .good vs) :
    vs ≠ [] ∧ ∀ version ∈ vs,
      version.1 ≠ "" ∧ version.1 ∉ Resource.fieldNames ∧ version.2.IsWellFormed := by
  obtain ⟨good, named⟩ := Versions.check_eq_good_iff.1 h
  obtain ⟨es, hv, each⟩ := mapping_eq_good_iff.1 good
  have hv := PathEntry.entriesOf?_of_isVersioned versioned hv
  obtain ⟨filled, others⟩ := (PathEntry.isVersioned_given_iff hv).1 versioned
  constructor
  · rintro rfl
    exact filled (List.forall₂_nil_right_iff.1 each)
  · intro version mem
    obtain ⟨w, given, read⟩ := exists_of_mem_entries each mem
    refine ⟨?_, others _ given, Resource.isWellFormed_of_check read⟩
    intro empty
    have filled := named version mem
    rw [empty] at filled
    cases filled

theorem PathTable.isWellFormed_of_check {v : Value} {t : PathTable}
    (h : PathTable.check v = .good t) : t.IsWellFormed := by
  have nonempty {s : String} (h : s.isEmpty = false) : s ≠ "" := by
    rintro rfl
    cases h
  obtain ⟨es, -, read⟩ := PathTable.check_eq_good_iff.1 h
  cases read with
  | flat plain good named =>
    refine .flat (fun e mem => nonempty (named e mem)) fun e mem => ?_
    obtain ⟨w, -, read⟩ := exists_of_mem_entries (entries_eq_good_iff.1 good) mem
    exact Resource.isWellFormed_of_check read
  | versioned filled versions good named =>
    refine .versioned (fun e mem => nonempty (named e mem)) (fun e mem => ?_) fun e mem => ?_
    · obtain ⟨w, given, read⟩ := exists_of_mem_entries (entries_eq_good_iff.1 good) mem
      exact (Versions.isWellFormed_of_check (versions _ given) read).1
    · obtain ⟨w, given, read⟩ := exists_of_mem_entries (entries_eq_good_iff.1 good) mem
      exact (Versions.isWellFormed_of_check (versions _ given) read).2

theorem Catalog.isWellFormed_of_check {α : Type} [CatalogEntry α] {v : Value} {c : Catalog α}
    (h : Catalog.check v = .good c) : c.IsWellFormed := by
  obtain ⟨-, filled, names⟩ := Catalog.check_eq_good_iff.1 h
  exact ⟨filled, fun e mem => Name.isName_iff.2 (names e mem)⟩

/-! ## Descriptions -/

theorem Description.isWellFormed_of_check {v : Value} {d : Description}
    (h : Description.check v = .good d) : d.IsWellFormed := by
  obtain ⟨es, -, read⟩ := Description.check_eq_good_iff.1 h
  refine ⟨?id, fun t given => ?paths, fun c given => ?definitions, fun c given => ?errors⟩
  case id =>
    obtain ⟨-, w, -, good⟩ := Field.exists_of_required read.id
    exact Description.brokenId?_eq_none_iff.1 (obeying_eq_good_iff.1 good).2
  case paths =>
    obtain ⟨-, w, -, good⟩ := Field.exists_of_optional (given ▸ read.paths)
    exact PathTable.isWellFormed_of_check good
  case definitions =>
    obtain ⟨-, w, -, good⟩ := Field.exists_of_optional (given ▸ read.definitions)
    exact Catalog.isWellFormed_of_check good
  case errors =>
    obtain ⟨-, w, -, good⟩ := Field.exists_of_optional (given ▸ read.errors)
    exact Catalog.isWellFormed_of_check good

namespace Descriptor

/-- **Whatever is accepted is well-formed**, be it read from a file or given as a value. -/
theorem isWellFormed_of_accepted (d : Description)
    (accepted : (∃ disk path, ofFile disk path = .ok d) ∨ ∃ v, ofValue v = .ok d) :
    d.IsWellFormed := by
  have given {v : Value} (h : ofValue v = .ok d) : d.IsWellFormed :=
    Description.isWellFormed_of_check (ofValue_eq_ok_iff.1 h).2
  rcases accepted with ⟨disk, path, h⟩ | ⟨v, h⟩
  · obtain ⟨text, -, h⟩ := Result.bind_eq_ok h
    obtain ⟨v, -, h⟩ := Result.bind_eq_ok h
    exact given h
  · exact given h

/-- A descriptor with versions, an action and queries. -/
def versionedPets : String :=
  "id: pets\npaths:\n  /pets:\n    v1:\n      actions: [\x7bname: feed\x7d]\n" ++
  "      queries: [\x7btype: FILTER\x7d, \x7btype: ID, queryId: tag\x7d]\n"

/-- A descriptor with versions is well-formed when it has been read from a file. -/
theorem isWellFormed_of_versionedPets : ∃ d,
    ofFile ⟨[(["pets.yaml"], .file versionedPets)]⟩ ⟨["pets.yaml"]⟩ = .ok d ∧ d.IsWellFormed := by
  have accepted : (ofFile ⟨[(["pets.yaml"], .file versionedPets)]⟩
      ⟨["pets.yaml"]⟩).toOption.isSome = true := by decide +kernel
  cases read : ofFile ⟨[(["pets.yaml"], .file versionedPets)]⟩ ⟨["pets.yaml"]⟩ with
  | error fault =>
    rw [read] at accepted
    cases accepted
  | ok d => exact ⟨d, rfl, isWellFormed_of_accepted d (.inl ⟨_, _, read⟩)⟩

end Descriptor
end ApiManual
