import ApiManual.Proofs.Validation.Meaning

/-!
# What tables and descriptions come to

Resources have rows of actions and queries, and a description has tables: of paths, of the
versions of a path, and its two catalogs.  For each of them it is shown here that two agree
as soon as what stands in them does.

A rule of theirs looks at nothing but names, or at whether entries have versions, and both
are the same for entries that match (`PathTable.forall_isVersioned_congr`).  So the checks of
two tables of paths go the same way.
-/

namespace ApiManual

open Validation Checked

variable {α : Type} {v v' : Value} {es es' : List (String × Value)}

/-! ## Resources -/

/-- Names are all different in both of them or in none. -/
theorem Resource.Permuted.namesDiffer_iff {r r' : Resource} (h : r.Permuted r') :
    (r.NamesDiffer fun name => name) ↔ r'.NamesDiffer fun name => name :=
  ⟨fun names => ⟨(h.actions.map _).nodup_iff.1 names.actions,
    (h.queries.map _).nodup_iff.1 names.queries⟩,
  fun names => ⟨(h.actions.map _).nodup_iff.2 names.actions,
    (h.queries.map _).nodup_iff.2 names.queries⟩⟩

/-- Two resources of which nothing differs but actions and queries, which are related. -/
structure Resource.SameBut (P : List Action → List Action → Prop)
    (Q : List Query → List Query → Prop) (r r' : Resource) : Prop where
  same : r' = { r with actions := r'.actions, queries := r'.queries }
  actions : P r.actions r'.actions
  queries : Q r.queries r'.queries

/-- Relations that are as strict as the checks of scalars, schemas and operations. -/
def IsStrict (A : Role → Value → Value → Prop) : Prop :=
  ∀ role ∈ [Role.other, .schema, .operation], ∀ v v', A role v v' → AgreeAs role v v'

/-- **Resources agree if their fields do**, with their rows related as these are. -/
theorem Resource.check_agree_rows {A : Role → Value → Value → Prop}
    {P : List Action → List Action → Prop} {Q : List Query → List Query → Prop}
    (strict : IsStrict A) (noActions : P [] []) (noQueries : Q [] [])
    (actions : ∀ v v', A .actions v v' → Agree P (list Action.check v) (list Action.check v'))
    (queries : ∀ v v', A .queries v v' → Agree Q (list Query.check v) (list Query.check v'))
    (alike : ∀ r r', SameBut P Q r r' →
      (r.brokenUniqueness? = none ↔ r'.brokenUniqueness? = none))
    (hv : entriesOf? v = some es) (hv' : entriesOf? v' = some es')
    (h : FieldsMatch A .resource es es') :
    Agree (fun r r' => SameBut P Q r r' ∧ r.brokenUniqueness? = none) (Resource.check v)
      (Resource.check v') := by
  have scalar (v v' : Value) (found : A .other v v') : Agree Eq (text v) (text v') :=
    agree_of_isShallow isFlat_text.isShallow v v' (strict _ (by decide) _ _ found)
  have schema (v v' : Value) (found : A .schema v v') :
      Agree Eq (Schema.check v) (Schema.check v') :=
    agree_schema v v' (strict _ (by decide) _ _ found)
  have operation (v v' : Value) (found : A .operation v v') : OperationsAgree v v' :=
    strict .operation (by decide) v v' found
  refine Agree.obeying (h.record hv hv' (by decide)
    (.seq (R := Q) (.seq (R := P)
      (.seq_same (.seq_same (.seq_same (.seq_same (.seq_same (.seq_same (.seq_same
        (.map_same ?rows ?title) ?description) ?schema) ?create) ?read) ?update) ?delete) ?patch)
      ?actions) ?queries)) alike
  case title => exact h.optional_eq (by decide) scalar
  case description => exact h.optional_eq (by decide) scalar
  case schema => exact h.optional_eq (by decide) schema
  case create => exact h.optional_eq (by decide) fun v v' found => (operation v v' found).create
  case read => exact h.optional_eq (by decide) fun v v' found => (operation v v' found).read
  case update => exact h.optional_eq (by decide) fun v v' found => (operation v v' found).update
  case delete => exact h.optional_eq (by decide) fun v v' found => (operation v v' found).delete
  case patch => exact h.optional_eq (by decide) fun v v' found => (operation v v' found).patch
  case actions => exact h.defaulted (by decide) noActions actions
  case queries => exact h.defaulted (by decide) noQueries queries
  case rows =>
    intro title description schema create read update delete patch actions actions' sameActions
      queries queries' sameQueries
    exact ⟨rfl, sameActions, sameQueries⟩

theorem isStrict_agreeAs : IsStrict AgreeAs := fun _ _ _ _ found => found

/-- **Resources agree up to the order of actions and queries.** -/
theorem Resource.check_agree (hv : entriesOf? v = some es) (hv' : entriesOf? v' = some es')
    (h : FieldsMatch AgreeAs .resource es es') :
    Agree Resource.Rearranged (Resource.check v) (Resource.check v') := by
  have permuted {r r' : Resource} (rows : SameBut List.Perm List.Perm r r') : r.Permuted r' :=
    ⟨rows.same, rows.actions, rows.queries⟩
  have alike (r r' : Resource) (rows : SameBut List.Perm List.Perm r r') :
      r.brokenUniqueness? = none ↔ r'.brokenUniqueness? = none := by
    rw [brokenUniqueness?_eq_none_iff, brokenUniqueness?_eq_none_iff,
      (permuted rows).namesDiffer_iff]
  refine (check_agree_rows isStrict_agreeAs (.refl _) (.refl _) (fun _ _ found => found)
    (fun _ _ found => found) alike hv hv' h).imp fun r r' ⟨rows, whole⟩ => ?_
  exact ⟨permuted rows, brokenUniqueness?_eq_none_iff.1 whole⟩

/-! ## Named entries -/

/-- Entries that correspond have empty names both or none of them. -/
theorem brokenKeys?_congr {β : Type} {R : String → α → β → Prop} {label : String}
    {xs : List (String × α)} {ys : List (String × β)} (h : Corresponds R xs ys) :
    brokenKeys? label xs = none ↔ brokenKeys? label ys = none := by
  rw [brokenKeys?_eq_none_iff, brokenKeys?_eq_none_iff,
    h.forall_names fun name => name.isEmpty = false]

/-- Values of mappings agree as tables if they do under each name. -/
theorem mapping_agree {β : Type} {R : String → Value → Value → Prop} {S : β → β → Prop}
    {check : Value → Checked β} (hv : entriesOf? v = some es) (hv' : entriesOf? v' = some es')
    (h : Corresponds R es es') (each : ∀ name w w', R name w w' → Agree S (check w) (check w')) :
    Agree (Corresponds fun _ => S) (mapping check v) (mapping check v') := by
  rw [mapping, dictionary_of_entries hv, dictionary_of_entries hv']
  exact entries_agree h each

/-- **Versions agree if the resources of each do.** -/
theorem Versions.check_agree (hv : entriesOf? v = some es) (hv' : entriesOf? v' = some es')
    (h : Corresponds (fun _ => Matches .resource) es es') :
    Agree (Corresponds fun _ => Resource.Rearranged) (Versions.check v) (Versions.check v') :=
  (Agree.obeying (mapping_agree hv hv' h fun _ _ _ found => found.agree)
    fun _ _ => brokenKeys?_congr).imp fun _ _ kept => kept.1

/-- **Catalogs agree if their entries do.** -/
theorem Catalog.check_agree [CatalogEntry α] {R : String → Value → Value → Prop}
    (hv : entriesOf? v = some es) (hv' : entriesOf? v' = some es') (h : Corresponds R es es')
    (each : ∀ name w w', R name w w' →
      Agree Eq (CatalogEntry.check w : Checked α) (CatalogEntry.check w')) :
    Agree (Corresponds fun _ (a b : α) => a = b) (Catalog.check v) (Catalog.check v') := by
  have alike (c c' : Catalog α) (same : Corresponds (fun _ (a b : α) => a = b) c c') :
      broken? (CatalogEntry.label α) c = none ↔ broken? (CatalogEntry.label α) c' = none := by
    rw [broken?_eq_none_iff, broken?_eq_none_iff, Ne, same.eq_nil_iff,
      same.forall_names fun name => Name.isValid name.toList = true]
  exact ((mapping_agree hv hv' h each).obeying alike).imp fun _ _ kept => kept.1

/-! ## Tables of paths -/

/-- Paths have versions both or neither if they have the same keys. -/
theorem PathEntry.isVersioned_congr {R : String → Value → Value → Prop}
    (hv : entriesOf? v = some es) (hv' : entriesOf? v' = some es') (h : Corresponds R es es') :
    (given v).isVersioned = (given v').isVersioned := by
  rw [Bool.eq_iff_iff, isVersioned_given_iff hv, isVersioned_given_iff hv', Ne, Ne, h.eq_nil_iff,
    h.forall_names fun name => name ∉ Resource.fieldNames]

/-- **Paths agree if what stands under their keys does**, be these versions or fields. -/
theorem paths_agree (hv : entriesOf? v = some es) (hv' : entriesOf? v' = some es')
    (h : EntriesMatch (Role.path.within v) es es') : PathsAgree v v' where
  shape := PathEntry.isVersioned_congr hv hv' h
  resource plain := by
    rw [Role.within, plain] at h
    exact Resource.check_agree hv hv' (h.fieldsAgree _)
  versions versioned := by
    rw [Role.within, versioned] at h
    exact Versions.check_agree hv hv' h

namespace PathTable

theorem entries_givenEntries (check : PathEntry → Checked α) (es : List (String × Value)) :
    entries check (givenEntries es) = entries (fun v => check (.given v)) es := by
  induction es with
  | nil => rfl
  | cons e rest ih =>
    rw [givenEntries, List.map_cons, entries, entries, ← ih]
    rfl

/-- A table is checked by its shape. -/
theorem check_of_entries (hv : entriesOf? v = some es) :
    PathTable.check v = match shapeOf (givenEntries es) with
      | .mixed names => .refuse (.rule (.mixedPaths names))
      | .flat => (checkFlat (givenEntries es)).map .flat
      | .versioned => (checkVersioned (givenEntries es)).map .versioned := by
  simp only [check, ofValue, hv, ofEntries]
  cases shapeOf (givenEntries es) with
  | mixed names => rfl
  | flat => cases checkFlat (givenEntries es) <;> rfl
  | versioned => cases checkVersioned (givenEntries es) <;> rfl

/-- Two tables of one shape that are related as tables of it. -/
inductive Alike (U : List (String × Resource) → List (String × Resource) → Prop)
    (V : List (String × Versions) → List (String × Versions) → Prop) :
    PathTable → PathTable → Prop
  | flat {rs rs' : List (String × Resource)} (h : U rs rs') : Alike U V (.flat rs) (.flat rs')
  | versioned {vs vs' : List (String × Versions)} (h : V vs vs') :
      Alike U V (.versioned vs) (.versioned vs')

section Shape

variable {R : String → Value → Value → Prop} (h : Corresponds R es es')
  (shape : ∀ name v v', R name v v' →
    (PathEntry.given v).isVersioned = (PathEntry.given v').isVersioned)

include h shape

/-- Where all paths have versions or none of them has, this is so in any order. -/
theorem forall_isVersioned_congr (b : Bool) :
    (∀ e ∈ givenEntries es, e.2.isVersioned = b) ↔ ∀ e ∈ givenEntries es', e.2.isVersioned = b := by
  rw [givenEntries, givenEntries, List.forall_mem_map, List.forall_mem_map]
  refine h.forall_values (P := fun v => (PathEntry.given v).isVersioned = b)
    (Q := fun v => (PathEntry.given v).isVersioned = b) fun name v v' found => ?_
  rw [shape name v v' found]

/-- **Tables of paths agree if they do as tables of their shape.** -/
theorem check_agree_alike {U : List (String × Resource) → List (String × Resource) → Prop}
    {V : List (String × Versions) → List (String × Versions) → Prop}
    (hv : entriesOf? v = some es) (hv' : entriesOf? v' = some es')
    (flat : (∀ e ∈ es, (PathEntry.given e.2).isVersioned = false) →
      Agree U (entries Resource.check es) (entries Resource.check es'))
    (versioned : (∀ e ∈ es, (PathEntry.given e.2).isVersioned = true) →
      Agree V (entries Versions.check es) (entries Versions.check es'))
    (names : ∀ rs rs', U rs rs' → (brokenKeys? "path" rs = none ↔ brokenKeys? "path" rs' = none))
    (names' : ∀ vs vs', V vs vs' →
      (brokenKeys? "path" vs = none ↔ brokenKeys? "path" vs' = none)) :
    Agree (Alike U V) (PathTable.check v) (PathTable.check v') := by
  have allFlat : shapeOf (givenEntries es) = .flat ↔ shapeOf (givenEntries es') = .flat := by
    rw [shapeOf_eq_flat_iff, shapeOf_eq_flat_iff, forall_isVersioned_congr h shape]
  have allVersioned :
      shapeOf (givenEntries es) = .versioned ↔ shapeOf (givenEntries es') = .versioned := by
    rw [shapeOf_eq_versioned_iff, shapeOf_eq_versioned_iff, forall_isVersioned_congr h shape,
      givenEntries, givenEntries, Ne, Ne, List.map_eq_nil_iff, List.map_eq_nil_iff, h.eq_nil_iff]
  rw [check_of_entries hv, check_of_entries hv']
  cases found : shapeOf (givenEntries es) with
  | flat =>
    rw [allFlat.1 found]
    have each := List.forall_mem_map.1 (shapeOf_eq_flat_iff.1 found)
    refine Agree.map (fun _ _ same => .flat same.1) (Agree.obeying ?_ names)
    rw [entries_givenEntries, entries_givenEntries]
    exact flat each
  | versioned =>
    rw [allVersioned.1 found]
    have each := List.forall_mem_map.1 (shapeOf_eq_versioned_iff.1 found).2
    refine Agree.map (fun _ _ same => .versioned same.1) (Agree.obeying ?_ names')
    rw [entries_givenEntries, entries_givenEntries]
    exact versioned each
  | mixed _ =>
    cases found' : shapeOf (givenEntries es') with
    | flat => cases found.symm.trans (allFlat.2 found')
    | versioned => cases found.symm.trans (allVersioned.2 found')
    | mixed _ => exact .refuse _ _

end Shape

/-- **Tables of paths agree if their paths do.** -/
theorem check_agree (h : Corresponds (fun _ => Matches .path) es es')
    (hv : entriesOf? v = some es) (hv' : entriesOf? v' = some es') :
    Agree PathTable.Rearranged (PathTable.check v) (PathTable.check v') := by
  have alike : Agree (Alike (Corresponds fun _ => Resource.Rearranged)
      (Corresponds fun _ => Corresponds fun _ => Resource.Rearranged))
      (PathTable.check v) (PathTable.check v') := by
    refine check_agree_alike h (fun _ _ _ found => found.agree.shape) hv hv' (fun plain => ?_)
      (fun versioned => ?_) (fun _ _ => brokenKeys?_congr) fun _ _ => brokenKeys?_congr
    · have each : Corresponds (fun _ v v' => Matches .path v v' ∧
          (PathEntry.given v).isVersioned = false) es es' :=
        h.imp fun x mem _ found => ⟨found, plain x mem⟩
      exact entries_agree each fun _ _ _ found => found.1.agree.resource found.2
    · have each : Corresponds (fun _ v v' => Matches .path v v' ∧
          (PathEntry.given v).isVersioned = true) es es' :=
        h.imp fun x mem _ found => ⟨found, versioned x mem⟩
      exact entries_agree each fun _ _ _ found => found.1.agree.versions found.2
  refine alike.imp fun t t' alike => ?_
  cases alike with
  | flat same => exact .flat same
  | versioned same => exact .versioned same

end PathTable

/-! ## Descriptions -/

/-- **Descriptions agree if their fields do**, with their tables related as these are. -/
theorem Description.check_agree_tables {A : Role → Value → Value → Prop}
    {P : PathTable → PathTable → Prop} {D : Catalog Schema → Catalog Schema → Prop}
    {E : Catalog ApiError → Catalog ApiError → Prop} (strict : IsStrict A)
    (paths : ∀ v v', A .paths v v' → Agree P (PathTable.check v) (PathTable.check v'))
    (definitions : ∀ v v', A .definitions v v' → Agree D (Catalog.check v) (Catalog.check v'))
    (errors : ∀ v v', A .errors v v' → Agree E (Catalog.check v) (Catalog.check v'))
    (hv : entriesOf? v = some es) (hv' : entriesOf? v' = some es')
    (h : FieldsMatch A .description es es') :
    Agree (fun d d' => d.id = d'.id ∧ d.description = d'.description ∧
      Option.Rel P d.paths d'.paths ∧ Option.Rel D d.definitions d'.definitions ∧
      Option.Rel E d.errors d'.errors) (Description.check v) (Description.check v') := by
  have scalar {β : Type} {check : Value → Checked β} (shallow : IsShallow check) (v v' : Value)
      (found : A .other v v') : Agree Eq (check v) (check v') :=
    agree_of_isShallow shallow v v' (strict _ (by decide) _ _ found)
  refine h.record hv hv' (by decide)
    (.seq (R := Option.Rel E) (.seq (R := Option.Rel D) (.seq (R := Option.Rel P)
      (.seq_same (.map_same ?parts ?id) ?description) ?paths) ?definitions) ?errors)
  case id => exact h.required (by decide) (scalar (isFlat_text.obeying _).isShallow)
  case description => exact h.optional_eq (by decide) (scalar isFlat_text.isShallow)
  case paths => exact h.optional (by decide) paths
  case definitions => exact h.optional (by decide) definitions
  case errors => exact h.optional (by decide) errors
  case parts =>
    intro id description paths paths' samePaths definitions definitions' sameDefinitions errors
      errors' sameErrors
    exact ⟨rfl, rfl, samePaths, sameDefinitions, sameErrors⟩

/-- **Descriptions agree up to the order of their tables.** -/
theorem Description.check_agree (hv : entriesOf? v = some es) (hv' : entriesOf? v' = some es')
    (h : FieldsMatch AgreeAs .description es es') :
    Agree Description.Rearranged (Description.check v) (Description.check v') := by
  refine (check_agree_tables isStrict_agreeAs (fun _ _ found => found) (fun _ _ found => found)
    (fun _ _ found => found) hv hv' h).imp fun d d' same => ?_
  obtain ⟨id, description, paths, definitions, errors⟩ := same
  exact ⟨id, description, paths, definitions, errors⟩

end ApiManual
