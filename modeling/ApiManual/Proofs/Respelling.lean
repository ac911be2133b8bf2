import ApiManual.Proofs.Descriptor
import ApiManual.Proofs.Validation.Spelling

/-!
# Descriptors in other spellings

The fields of records have two spellings, and it does not matter which of them is used, as long
as no record uses both.  `Respelled role v v'` says of two values in one place that they differ in
nothing else.  Which keys are those of a record is known from the place where a mapping stands
(`Role.fields`): the names of paths, versions and entries of catalogs are none, nor are the keys
in the body of a schema.

Values of JSON that differ in such a way spell out the same description, or neither of them spells
out any (`Descriptor.ofValue_of_respelled`).  The proof is an induction over how the values differ,
from the innermost ones outwards, like the one for values in another order; but what is built from
them is the same here, with its rows and tables in the same order (`SameAs`).  Whether a path has
versions is decided from its keys before anything is built from it, and comes to the same in all
spellings, as the names that are looked for are closed under them (`isVersioned_of_rows`).
-/

namespace ApiManual

open Validation Checked

namespace Validation

/-! ## Values that differ in spelling -/

mutual

/-- Two values in one place differ in nothing but the spelling of fields of records. -/
inductive Respelled : Role → Value → Value → Prop
  | same (role : Role) (v : Value) : Respelled role v v
  | list {role : Role} {vs vs' : List Value} (outside : role ≠ .schema)
      (items : RespelledItems role.item vs vs') : Respelled role (.list vs) (.list vs')
  | map {role : Role} {es es' : List (Scalar × Value)} (selected : List Field)
      (outside : role ≠ .schema) (sub : ∀ f ∈ selected, f ∈ (role.within (.map es)).fields)
      (once : SpelledOnce selected (es.map fun e => e.1.plain))
      (entries : RespelledEntries (role.within (.map es)) selected es es') :
      Respelled role (.map es) (.map es')

/-- The same of the items of two lists, one by one. -/
inductive RespelledItems : Role → List Value → List Value → Prop
  | nil (role : Role) : RespelledItems role [] []
  | cons {role : Role} {v v' : Value} {vs vs' : List Value} (first : Respelled role v v')
      (rest : RespelledItems role vs vs') : RespelledItems role (v :: vs) (v' :: vs')

/-- The same of the entries of two mappings, one by one, under keys that may be the other spelling
of a selected field. -/
inductive RespelledEntries :
    Role → List Field → List (Scalar × Value) → List (Scalar × Value) → Prop
  | nil (role : Role) (selected : List Field) : RespelledEntries role selected [] []
  | cons {role : Role} {selected : List Field} {key key' : String} {v v' : Value}
      {es es' : List (Scalar × Value)} (alike : SpelledAlike selected key key')
      (value : Respelled (role.under key) v v') (rest : RespelledEntries role selected es es') :
      RespelledEntries role selected ((.text key, v) :: es) ((.text key', v') :: es')

end

/-- The fields of a record share no spelling. -/
theorem Role.areApart_fields (role : Role) : AreApart role.fields := by
  cases role <;> decide

theorem names_named (es : List (Scalar × Value)) :
    (named es).map Prod.fst = es.map fun e => e.1.plain := by
  rw [named, List.map_map]
  rfl

/-- The entries of such mappings are spelled alike. -/
theorem RespelledEntries.rows : ∀ {role : Role} {selected : List Field}
    {es es' : List (Scalar × Value)}, RespelledEntries role selected es es' →
      RowsAlike selected (fun key => Respelled (role.under key)) (named es) (named es')
  | _, _, _, _, .nil _ _ => .nil
  | _, _, _, _, .cons alike value rest => .cons ⟨alike, value⟩ rest.rows

mutual

/-- **A value of JSON is one in all spellings.** -/
theorem Respelled.isJson {role : Role} {v v' : Value} (h : Respelled role v v')
    (json : v.isJson = true) : v'.isJson = true := by
  cases h with
  | same => exact json
  | list _ items =>
    rw [Value.isJson] at json ⊢
    exact items.areJson json
  | map selected _ sub once entries =>
    rw [Value.isJson, Bool.and_eq_true, decide_eq_true_eq] at json ⊢
    refine ⟨entries.areJson json.1, ?_⟩
    rw [← names_named] at once json ⊢
    exact entries.rows.nodup (Role.areApart_fields _) sub json.2 once

theorem RespelledItems.areJson {role : Role} {vs vs' : List Value}
    (h : RespelledItems role vs vs') (json : Value.itemsAreJson vs = true) :
    Value.itemsAreJson vs' = true := by
  cases h with
  | nil => exact json
  | cons first rest =>
    rw [Value.itemsAreJson, Bool.and_eq_true] at json ⊢
    exact ⟨first.isJson json.1, rest.areJson json.2⟩

theorem RespelledEntries.areJson {role : Role} {selected : List Field}
    {es es' : List (Scalar × Value)} (h : RespelledEntries role selected es es')
    (json : Value.entriesAreJson es = true) : Value.entriesAreJson es' = true := by
  cases h with
  | nil => exact json
  | cons _ value rest =>
    simp only [Value.entriesAreJson, Bool.and_eq_true] at json ⊢
    exact ⟨⟨rfl, value.isJson json.1.2⟩, rest.areJson json.2⟩

end

/-! ## Values that come to the very same -/

/-- Two paths have versions both or neither, and come to the very same as what they are. -/
structure PathsSame (v v' : Value) : Prop where
  shape : (PathEntry.given v).isVersioned = (PathEntry.given v').isVersioned
  resource : (PathEntry.given v).isVersioned = false →
    Agree Eq (Resource.check v) (Resource.check v')
  versions : (PathEntry.given v).isVersioned = true →
    Agree Eq (Versions.check v) (Versions.check v')

/-- Two values come to the very same as what stands in a place; where nothing may be in another
order anyway, this is how they agree. -/
def SameAs : Role → Value → Value → Prop
  | .description, v, v' => Agree Eq (Description.check v) (Description.check v')
  | .paths, v, v' => Agree Eq (PathTable.check v) (PathTable.check v')
  | .path, v, v' => PathsSame v v'
  | .versions, v, v' => Agree Eq (Versions.check v) (Versions.check v')
  | .resource, v, v' => Agree Eq (Resource.check v) (Resource.check v')
  | .actions, v, v' => Agree Eq (list Action.check v) (list Action.check v')
  | .queries, v, v' => Agree Eq (list Query.check v) (list Query.check v')
  | .definitions, v, v' => Agree Eq (Catalog.check v : Checked (Catalog Schema)) (Catalog.check v')
  | .errors, v, v' => Agree Eq (Catalog.check v : Checked (Catalog ApiError)) (Catalog.check v')
  | role, v, v' => AgreeAs role v v'

theorem sameAs_refl (role : Role) (v : Value) : SameAs role v v := by
  cases role with
  | path => exact ⟨rfl, fun _ => .of_eq rfl, fun _ => .of_eq rfl⟩
  | operation => exact ⟨.of_eq rfl, .of_eq rfl, .of_eq rfl, .of_eq rfl, .of_eq rfl⟩
  | schema => exact Eq.refl v
  | other => exact Eq.refl v.surface
  | _ => exact .of_eq rfl

/-- Lists in one place come to the very same if their items do. -/
theorem sameAs_list {role : Role} {vs vs' : List Value} (outside : role ≠ .schema)
    (items : List.Forall₂ (MatchesAs SameAs role.item) vs vs') :
    SameAs role (.list vs) (.list vs') := by
  have agree : List.Forall₂ (SameAs role.item) vs vs' := items.imp fun _ _ found => found.agree
  cases role with
  | schema => exact absurd rfl outside
  | actions => exact list_agree agree
  | queries => exact list_agree agree
  | parameters => exact list_agree agree
  | operationErrors => exact list_agree agree
  | other => exact congrArg Value.list (map_flat_congr agree)
  -- Everywhere else a list is refused.
  | path => exact ⟨rfl, fun _ => .refuse _ _, nofun⟩
  | operation => exact ⟨.refuse _ _, .refuse _ _, .refuse _ _, .refuse _ _, .refuse _ _⟩
  | _ => exact .refuse _ _

/-! ### Fields -/

theorem agreeAs_of_sameAs {role : Role} {v v' : Value}
    (inner : role ∈ [Role.other, .schema, .parameters, .operationErrors, .operation])
    (h : SameAs role v v') : AgreeAs role v v' := by
  simp only [List.mem_cons, List.not_mem_nil, or_false] at inner
  rcases inner with rfl | rfl | rfl | rfl | rfl <;> exact h

theorem isStrict_sameAs : IsStrict SameAs := by
  intro role mem v v' found
  refine agreeAs_of_sameAs ?_ found
  simp only [List.mem_cons, List.not_mem_nil, or_false] at mem ⊢
  rcases mem with rfl | rfl | rfl <;> simp

/-- In a record in which nothing may be in another order, this is how fields agree. -/
theorem FieldsMatch.strict {role : Role} {es es' : List (String × Value)}
    (h : FieldsMatch SameAs role es es')
    (inner : ∀ f ∈ role.fields, ∀ key ∈ f.spellings,
      role.under key ∈ [Role.other, .schema, .parameters, .operationErrors, .operation]) :
    FieldsMatch AgreeAs role es es' :=
  h.imp fun f hf key mem _ _ found =>
    ⟨found.null, agreeAs_of_sameAs (inner f hf key mem) found.agree⟩

end Validation

/-! ### Records and tables

In each of these `v` and `v'` are mappings with entries `es` and `es'`. -/

section Records

variable {α β γ : Type} {v v' : Value} {es es' : List (String × Value)}

theorem Resource.check_same (hv : entriesOf? v = some es) (hv' : entriesOf? v' = some es')
    (h : FieldsMatch SameAs .resource es es') : Agree Eq (Resource.check v) (Resource.check v') := by
  have equal {r r' : Resource} (rows : SameBut Eq Eq r r') : r = r' := by
    rw [rows.same, ← rows.actions, ← rows.queries]
  refine (check_agree_rows isStrict_sameAs rfl rfl (fun _ _ found => found)
    (fun _ _ found => found) (fun r r' rows => ?_) hv hv' h).imp fun r r' rows => equal rows.1
  rw [equal rows]

theorem Description.check_same (hv : entriesOf? v = some es) (hv' : entriesOf? v' = some es')
    (h : FieldsMatch SameAs .description es es') :
    Agree Eq (Description.check v) (Description.check v') := by
  refine (check_agree_tables isStrict_sameAs (fun _ _ found => found) (fun _ _ found => found)
    (fun _ _ found => found) hv hv' h).imp fun d d' same => ?_
  obtain ⟨id, description, paths, definitions, errors⟩ := same
  cases d
  cases d'
  exact congr (congr (congr (congrArg₂ Description.mk id description) (eq_of_rel paths))
    (eq_of_rel definitions)) (eq_of_rel errors)

/-- Where there are no fields, none is selected. -/
theorem rows_of_none {R : String → α → β → Prop} {selected : List Field} {xs : List (String × α)}
    {ms : List (String × β)} (h : RowsAlike selected R xs ms)
    (none : ∀ f ∈ selected, f ∈ ([] : List Field)) : RowsAlike [] R xs ms := by
  obtain rfl : selected = [] :=
    List.eq_nil_iff_forall_not_mem.2 fun f hf => List.not_mem_nil (none f hf)
  exact h

/-- Rows of entries without fields have the same names. -/
theorem pairs_of_rows {R : String → α → β → Prop} {xs : List (String × α)}
    {ms : List (String × β)} (h : RowsAlike [] R xs ms) :
    List.Forall₂ (fun x m => x.1 = m.1 ∧ R x.1 x.2 m.2) xs ms := by
  refine h.imp fun x m related => ⟨?_, related.2⟩
  rcases related.1 with same | ⟨_, none, _⟩
  · exact same.symm
  · cases none

/-- Entries under the same names come to the very same if their values do. -/
theorem entries_same {R : String → α → β → Prop} {check : α → Checked γ} {check' : β → Checked γ}
    {xs : List (String × α)} {ms : List (String × β)}
    (h : RowsAlike [] R xs ms) (each : ∀ name a b, R name a b → Agree Eq (check a) (check' b)) :
    Agree Eq (entries check xs) (entries check' ms) := by
  refine (entries_agree_pairs (pairs_of_rows h) each).imp fun bs bs' related => ?_
  exact List.forall₂_eq_eq_eq ▸ related.2.imp fun b b' same => Prod.ext same.1 same.2

/-- Values of mappings under the same names. -/
theorem mapping_same {R : String → Value → Value → Prop} {check : Value → Checked γ}
    (hv : entriesOf? v = some es) (hv' : entriesOf? v' = some es') (h : RowsAlike [] R es es')
    (each : ∀ name w w', R name w w' → Agree Eq (check w) (check w')) :
    Agree Eq (mapping check v) (mapping check v') := by
  rw [mapping, dictionary_of_entries hv, dictionary_of_entries hv']
  exact entries_same h each

theorem Versions.check_same (hv : entriesOf? v = some es) (hv' : entriesOf? v' = some es')
    (h : RowsAlike [] (fun _ => MatchesAs SameAs .resource) es es') :
    Agree Eq (Versions.check v) (Versions.check v') :=
  .obeying_eq _ (mapping_same hv hv' h fun _ _ _ found => found.agree)

theorem Catalog.check_same [CatalogEntry α] {R : String → Value → Value → Prop}
    (hv : entriesOf? v = some es) (hv' : entriesOf? v' = some es') (h : RowsAlike [] R es es')
    (each : ∀ name w w', R name w w' →
      Agree Eq (CatalogEntry.check w : Checked α) (CatalogEntry.check w')) :
    Agree Eq (Catalog.check v : Checked (Catalog α)) (Catalog.check v') :=
  .obeying_eq _ (mapping_same hv hv' h each)

theorem PathTable.check_same (hv : entriesOf? v = some es) (hv' : entriesOf? v' = some es')
    (distinct : (es.map Prod.fst).Nodup)
    (h : RowsAlike [] (fun _ => MatchesAs SameAs .path) es es') :
    Agree Eq (PathTable.check v) (PathTable.check v') := by
  have corresponds : Corresponds (fun _ => MatchesAs SameAs .path) es es' :=
    ⟨distinct, es', pairs_of_rows h, .refl _⟩
  have givenAs (b : Bool) (all : ∀ e ∈ es, (PathEntry.given e.2).isVersioned = b) :
      RowsAlike [] (fun _ v v' => MatchesAs SameAs .path v v' ∧
        (PathEntry.given v).isVersioned = b) es es' :=
    RowsAlike.imp_mem h fun x mem _ found => ⟨found, all x mem⟩
  have alike : Agree (Alike Eq Eq) (PathTable.check v) (PathTable.check v') := by
    refine check_agree_alike corresponds (fun _ _ _ found => found.agree.shape) hv hv'
      (fun plain => ?_) (fun versioned => ?_) (fun _ _ same => same ▸ Iff.rfl)
      fun _ _ same => same ▸ Iff.rfl
    · exact entries_same (givenAs false plain) fun _ _ _ found => found.1.agree.resource found.2
    · exact entries_same (givenAs true versioned) fun _ _ _ found =>
        found.1.agree.versions found.2
  refine alike.imp fun t t' alike => ?_
  cases alike with
  | flat same => rw [same]
  | versioned same => rw [same]

/-- **Paths have versions in all spellings or in none.** -/
theorem isVersioned_of_rows {R : String → Value → Value → Prop} {selected : List Field}
    (hv : entriesOf? v = some es) (hv' : entriesOf? v' = some es')
    (h : RowsAlike selected R es es') (ofResource : ∀ f ∈ selected, f ∈ Resource.fields) :
    (PathEntry.given v).isVersioned = (PathEntry.given v').isVersioned := by
  have size : es = [] ↔ es' = [] := by
    rw [← List.length_eq_zero_iff, ← List.length_eq_zero_iff, h.length_eq]
  have closed (a b : String) (alike : SpelledAlike selected a b) :
      a ∉ Resource.fieldNames ↔ b ∉ Resource.fieldNames := by
    rcases alike with rfl | ⟨f, hf, spells, spells'⟩
    · exact Iff.rfl
    · exact iff_of_false
        (not_not_intro (List.mem_flatMap.2 ⟨f, ofResource f hf, spells⟩))
        (not_not_intro (List.mem_flatMap.2 ⟨f, ofResource f hf, spells'⟩))
  rw [Bool.eq_iff_iff, PathEntry.isVersioned_given_iff hv, PathEntry.isVersioned_given_iff hv',
    Ne, Ne, size, RowsAlike.forall_keys_iff h (P := fun key => key ∉ Resource.fieldNames)
      (Q := fun key => key ∉ Resource.fieldNames) fun x _ m _ => closed x.1 m.1]

end Records

/-! ### Mappings

All keys are texts.  Those of `es` are different, and some fields of the record are selected and
given once. -/

section Mappings

variable {role : Role} {es es' : List (Scalar × Value)} {selected : List Field}
  (hv : entriesOf? (.map es) = some (named es)) (hv' : entriesOf? (.map es') = some (named es'))

include hv hv'

/-- Paths come to the very same if what stands under their keys does. -/
theorem paths_same (distinct : ((named es).map Prod.fst).Nodup)
    (sub : ∀ f ∈ selected, f ∈ (Role.path.within (.map es)).fields)
    (once : SpelledOnce selected ((named es).map Prod.fst))
    (h : RowsAlike selected (fun key => MatchesAs SameAs ((Role.path.within (.map es)).under key))
      (named es) (named es')) : PathsSame (.map es) (.map es') := by
  rw [Role.within] at sub h
  cases versioned : (PathEntry.given (.map es)).isVersioned with
  | true =>
    rw [versioned] at sub h
    have rows := rows_of_none h sub
    refine ⟨isVersioned_of_rows hv hv' rows (List.forall_mem_nil _), fun plain => ?_,
      fun _ => Versions.check_same hv hv' rows⟩
    rw [versioned] at plain
    cases plain
  | false =>
    rw [versioned] at sub h
    refine ⟨isVersioned_of_rows hv hv' h sub, fun _ => Resource.check_same hv hv'
      (fieldsAgree_of_rows (Role.areApart_fields .resource) sub distinct once h), fun filled => ?_⟩
    rw [versioned] at filled
    cases filled

/-- **Mappings in one place come to the very same if their entries do.** -/
theorem sameAs_map (outside : role ≠ .schema) (distinct : ((named es).map Prod.fst).Nodup)
    (sub : ∀ f ∈ selected, f ∈ (role.within (.map es)).fields)
    (once : SpelledOnce selected ((named es).map Prod.fst))
    (h : RowsAlike selected (fun key => MatchesAs SameAs ((role.within (.map es)).under key))
      (named es) (named es')) :
    SameAs role (.map es) (.map es') := by
  have fields := fieldsAgree_of_rows (Role.areApart_fields _) sub distinct once h
  cases role with
  | schema => exact absurd rfl outside
  | description => exact Description.check_same hv hv' fields
  | paths => exact PathTable.check_same hv hv' distinct (rows_of_none h sub)
  | path => exact paths_same hv hv' distinct sub once h
  | versions => exact Versions.check_same hv hv' (rows_of_none h sub)
  | resource => exact Resource.check_same hv hv' fields
  | operation =>
    have fields : FieldsMatch AgreeAs .operation (named es) (named es') :=
      FieldsMatch.strict fields (by decide)
    exact ⟨Create.check_agree hv hv' fields, Read.check_agree hv hv' fields,
      Update.check_agree hv hv' fields, Delete.check_agree hv hv' fields,
      Patch.check_agree hv hv' fields⟩
  | action => exact Action.check_agree hv hv' (FieldsMatch.strict fields (by decide))
  | query => exact Query.check_agree hv hv' (FieldsMatch.strict fields (by decide))
  | parameter => exact Parameter.check_agree hv hv' (FieldsMatch.strict fields (by decide))
  | error => exact ApiError.check_agree hv hv' (FieldsMatch.strict fields (by decide))
  | definitions =>
    exact Catalog.check_same hv hv' (rows_of_none h sub) fun _ w w' found =>
      agree_schema w w' found.agree
  | errors =>
    exact Catalog.check_same hv hv' (rows_of_none h sub) fun _ _ _ found => found.agree
  | other => exact Eq.refl (Value.map [])
  -- Where a list is expected, a mapping is refused.
  | actions => exact .refuse _ _
  | queries => exact .refuse _ _
  | parameters => exact .refuse _ _
  | operationErrors => exact .refuse _ _

end Mappings

/-! ## Descriptions in other spellings -/

mutual

/-- **Values of JSON that differ in spelling alone come to the very same.** -/
theorem same_of_respelled {role : Role} {v v' : Value} (h : Respelled role v v')
    (json : v.isJson = true) : MatchesAs SameAs role v v' := by
  cases h with
  | same => exact ⟨Iff.rfl, sameAs_refl role v⟩
  | list outside items =>
    rw [Value.isJson] at json
    exact ⟨⟨nofun, nofun⟩, sameAs_list outside (same_of_respelledItems items json)⟩
  | map selected outside sub once entries =>
    rw [Value.isJson, Bool.and_eq_true, decide_eq_true_eq] at json
    rw [← names_named] at once json
    have texts := Value.isText_of_entriesAreJson json.1
    have texts' := Value.isText_of_entriesAreJson (entries.areJson json.1)
    exact ⟨⟨nofun, nofun⟩, sameAs_map (entriesOf?_eq_named texts) (entriesOf?_eq_named texts')
      outside json.2 sub once (same_of_respelledEntries entries json.1)⟩

theorem same_of_respelledItems {role : Role} {vs vs' : List Value}
    (h : RespelledItems role vs vs') (json : Value.itemsAreJson vs = true) :
    List.Forall₂ (MatchesAs SameAs role) vs vs' := by
  cases h with
  | nil => exact .nil
  | cons first rest =>
    rw [Value.itemsAreJson, Bool.and_eq_true] at json
    exact .cons (same_of_respelled first json.1) (same_of_respelledItems rest json.2)

theorem same_of_respelledEntries {role : Role} {selected : List Field}
    {es es' : List (Scalar × Value)} (h : RespelledEntries role selected es es')
    (json : Value.entriesAreJson es = true) :
    RowsAlike selected (fun key => MatchesAs SameAs (role.under key)) (named es) (named es') := by
  cases h with
  | nil => exact .nil
  | cons alike value rest =>
    simp only [Value.entriesAreJson, Bool.and_eq_true] at json
    exact .cons ⟨alike, same_of_respelled value json.1.2⟩ (same_of_respelledEntries rest json.2)

end

namespace Descriptor

/-- **Spelling does not matter.**  Of two values of JSON that differ in nothing but the spelling of
fields of records, each of which is given in one spelling only, both describe an interface or
neither does; and then it is the same interface, with a table of paths of the same shape. -/
theorem ofValue_of_respelled {v v' : Value} (json : v.isJson = true)
    (h : Respelled .description v v') (d : Description) :
    ofValue v = .ok d ↔ ofValue v' = .ok d := by
  have agree : Agree Eq (Description.ofValue v) (Description.ofValue v') := by
    rw [Description.ofValue, Description.ofValue, Value.nameKeys_of_isJson v json,
      Value.nameKeys_of_isJson v' (h.isJson json)]
    exact (same_of_respelled h json).agree
  have told := Value.hasKeyTexts_of_isNamed v (Value.isNamed_of_isJson json)
  have told' := Value.hasKeyTexts_of_isNamed v' (Value.isNamed_of_isJson (h.isJson json))
  simp only [ofValue, told, told', if_true]
  generalize Description.ofValue v = c at agree
  generalize Description.ofValue v' = c' at agree
  cases agree with
  | good same => rw [same]
  | bad issues issues' =>
    constructor
    · rintro ⟨⟩
    · rintro ⟨⟩

/-- The interface of pets with some of its fields spelled by `name`.  A key in the body of a schema
looks like a field. -/
def petsSpelledBy (name : Field → String) : Value := .record [
  ("id", .text "pets"),
  ("paths", .record [
    ("/pets", .record [
      ("v1", .record [
        (name Resource.resourceSchemaField, .record [("query_id", .text "string")]),
        ("create", .record [(name mvccSupportedField, .scalar (.bool true))]),
        ("queries", .list [
          .record [("type", .text "ID"), (name Query.queryIdField, .text "tag")]])])])]),
  ("errors", .record [
    ("NotFound", .record [
      ("code", .scalar (.int 404)),
      ("description", .text "No such pet."),
      (name ApiError.schemaField, .record [])])])]

theorem respelled_pets :
    Respelled .description (petsSpelledBy Field.joined) (petsSpelledBy Field.spaced) := by
  refine .map [] (by decide) (by decide) (by decide) (.cons (.inl rfl) (.same ..)
    (.cons (.inl rfl) ?paths (.cons (.inl rfl) ?errors (.nil ..))))
  case paths =>
    refine .map [] (by decide) (by decide) (by decide) (.cons (.inl rfl) ?versions (.nil ..))
    refine .map [] (by decide) (by decide) (by decide) (.cons (.inl rfl) ?resource (.nil ..))
    refine .map [Resource.resourceSchemaField] (by decide) (by decide) (by decide)
      (.cons (.inr (by decide)) (.same ..) (.cons (.inl rfl) ?create
        (.cons (.inl rfl) ?queries (.nil ..))))
    case create =>
      exact .map [mvccSupportedField] (by decide) (by decide) (by decide)
        (.cons (.inr (by decide)) (.same ..) (.nil ..))
    case queries =>
      refine .list (by decide) (.cons ?query (.nil _))
      exact .map [Query.queryIdField] (by decide) (by decide) (by decide)
        (.cons (.inl rfl) (.same ..) (.cons (.inr (by decide)) (.same ..) (.nil ..)))
  case errors =>
    refine .map [] (by decide) (by decide) (by decide) (.cons (.inl rfl) ?error (.nil ..))
    exact .map [ApiError.schemaField] (by decide) (by decide) (by decide)
      (.cons (.inl rfl) (.same ..) (.cons (.inl rfl) (.same ..)
        (.cons (.inr (by decide)) (.same ..) (.nil ..))))

/-- One interface for both. -/
theorem ofValue_of_respelled_pets :
    (petsSpelledBy Field.joined).isJson = true ∧
      Respelled .description (petsSpelledBy Field.joined) (petsSpelledBy Field.spaced) ∧
      ∃ d, ofValue (petsSpelledBy Field.joined) = .ok d ∧
        ofValue (petsSpelledBy Field.spaced) = .ok d := by
  have json : (petsSpelledBy Field.joined).isJson = true := by decide
  have accepted : ∃ d, ofValue (petsSpelledBy Field.joined) = .ok d := ⟨_, rfl⟩
  obtain ⟨d, accepted⟩ := accepted
  exact ⟨json, respelled_pets, d, accepted,
    (ofValue_of_respelled json respelled_pets d).1 accepted⟩

end Descriptor
end ApiManual
