import ApiManual.Descriptor
import ApiManual.Proofs.Validation.Tables

/-!
# What is accepted, and as what

A check is good exactly when everything that it looks at is.  First this is said of the
combinators: of fields, lists, tables and records.  Then each record gets a structure that
lists what its fields are read as, and the statement that a value is accepted as such a record
exactly if it is a mapping of this kind (`Resource.check_eq_good_iff` and the others).

What is to be proved of all records that are accepted, or of a value that is to be accepted,
is proved from these statements alone.
-/

namespace ApiManual

open Validation Checked

variable {α β : Type}

namespace Validation

/-! ## Combinators -/

namespace Checked

theorem map_eq_good_iff {f : α → β} {x : Checked α} {b : β} :
    x.map f = .good b ↔ ∃ a, x = .good a ∧ f a = b := by
  cases x with
  | good a => simp only [map, good.injEq, exists_eq_left']
  | bad => simp only [map, reduceCtorEq, false_and, exists_false]

/-- Parts are built into a whole exactly when all of them are good. -/
theorem seq_eq_good_iff {f : Checked (α → β)} {x : Checked α} {b : β} :
    (f <*> x) = .good b ↔ ∃ g, f = .good g ∧ ∃ a, x = .good a ∧ g a = b := by
  simp only [seq_eq, both_eq_good_iff, exists_and_left]
  simp only [eq_comm]

theorem exists_seq_eq_good_iff {f : Checked (α → β)} {x : Checked α} {P : β → Prop} :
    (∃ b, (f <*> x) = .good b ∧ P b) ↔ ∃ g, f = .good g ∧ ∃ a, x = .good a ∧ P (g a) := by
  constructor
  · rintro ⟨b, whole, hb⟩
    obtain ⟨g, hf, a, hx, rfl⟩ := seq_eq_good_iff.1 whole
    exact ⟨g, hf, a, hx, hb⟩
  · rintro ⟨g, hf, a, hx, hb⟩
    exact ⟨g a, seq_eq_good_iff.2 ⟨g, hf, a, hx, rfl⟩, hb⟩

theorem exists_map_eq_good_iff {f : α → β} {x : Checked α} {P : β → Prop} :
    (∃ b, f <$> x = .good b ∧ P b) ↔ ∃ a, x = .good a ∧ P (f a) := by
  constructor
  · rintro ⟨b, whole, hb⟩
    obtain ⟨a, hx, rfl⟩ := map_eq_good_iff.1 whole
    exact ⟨a, hx, hb⟩
  · rintro ⟨a, hx, hb⟩
    exact ⟨f a, map_eq_good_iff.2 ⟨a, hx, rfl⟩, hb⟩

/-- Nothing is good that something more is wrong with. -/
theorem adding_eq_good_iff {extra : List Issue} {x : Checked α} {a : α} :
    x.adding extra = .good a ↔ x = .good a ∧ extra = [] := by
  cases x with
  | good b => cases extra <;> simp [adding]
  | bad issues => simp [adding]

end Checked

/-- Only texts can be known. -/
theorem isText_of_stray?_eq_none {fields : List Field} {es : List (String × Value)} {k : Scalar}
    (h : stray? fields es k = none) : k.isText = true := by
  cases k with
  | text s => rfl
  | _ => cases h

/-- A record is a mapping from which it can be built and which has no unknown fields. -/
theorem record_eq_good_iff {model : String} {fields : List Field}
    {build : List (String × Value) → Checked α} {v : Value} {a : α} :
    record model fields build v = .good a ↔
      ∃ es, entriesOf? v = some es ∧ build es = .good a ∧ unknownFields fields es = [] := by
  cases hv : entriesOf? v with
  | some es =>
    simp only [record_of_entries hv, adding_eq_good_iff, Option.some.injEq, exists_eq_left']
  | none =>
    refine iff_of_false (fun good => ?_) (by simp)
    cases v with
    | map entries =>
      have known := List.filterMap_eq_nil_iff.1 (adding_eq_good_iff.1 good).2
      have texts : entries.all (fun e => e.1.isText) = true :=
        List.all_eq_true.2 fun e mem => isText_of_stray?_eq_none (known e mem)
      rw [entriesOf?, if_pos texts] at hv
      cases hv
    | _ => cases good

theorem items_eq_good_iff {check : Value → Checked α} {i : Nat} {vs : List Value} {as : List α} :
    items check i vs = .good as ↔ List.Forall₂ (fun v a => check v = .good a) vs as := by
  induction vs generalizing i as with
  | nil =>
    rw [items, good.injEq, List.forall₂_nil_left_iff]
    exact eq_comm
  | cons v rest ih =>
    simp only [items, both_eq_good_iff, under_eq_good_iff, ih, List.forall₂_cons_left_iff,
      exists_and_left]

/-- An item of a list that is accepted is accepted itself. -/
theorem exists_of_mem_items {check : Value → Checked α} {vs : List Value} {as : List α}
    (h : List.Forall₂ (fun v a => check v = .good a) vs as) {a : α} (mem : a ∈ as) :
    ∃ v ∈ vs, check v = .good a := by
  induction h with
  | nil => cases mem
  | cons first _ ih =>
    rcases List.mem_cons.1 mem with rfl | mem
    · exact ⟨_, List.mem_cons_self, first⟩
    · obtain ⟨v, mem, good⟩ := ih mem
      exact ⟨v, List.mem_cons_of_mem _ mem, good⟩

theorem exists_of_mem_list {check : Value → Checked α} {v : Value} {as : List α}
    (h : list check v = .good as) {a : α} (mem : a ∈ as) : ∃ w, check w = .good a := by
  cases v with
  | list vs =>
    obtain ⟨w, -, good⟩ := exists_of_mem_items (items_eq_good_iff.1 h) mem
    exact ⟨w, good⟩
  | set ss =>
    obtain ⟨w, -, good⟩ := exists_of_mem_items (items_eq_good_iff.1 h) mem
    exact ⟨w, good⟩
  | _ => cases h

theorem entries_eq_good_iff {check : α → Checked β} {es : List (String × α)}
    {bs : List (String × β)} :
    entries check es = .good bs ↔
      List.Forall₂ (fun e b => e.1 = b.1 ∧ check e.2 = .good b.2) es bs := by
  induction es generalizing bs with
  | nil =>
    rw [entries, good.injEq, List.forall₂_nil_left_iff]
    exact eq_comm
  | cons e rest ih =>
    obtain ⟨k, v⟩ := e
    simp only [entries, both_eq_good_iff, under_eq_good_iff, ih, List.forall₂_cons_left_iff]
    constructor
    · rintro ⟨b, bs, good, rest, rfl⟩
      exact ⟨(k, b), bs, ⟨rfl, good⟩, rest, rfl⟩
    · rintro ⟨⟨_, b⟩, bs, ⟨rfl, good⟩, rest, rfl⟩
      exact ⟨b, bs, good, rest, rfl⟩

/-- The entries of a table keep their names. -/
theorem names_of_entries {check : α → Checked β} {es : List (String × α)} {bs : List (String × β)}
    (h : List.Forall₂ (fun e b => e.1 = b.1 ∧ check e.2 = .good b.2) es bs) :
    bs.map Prod.fst = es.map Prod.fst := by
  induction h with
  | nil => rfl
  | cons first _ ih => rw [List.map_cons, List.map_cons, first.1, ih]

/-- A mapping from texts is accepted as what is read from its entries. -/
theorem dictionary_eq_good_iff {check : Value → Checked α}
    {read : List (String × Value) → Checked β} {v : Value} {b : β} :
    dictionary check read v = .good b ↔
      ∃ es, dictionaryOf? v = some es ∧ read es = .good b := by
  cases hv : dictionaryOf? v with
  | some es => simp only [dictionary, hv, Option.some.injEq, exists_eq_left']
  | none => cases v <;> simp [dictionary, hv, refuse]

/-- A mapping is accepted entry by entry, each under its name. -/
theorem mapping_eq_good_iff {check : Value → Checked β} {v : Value} {bs : List (String × β)} :
    mapping check v = .good bs ↔ ∃ es, dictionaryOf? v = some es ∧
      List.Forall₂ (fun e b => e.1 = b.1 ∧ check e.2 = .good b.2) es bs := by
  simp only [mapping, dictionary_eq_good_iff, entries_eq_good_iff]

/-- An entry of a table that is accepted is given under its name. -/
theorem exists_of_mem_entries {check : α → Checked β} {es : List (String × α)}
    {bs : List (String × β)}
    (h : List.Forall₂ (fun e b => e.1 = b.1 ∧ check e.2 = .good b.2) es bs) {b : String × β}
    (mem : b ∈ bs) : ∃ a, (b.1, a) ∈ es ∧ check a = .good b.2 := by
  induction h with
  | nil => cases mem
  | cons first _ ih =>
    rcases List.mem_cons.1 mem with rfl | mem
    · exact ⟨_, first.1 ▸ List.mem_cons_self, first.2⟩
    · obtain ⟨a, mem, good⟩ := ih mem
      exact ⟨a, List.mem_cons_of_mem _ mem, good⟩

/-! ## Fields -/

namespace Field

variable {f : Field} {check : Value → Checked α} {es : List (String × Value)}

/-- What a field is read from is an entry. -/
theorem mem_of_lookup? {key : String} {v : Value} (h : f.lookup? es = some (key, v)) :
    (key, v) ∈ es := by
  have entry {name : String} {w : Value} (found : es.lookup name = some w) : (name, w) ∈ es := by
    obtain ⟨before, after, split, -⟩ := List.lookup_eq_some_iff.1 found
    rw [split]
    exact List.mem_append_right _ List.mem_cons_self
  rw [lookup?] at h
  cases joined : es.lookup f.joined with
  | some w =>
    rw [joined] at h
    cases h
    exact entry joined
  | none =>
    rw [joined] at h
    obtain ⟨w, spaced, same⟩ := Option.map_eq_some_iff.1 h
    cases same
    exact entry spaced

/-- A field is read from the value given for it, or is what it is when nothing is given. -/
theorem read_eq_good_iff {absent : Checked α} {a : α} : f.read absent check es = .good a ↔
    (f.lookup? es = none ∧ absent = .good a) ∨
      ∃ key v, f.lookup? es = some (key, v) ∧ check v = .good a := by
  rw [read]
  cases f.lookup? es with
  | none => simp
  | some found => simp [Prod.ext_iff]

theorem exists_of_required {a : α} (h : f.required check es = .good a) :
    ∃ key v, f.lookup? es = some (key, v) ∧ check v = .good a := by
  rcases read_eq_good_iff.1 h with ⟨-, missing⟩ | given
  · cases missing
  · exact given

theorem eq_or_exists_of_defaulted {a default : α} (h : f.defaulted default check es = .good a) :
    a = default ∨ ∃ key v, f.lookup? es = some (key, v) ∧ check v = .good a := by
  rcases read_eq_good_iff.1 h with ⟨-, missing⟩ | given
  · exact .inl (good.inj missing).symm
  · exact .inr given

theorem exists_of_optional {a : α} (h : f.optional check es = .good (some a)) :
    ∃ key v, f.lookup? es = some (key, v) ∧ check v = .good a := by
  rcases eq_or_exists_of_defaulted h with missing | ⟨key, v, found, read⟩
  · cases missing
  · split at read
    · cases read
    · obtain ⟨_, read, same⟩ := map_eq_good_iff.1 read
      cases same
      exact ⟨key, _, found, read⟩

end Field

end Validation

/-! ## Schemas and errors -/

theorem Schema.check_eq_good_iff {v : Value} {s : Schema} :
    Schema.check v = .good s ↔ dictionaryOf? v = some s.body := by
  rw [check, dictionary_eq_good_iff]
  constructor
  · rintro ⟨body, given, ⟨⟩⟩
    exact given
  · exact fun given => ⟨s.body, given, rfl⟩

/-- An error is what its fields are read as. -/
structure ApiError.IsReadFrom (e : ApiError) (es : List (String × Value)) : Prop where
  code : codeField.required int es = .good e.code
  description : descriptionField.required text es = .good e.description
  schema : schemaField.optional Schema.check es = .good e.schema
  known : unknownFields fields es = []

theorem ApiError.check_eq_good_iff {v : Value} {e : ApiError} :
    ApiError.check v = .good e ↔ ∃ es, entriesOf? v = some es ∧ e.IsReadFrom es := by
  rw [check, record_eq_good_iff]
  refine exists_congr fun es => and_congr_right fun _ => ?_
  rw [seq_eq_good_iff]
  simp only [exists_seq_eq_good_iff, exists_map_eq_good_iff]
  constructor
  · rintro ⟨⟨_, code, _, description, _, schema, rfl⟩, known⟩
    exact ⟨code, description, schema, known⟩
  · rintro ⟨code, description, schema, known⟩
    exact ⟨⟨_, code, _, description, _, schema, rfl⟩, known⟩

/-! ## Parameters and operations -/

/-- A parameter is what its fields are read as. -/
structure Parameter.IsReadFrom (p : Parameter) (es : List (String × Value)) : Prop where
  name : nameField.required text es = .good p.name
  type : typeField.defaulted "string" text es = .good p.type
  source : sourceField.defaulted .additional choice es = .good p.source
  required : requiredField.defaulted false bool es = .good p.required
  defaultValue : defaultValueField.optional scalarText es = .good p.defaultValue
  description : descriptionField.optional text es = .good p.description
  enumValues : enumValuesField.defaulted [] checkEnumValues es = .good p.enumValues
  known : unknownFields fields es = []

theorem Parameter.check_eq_good_iff {v : Value} {p : Parameter} :
    Parameter.check v = .good p ↔ ∃ es, entriesOf? v = some es ∧ p.IsReadFrom es := by
  rw [check, record_eq_good_iff]
  refine exists_congr fun es => and_congr_right fun _ => ?_
  rw [seq_eq_good_iff]
  simp only [exists_seq_eq_good_iff, exists_map_eq_good_iff]
  constructor
  · rintro ⟨⟨_, name, _, type, _, source, _, required, _, defaultValue, _, description, _,
      enumValues, rfl⟩, known⟩
    exact ⟨name, type, source, required, defaultValue, description, enumValues, known⟩
  · rintro ⟨name, type, source, required, defaultValue, description, enumValues, known⟩
    exact ⟨⟨_, name, _, type, _, source, _, required, _, defaultValue, _, description, _,
      enumValues, rfl⟩, known⟩

/-- What all operations have is what their common fields are read as. -/
structure Operation.IsReadFrom (o : Operation) (es : List (String × Value)) : Prop where
  description : descriptionField.optional text es = .good o.description
  supportedLocales : supportedLocalesField.defaulted [] (list text) es = .good o.supportedLocales
  parameters : parametersField.defaulted [] (list Parameter.check) es = .good o.parameters
  errors : errorsField.defaulted [] (list ApiError.check) es = .good o.errors
  stability : stabilityField.optional choice es = .good o.stability

theorem Operation.build_eq_good_iff {es : List (String × Value)} {o : Operation} :
    Operation.build es = .good o ↔ o.IsReadFrom es := by
  rw [build, seq_eq_good_iff]
  simp only [exists_seq_eq_good_iff, exists_map_eq_good_iff]
  constructor
  · rintro ⟨_, description, _, locales, _, parameters, _, errors, _, stability, rfl⟩
    exact ⟨description, locales, parameters, errors, stability⟩
  · rintro ⟨description, locales, parameters, errors, stability⟩
    exact ⟨_, description, _, locales, _, parameters, _, errors, _, stability, rfl⟩

theorem Create.check_eq_good_iff {v : Value} {o : Create} : Create.check v = .good o ↔
    ∃ es, entriesOf? v = some es ∧ o.toOperation.IsReadFrom es ∧
      modeField.optional choice es = .good o.mode ∧
      mvccSupportedField.defaulted false bool es = .good o.mvccSupported ∧
      unknownFields fields es = [] := by
  rw [check, record_eq_good_iff]
  refine exists_congr fun es => and_congr_right fun _ => ?_
  rw [seq_eq_good_iff]
  simp only [exists_seq_eq_good_iff, exists_map_eq_good_iff, Operation.build_eq_good_iff]
  constructor
  · rintro ⟨⟨_, common, _, mode, _, mvcc, rfl⟩, known⟩
    exact ⟨common, mode, mvcc, known⟩
  · rintro ⟨common, mode, mvcc, known⟩
    exact ⟨⟨_, common, _, mode, _, mvcc, rfl⟩, known⟩

theorem Read.check_eq_good_iff {v : Value} {o : Read} : Read.check v = .good o ↔
    ∃ es, entriesOf? v = some es ∧ o.toOperation.IsReadFrom es ∧
      unknownFields Operation.fields es = [] := by
  rw [check, record_eq_good_iff]
  refine exists_congr fun es => and_congr_right fun _ => and_congr_left fun _ => ?_
  rw [map_eq, map_eq_good_iff]
  simp only [Operation.build_eq_good_iff]
  constructor
  · rintro ⟨_, common, rfl⟩
    exact common
  · exact fun common => ⟨_, common, rfl⟩

theorem Update.check_eq_good_iff {v : Value} {o : Update} : Update.check v = .good o ↔
    ∃ es, entriesOf? v = some es ∧ o.toOperation.IsReadFrom es ∧
      mvccSupportedField.defaulted false bool es = .good o.mvccSupported ∧
      unknownFields fields es = [] := by
  rw [check, record_eq_good_iff]
  refine exists_congr fun es => and_congr_right fun _ => ?_
  rw [seq_eq_good_iff]
  simp only [exists_map_eq_good_iff, Operation.build_eq_good_iff]
  constructor
  · rintro ⟨⟨_, common, _, mvcc, rfl⟩, known⟩
    exact ⟨common, mvcc, known⟩
  · rintro ⟨common, mvcc, known⟩
    exact ⟨⟨_, common, _, mvcc, rfl⟩, known⟩

theorem Delete.check_eq_good_iff {v : Value} {o : Delete} : Delete.check v = .good o ↔
    ∃ es, entriesOf? v = some es ∧ o.toOperation.IsReadFrom es ∧
      mvccSupportedField.defaulted false bool es = .good o.mvccSupported ∧
      unknownFields fields es = [] := by
  rw [check, record_eq_good_iff]
  refine exists_congr fun es => and_congr_right fun _ => ?_
  rw [seq_eq_good_iff]
  simp only [exists_map_eq_good_iff, Operation.build_eq_good_iff]
  constructor
  · rintro ⟨⟨_, common, _, mvcc, rfl⟩, known⟩
    exact ⟨common, mvcc, known⟩
  · rintro ⟨common, mvcc, known⟩
    exact ⟨⟨_, common, _, mvcc, rfl⟩, known⟩

theorem Patch.check_eq_good_iff {v : Value} {o : Patch} : Patch.check v = .good o ↔
    ∃ es, entriesOf? v = some es ∧ o.toOperation.IsReadFrom es ∧
      operationsField.defaulted [] (list choice) es = .good o.operations ∧
      mvccSupportedField.defaulted false bool es = .good o.mvccSupported ∧
      unknownFields fields es = [] := by
  rw [check, record_eq_good_iff]
  refine exists_congr fun es => and_congr_right fun _ => ?_
  rw [seq_eq_good_iff]
  simp only [exists_seq_eq_good_iff, exists_map_eq_good_iff, Operation.build_eq_good_iff]
  constructor
  · rintro ⟨⟨_, common, _, steps, _, mvcc, rfl⟩, known⟩
    exact ⟨common, steps, mvcc, known⟩
  · rintro ⟨common, steps, mvcc, known⟩
    exact ⟨⟨_, common, _, steps, _, mvcc, rfl⟩, known⟩

theorem Action.brokenName?_eq_none_iff {name : String} :
    brokenName? name = none ↔ Name.isValid name.toList = true := by
  rw [brokenName?]
  split <;> simp_all

theorem Action.check_eq_good_iff {v : Value} {o : Action} : Action.check v = .good o ↔
    ∃ es, entriesOf? v = some es ∧ o.toOperation.IsReadFrom es ∧
      nameField.required (fun v => (text v).obeying brokenName?) es = .good o.name ∧
      requestField.optional Schema.check es = .good o.request ∧
      responseField.optional Schema.check es = .good o.response ∧
      unknownFields fields es = [] := by
  rw [check, record_eq_good_iff]
  refine exists_congr fun es => and_congr_right fun _ => ?_
  rw [seq_eq_good_iff]
  simp only [exists_seq_eq_good_iff, exists_map_eq_good_iff, Operation.build_eq_good_iff]
  constructor
  · rintro ⟨⟨_, common, _, name, _, request, _, response, rfl⟩, known⟩
    exact ⟨common, name, request, response, known⟩
  · rintro ⟨common, name, request, response, known⟩
    exact ⟨⟨_, common, _, name, _, request, _, response, rfl⟩, known⟩

/-- A query that asks by an id names one. -/
theorem Query.brokenId?_eq_none_iff {q : Query} :
    q.brokenId? = none ↔ (q.type = .id → ∃ id, q.queryId = some id ∧ id ≠ "") := by
  rw [brokenId?, ite_eq_right_iff]
  cases q.queryId <;> simp

/-- A query is what its own fields are read as, besides those that all operations have. -/
structure Query.IsReadFrom (q : Query) (es : List (String × Value)) : Prop where
  common : q.toOperation.IsReadFrom es
  type : typeField.required choice es = .good q.type
  queryId : queryIdField.optional text es = .good q.queryId
  pagingMode : pagingModeField.optional choice es = .good q.pagingMode
  countPolicies : countPoliciesField.defaulted [] (list choice) es = .good q.countPolicies
  queryableFields : queryableFieldsField.defaulted [] (list text) es = .good q.queryableFields
  sortKeys : sortKeysField.defaulted [] (list text) es = .good q.sortKeys
  known : unknownFields fields es = []

theorem Query.check_eq_good_iff {v : Value} {q : Query} : Query.check v = .good q ↔
    (∃ es, entriesOf? v = some es ∧ q.IsReadFrom es) ∧ q.brokenId? = none := by
  rw [check, obeying_eq_good_iff, record_eq_good_iff]
  refine and_congr_left fun _ => exists_congr fun es => and_congr_right fun _ => ?_
  rw [seq_eq_good_iff]
  simp only [exists_seq_eq_good_iff, exists_map_eq_good_iff, Operation.build_eq_good_iff]
  constructor
  · rintro ⟨⟨_, common, _, type, _, queryId, _, paging, _, counts, _, fields, _, keys, rfl⟩,
      known⟩
    exact ⟨common, type, queryId, paging, counts, fields, keys, known⟩
  · rintro ⟨common, type, queryId, paging, counts, fields, keys, known⟩
    exact ⟨⟨_, common, _, type, _, queryId, _, paging, _, counts, _, fields, _, keys, rfl⟩, known⟩

/-! ## Resources -/

/-- A resource is what its fields are read as. -/
structure Resource.IsReadFrom (r : Resource) (es : List (String × Value)) : Prop where
  title : titleField.optional text es = .good r.title
  description : descriptionField.optional text es = .good r.description
  resourceSchema : resourceSchemaField.optional Schema.check es = .good r.resourceSchema
  create : createField.optional Create.check es = .good r.create
  read : readField.optional Read.check es = .good r.read
  update : updateField.optional Update.check es = .good r.update
  delete : deleteField.optional Delete.check es = .good r.delete
  patch : patchField.optional Patch.check es = .good r.patch
  actions : actionsField.defaulted [] (list Action.check) es = .good r.actions
  queries : queriesField.defaulted [] (list Query.check) es = .good r.queries
  known : unknownFields fields es = []

theorem Resource.check_eq_good_iff {v : Value} {r : Resource} : Resource.check v = .good r ↔
    (∃ es, entriesOf? v = some es ∧ r.IsReadFrom es) ∧ r.NamesDiffer fun name => name := by
  rw [check, obeying_eq_good_iff, record_eq_good_iff, brokenUniqueness?_eq_none_iff]
  refine and_congr_left fun _ => exists_congr fun es => and_congr_right fun _ => ?_
  rw [seq_eq_good_iff]
  simp only [exists_seq_eq_good_iff, exists_map_eq_good_iff]
  constructor
  · rintro ⟨⟨_, title, _, description, _, schema, _, create, _, read, _, update, _, delete, _,
      patch, _, actions, _, queries, rfl⟩, known⟩
    exact ⟨title, description, schema, create, read, update, delete, patch, actions, queries, known⟩
  · rintro ⟨title, description, schema, create, read, update, delete, patch, actions, queries,
      known⟩
    exact ⟨⟨_, title, _, description, _, schema, _, create, _, read, _, update, _, delete, _,
      patch, _, actions, _, queries, rfl⟩, known⟩

/-! ## Tables and descriptions -/

theorem Versions.check_eq_good_iff {v : Value} {vs : Versions} : Versions.check v = .good vs ↔
    mapping Resource.check v = .good vs ∧ ∀ e ∈ vs, e.1.isEmpty = false := by
  rw [check, obeying_eq_good_iff, brokenKeys?_eq_none_iff]

theorem Catalog.check_eq_good_iff [CatalogEntry α] {v : Value} {c : Catalog α} :
    (Catalog.check v : Checked (Catalog α)) = .good c ↔
      mapping CatalogEntry.check v = .good c ∧
        c ≠ [] ∧ ∀ e ∈ c, Name.isValid e.1.toList = true := by
  rw [check, obeying_eq_good_iff, broken?_eq_none_iff]

namespace PathTable

/-- A table of paths is read by the shape on which its entries agree. -/
inductive IsReadFrom : PathTable → List (String × Value) → Prop where
  | flat {es : List (String × Value)} {rs : List (String × Resource)}
      (plain : ∀ e ∈ es, (PathEntry.given e.2).isVersioned = false)
      (read : entries Resource.check es = .good rs)
      (named : ∀ e ∈ rs, e.1.isEmpty = false) : IsReadFrom (.flat rs) es
  | versioned {es : List (String × Value)} {vs : List (String × Versions)} (filled : es ≠ [])
      (versions : ∀ e ∈ es, (PathEntry.given e.2).isVersioned = true)
      (read : entries Versions.check es = .good vs)
      (named : ∀ e ∈ vs, e.1.isEmpty = false) : IsReadFrom (.versioned vs) es

variable {es : List (String × Value)}

theorem checkFlat_eq_good_iff {rs : List (String × Resource)} :
    checkFlat (givenEntries es) = .good rs ↔
      entries Resource.check es = .good rs ∧ ∀ e ∈ rs, e.1.isEmpty = false := by
  rw [checkFlat, obeying_eq_good_iff, brokenKeys?_eq_none_iff, entries_givenEntries]
  rfl

theorem checkVersioned_eq_good_iff {vs : List (String × Versions)} :
    checkVersioned (givenEntries es) = .good vs ↔
      entries Versions.check es = .good vs ∧ ∀ e ∈ vs, e.1.isEmpty = false := by
  rw [checkVersioned, obeying_eq_good_iff, brokenKeys?_eq_none_iff, entries_givenEntries]
  rfl

theorem forall_isVersioned_givenEntries {b : Bool} :
    (∀ e ∈ givenEntries es, e.2.isVersioned = b) ↔
      ∀ e ∈ es, (PathEntry.given e.2).isVersioned = b := List.forall_mem_map

theorem check_eq_good_iff {v : Value} {t : PathTable} :
    PathTable.check v = .good t ↔ ∃ es, entriesOf? v = some es ∧ t.IsReadFrom es := by
  cases hv : entriesOf? v with
  | none => cases v <;> simp [check, ofValue, hv, refuse]
  | some es =>
    rw [check_of_entries hv]
    simp only [Option.some.injEq, exists_eq_left']
    constructor
    · intro h
      cases shape : shapeOf (givenEntries es) with
      | mixed names =>
        rw [shape] at h
        cases h
      | flat =>
        rw [shape] at h
        obtain ⟨rs, good, rfl⟩ := map_eq_good_iff.1 h
        obtain ⟨read, named⟩ := checkFlat_eq_good_iff.1 good
        exact .flat (forall_isVersioned_givenEntries.1 (shapeOf_eq_flat_iff.1 shape)) read named
      | versioned =>
        rw [shape] at h
        obtain ⟨vs, good, rfl⟩ := map_eq_good_iff.1 h
        obtain ⟨read, named⟩ := checkVersioned_eq_good_iff.1 good
        obtain ⟨filled, versions⟩ := shapeOf_eq_versioned_iff.1 shape
        refine .versioned ?_ (forall_isVersioned_givenEntries.1 versions) read named
        rintro rfl
        exact filled rfl
    · rintro (⟨plain, read, named⟩ | ⟨filled, versions, read, named⟩)
      · rw [shapeOf_eq_flat_iff.2 (forall_isVersioned_givenEntries.2 plain)]
        exact map_eq_good_iff.2 ⟨_, checkFlat_eq_good_iff.2 ⟨read, named⟩, rfl⟩
      · have filled : givenEntries es ≠ [] := fun none => filled (List.map_eq_nil_iff.1 none)
        rw [shapeOf_eq_versioned_iff.2 ⟨filled, forall_isVersioned_givenEntries.2 versions⟩]
        exact map_eq_good_iff.2 ⟨_, checkVersioned_eq_good_iff.2 ⟨read, named⟩, rfl⟩

end PathTable

/-- A description is what its fields are read as. -/
structure Description.IsReadFrom (d : Description) (es : List (String × Value)) : Prop where
  id : idField.required (fun v => (text v).obeying brokenId?) es = .good d.id
  description : descriptionField.optional text es = .good d.description
  paths : pathsField.optional PathTable.check es = .good d.paths
  definitions : definitionsField.optional Catalog.check es = .good d.definitions
  errors : errorsField.optional Catalog.check es = .good d.errors
  known : unknownFields fields es = []

theorem Description.check_eq_good_iff {v : Value} {d : Description} :
    Description.check v = .good d ↔ ∃ es, entriesOf? v = some es ∧ d.IsReadFrom es := by
  rw [check, record_eq_good_iff]
  refine exists_congr fun es => and_congr_right fun _ => ?_
  rw [seq_eq_good_iff]
  simp only [exists_seq_eq_good_iff, exists_map_eq_good_iff]
  constructor
  · rintro ⟨⟨_, id, _, description, _, paths, _, definitions, _, errors, rfl⟩, known⟩
    exact ⟨id, description, paths, definitions, errors, known⟩
  · rintro ⟨id, description, paths, definitions, errors, known⟩
    exact ⟨⟨_, id, _, description, _, paths, _, definitions, _, errors, rfl⟩, known⟩

theorem Description.brokenId?_eq_none_iff {id : String} :
    brokenId? id = none ↔ ∃ c ∈ id.toList, Text.isBlank c = false := by
  rw [brokenId?, ite_eq_right_iff]
  simp

/-- A value describes an interface if its keys have texts and it is accepted with them. -/
theorem Descriptor.ofValue_eq_ok_iff {v : Value} {d : Description} :
    ofValue v = .ok d ↔ v.hasKeyTexts = true ∧ Description.check v.nameKeys = .good d := by
  rw [ofValue, Description.ofValue]
  cases v.hasKeyTexts <;> cases Description.check v.nameKeys <;> simp

end ApiManual
