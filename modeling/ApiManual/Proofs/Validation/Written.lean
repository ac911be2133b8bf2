import ApiManual.Proofs.Validation.Accepted
import ApiManual.Proofs.Value.Named

/-!
# Descriptions as values

A description can be written down as a value again: each record with all of its fields, under
the names whose words are joined by underscores, and tables as mappings from their names.
Nothing stands in a field that is left out.

Fields that are written like this are found again, as long as no two of them share a spelling
(`Validation.lookup?_written`).
-/

namespace ApiManual

open Validation

variable {α : Type}

/-! ## Fields -/

namespace Validation

/-- The entries for some fields, each under its name with underscores. -/
def written (parts : List (Field × Value)) : List (String × Value) :=
  parts.map fun p => (p.1.spaced, p.2)

/-- No two of some fields share a spelling. -/
def AreApart (fields : List Field) : Prop :=
  fields.Pairwise fun f g => ∀ s ∈ f.spellings, s ∉ g.spellings

instance (fields : List Field) : Decidable (AreApart fields) :=
  inferInstanceAs (Decidable (List.Pairwise _ _))

theorem Field.joined_mem_spellings (f : Field) : f.joined ∈ f.spellings := List.mem_cons_self

theorem Field.spaced_mem_spellings (f : Field) : f.spaced ∈ f.spellings :=
  List.mem_cons_of_mem _ (List.mem_singleton_self _)

theorem lookup_written_eq_none {s : String} {parts : List (Field × Value)}
    (other : ∀ p ∈ parts, s ∉ p.1.spellings) : (written parts).lookup s = none := by
  refine List.lookup_eq_none_iff.2 fun e mem => ?_
  obtain ⟨p, given, rfl⟩ := List.mem_map.1 mem
  refine bne_iff_ne.2 ?_
  rintro rfl
  exact other p given p.1.spaced_mem_spellings

/-- **What is written into a field is found there.** -/
theorem lookup?_written {parts : List (Field × Value)} (apart : AreApart (parts.map Prod.fst))
    {f : Field} {v : Value} (mem : (f, v) ∈ parts) :
    f.lookup? (written parts) = some (f.spaced, v) := by
  induction parts with
  | nil => cases mem
  | cons p rest ih =>
    obtain ⟨first, apart⟩ := List.pairwise_cons.1 apart
    have first : ∀ q ∈ rest, ∀ s ∈ p.1.spellings, s ∉ q.1.spellings := fun q mem =>
      first q.1 (List.mem_map_of_mem mem)
    rw [Field.lookup?, written, List.map_cons, List.lookup_cons, List.lookup_cons]
    rcases List.mem_cons.1 mem with rfl | mem
    · by_cases word : f.joined = f.spaced
      · rw [word, beq_self_eq_true]
      · have missing : (rest.map fun p => (p.1.spaced, p.2)).lookup f.joined = none :=
          lookup_written_eq_none fun q mem => first q mem _ f.joined_mem_spellings
        rw [beq_false_of_ne word, beq_self_eq_true, missing]
        rfl
    · have other {s : String} (spelled : s ∈ f.spellings) : (s == p.1.spaced) = false := by
        refine beq_false_of_ne ?_
        rintro rfl
        exact first _ mem _ p.1.spaced_mem_spellings spelled
      rw [other f.joined_mem_spellings, other f.spaced_mem_spellings]
      exact ih apart mem

theorem unknownFields_written {parts : List (Field × Value)}
    (apart : AreApart (parts.map Prod.fst)) :
    unknownFields (parts.map Prod.fst) (written parts) = [] := by
  refine unknownFields_eq_nil_iff.2 fun e mem => ?_
  obtain ⟨p, given, rfl⟩ := List.mem_map.1 mem
  refine List.any_eq_true.2 ⟨p.1, List.mem_map_of_mem given, ?_⟩
  rw [lookup?_written apart given]
  exact decide_eq_true rfl

/-- A field is read as what its value is accepted as. -/
theorem Field.read_written {parts : List (Field × Value)} (apart : AreApart (parts.map Prod.fst))
    {f : Field} {v : Value} (mem : (f, v) ∈ parts) {absent : Checked α}
    {check : Value → Checked α} {a : α} (good : check v = .good a) :
    f.read absent check (written parts) = .good a :=
  Field.read_eq_good_iff.2 (.inr ⟨_, _, lookup?_written apart mem, good⟩)

theorem nodup_written {parts : List (Field × Value)} (apart : AreApart (parts.map Prod.fst)) :
    ((written parts).map Prod.fst).Nodup := by
  rw [written, List.map_map]
  refine List.pairwise_map.2 ((List.pairwise_map.1 apart).imp fun {p q} differ same => ?_)
  have same : p.1.spaced = q.1.spaced := same
  exact differ _ p.1.spaced_mem_spellings (same ▸ q.1.spaced_mem_spellings)

end Validation

namespace Value

/-- Something that may be missing. -/
def ofOption (write : α → Value) : Option α → Value
  | none => .null
  | some a => write a

/-- Things in a row. -/
def ofList (write : α → Value) (as : List α) : Value := .list (as.map write)

/-- Things under their names. -/
def ofTable (write : α → Value) (entries : List (String × α)) : Value :=
  .record (entries.map fun e => (e.1, write e.2))

/-- One of the words of a type. -/
def ofChoice [Choice α] (a : α) : Value := .text (Choice.spelling a)

/-- A record with all of its fields. -/
def ofFields (parts : List (Field × Value)) : Value := .record (written parts)

end Value

/-! ## Records -/

namespace ApiError

/-- The fields of an error with their values. -/
def parts (e : ApiError) : List (Field × Value) :=
  [(codeField, .int e.code), (descriptionField, .text e.description),
    (schemaField, .ofOption Schema.toValue e.schema)]

/-- An error as a value. -/
def toValue (e : ApiError) : Value := .ofFields e.parts

end ApiError

namespace Parameter

/-- The fields of a parameter with their values. -/
def parts (p : Parameter) : List (Field × Value) :=
  [(nameField, .text p.name), (typeField, .text p.type), (sourceField, .ofChoice p.source),
    (requiredField, .bool p.required), (defaultValueField, .ofOption .text p.defaultValue),
    (descriptionField, .ofOption .text p.description),
    (enumValuesField, .ofList .text p.enumValues)]

/-- A parameter as a value. -/
def toValue (p : Parameter) : Value := .ofFields p.parts

end Parameter

/-- The fields that all operations have, with their values. -/
def Operation.parts (o : Operation) : List (Field × Value) :=
  [(descriptionField, .ofOption .text o.description),
    (supportedLocalesField, .ofList .text o.supportedLocales),
    (parametersField, .ofList Parameter.toValue o.parameters),
    (errorsField, .ofList ApiError.toValue o.errors),
    (stabilityField, .ofOption .ofChoice o.stability)]

namespace Create

/-- The fields of a create operation with their values. -/
def parts (o : Create) : List (Field × Value) :=
  o.toOperation.parts ++
    [(modeField, .ofOption .ofChoice o.mode), (mvccSupportedField, .bool o.mvccSupported)]

/-- A create operation as a value. -/
def toValue (o : Create) : Value := .ofFields o.parts

end Create

/-- A read operation as a value. -/
def Read.toValue (o : Read) : Value := .ofFields o.toOperation.parts

namespace Update

/-- The fields of an update operation with their values. -/
def parts (o : Update) : List (Field × Value) :=
  o.toOperation.parts ++ [(mvccSupportedField, .bool o.mvccSupported)]

/-- An update operation as a value. -/
def toValue (o : Update) : Value := .ofFields o.parts

end Update

namespace Delete

/-- The fields of a delete operation with their values. -/
def parts (o : Delete) : List (Field × Value) :=
  o.toOperation.parts ++ [(mvccSupportedField, .bool o.mvccSupported)]

/-- A delete operation as a value. -/
def toValue (o : Delete) : Value := .ofFields o.parts

end Delete

namespace Patch

/-- The fields of a patch operation with their values. -/
def parts (o : Patch) : List (Field × Value) :=
  o.toOperation.parts ++
    [(operationsField, .ofList .ofChoice o.operations),
      (mvccSupportedField, .bool o.mvccSupported)]

/-- A patch operation as a value. -/
def toValue (o : Patch) : Value := .ofFields o.parts

end Patch

namespace Action

/-- The fields of an action with their values. -/
def parts (o : Action) : List (Field × Value) :=
  o.toOperation.parts ++
    [(nameField, .text o.name), (requestField, .ofOption Schema.toValue o.request),
      (responseField, .ofOption Schema.toValue o.response)]

/-- An action as a value. -/
def toValue (o : Action) : Value := .ofFields o.parts

end Action

namespace Query

/-- The fields of a query with their values. -/
def parts (q : Query) : List (Field × Value) :=
  q.toOperation.parts ++
    [(typeField, .ofChoice q.type), (queryIdField, .ofOption .text q.queryId),
      (pagingModeField, .ofOption .ofChoice q.pagingMode),
      (countPoliciesField, .ofList .ofChoice q.countPolicies),
      (queryableFieldsField, .ofList .text q.queryableFields),
      (sortKeysField, .ofList .text q.sortKeys)]

/-- A query as a value. -/
def toValue (q : Query) : Value := .ofFields q.parts

end Query

namespace Resource

/-- The fields of a resource with their values. -/
def parts (r : Resource) : List (Field × Value) :=
  [(titleField, .ofOption .text r.title), (descriptionField, .ofOption .text r.description),
    (resourceSchemaField, .ofOption Schema.toValue r.resourceSchema),
    (createField, .ofOption Create.toValue r.create), (readField, .ofOption Read.toValue r.read),
    (updateField, .ofOption Update.toValue r.update),
    (deleteField, .ofOption Delete.toValue r.delete),
    (patchField, .ofOption Patch.toValue r.patch),
    (actionsField, .ofList Action.toValue r.actions),
    (queriesField, .ofList Query.toValue r.queries)]

/-- A resource as a value. -/
def toValue (r : Resource) : Value := .ofFields r.parts

end Resource

/-! ## Tables and descriptions -/

/-- A table of paths as a value.  Something unsupported in its place is not kept, and none of what
is accepted has it. -/
def PathTable.toValue : PathTable → Value
  | .flat entries => .ofTable Resource.toValue entries
  | .versioned entries => .ofTable (.ofTable Resource.toValue) entries
  | .unsupported _ => .list []

namespace Description

/-- The fields of a description with their values. -/
def parts (d : Description) : List (Field × Value) :=
  [(idField, .text d.id), (descriptionField, .ofOption .text d.description),
    (pathsField, .ofOption PathTable.toValue d.paths),
    (definitionsField, .ofOption (.ofTable Schema.toValue) d.definitions),
    (errorsField, .ofOption (.ofTable ApiError.toValue) d.errors)]

/-- A description as a value. -/
def toValue (d : Description) : Value := .ofFields d.parts

end Description
end ApiManual
