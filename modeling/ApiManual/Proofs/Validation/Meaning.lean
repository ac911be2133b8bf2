import ApiManual.Proofs.Manual.Rearranged
import ApiManual.Proofs.Validation.Reordering
import ApiManual.Proofs.Validation.Rules

/-!
# What values in one place come to

Values in one place are checked in one way, and `AgreeAs role v v'` says that the checks of
that place agree on `v` and `v'`: as schemas they have to be equal, as actions they come to
the same ones in any order, as a path they have versions both or neither.  In a place where
scalars are expected, nothing counts below the items of a list (`Value.surface`).

For each kind of record it is shown here that two of them agree as soon as what stands under
their keys does, with whatever order of keys.  Fields are found by their spellings, so all
there is to say of a field is which place it leads to.
-/

namespace ApiManual

open Validation Checked

/-! ## Checks of scalars -/

namespace Value

/-- A value as an item of a list of scalars. -/
def flat : Value → Value
  | .list _ => .map []
  | .map _ => .map []
  | v => v

/-- A value as far as it can be a scalar or a list of these. -/
def surface : Value → Value
  | .list vs => .list (vs.map flat)
  | .map _ => .map []
  | v => v

theorem flat_surface (v : Value) : v.surface.flat = v.flat := by cases v <;> rfl

end Value

namespace Validation

variable {α β : Type}

/-- A check that looks at scalars alone. -/
def IsFlat (check : Value → Checked α) : Prop := ∀ v, check v.flat = check v

/-- A check that looks at nothing below the items of a list. -/
def IsShallow (check : Value → Checked α) : Prop := ∀ v, check v.surface = check v

theorem items_map (check : Value → Checked α) (f : Value → Value) (i : Nat) (vs : List Value) :
    items check i (vs.map f) = items (fun v => check (f v)) i vs := by
  induction vs generalizing i with
  | nil => rfl
  | cons v rest ih => rw [List.map_cons, items, items, ih]

namespace IsFlat

variable {check : Value → Checked α}

theorem isShallow (h : IsFlat check) : IsShallow check := fun v => by
  rw [← h v.surface, Value.flat_surface, h]

theorem items (h : IsFlat check) (i : Nat) (vs : List Value) :
    items check i (vs.map Value.flat) = Validation.items check i vs := by
  rw [items_map, show (fun v => check v.flat) = check from funext h]

/-- A list of such values. -/
theorem list (h : IsFlat check) : IsShallow (list check) := by
  intro v
  cases v with
  | list vs => exact h.items 0 vs
  | _ => rfl

theorem obeying (h : IsFlat check) (broken? : α → Option Rule) :
    IsFlat fun v => (check v).obeying broken? := fun v => congrArg (Checked.obeying broken?) (h v)

end IsFlat

theorem isFlat_text : IsFlat text := by
  intro v
  cases v <;> rfl

theorem isFlat_choice [Choice α] : IsFlat (choice : Value → Checked α) := by
  intro v
  cases v <;> rfl

theorem isFlat_int : IsFlat int := by
  intro v
  cases v <;> rfl

theorem isFlat_bool : IsFlat bool := by
  intro v
  cases v <;> rfl

theorem hasNumberText_flat (v : Value) : hasNumberText v.flat = hasNumberText v := by
  cases v <;> rfl

theorem isFlat_scalarAsText : IsFlat fun v => text (scalarAsText v) := by
  intro v
  cases v <;> rfl

theorem isFlat_scalarText : IsFlat scalarText := by
  intro v
  cases v <;> rfl

theorem isShallow_enumValues : IsShallow Parameter.checkEnumValues := by
  intro v
  cases v with
  | list vs =>
    have numbers : (vs.map Value.flat).all hasNumberText = vs.all hasNumberText := by
      rw [List.all_map]
      exact congrArg _ (funext hasNumberText_flat)
    rw [Value.surface, Parameter.checkEnumValues, Parameter.checkEnumValues, numbers, items_map,
      isFlat_scalarAsText.items, items_map]
  | _ => rfl

/-! ## Agreement in a place -/

/-- All checks of operations agree. -/
structure OperationsAgree (v v' : Value) : Prop where
  create : Agree Eq (Create.check v) (Create.check v')
  read : Agree Eq (Read.check v) (Read.check v')
  update : Agree Eq (Update.check v) (Update.check v')
  delete : Agree Eq (Delete.check v) (Delete.check v')
  patch : Agree Eq (Patch.check v) (Patch.check v')

/-- Two paths have versions both or neither, and come to the same as what they are. -/
structure PathsAgree (v v' : Value) : Prop where
  shape : (PathEntry.given v).isVersioned = (PathEntry.given v').isVersioned
  resource : (PathEntry.given v).isVersioned = false →
    Agree Resource.Rearranged (Resource.check v) (Resource.check v')
  versions : (PathEntry.given v).isVersioned = true →
    Agree (Corresponds fun _ => Resource.Rearranged) (Versions.check v) (Versions.check v')

/-- Two values come to the same as what stands in a place. -/
def AgreeAs : Role → Value → Value → Prop
  | .description, v, v' => Agree Description.Rearranged (Description.check v) (Description.check v')
  | .paths, v, v' => Agree PathTable.Rearranged (PathTable.check v) (PathTable.check v')
  | .path, v, v' => PathsAgree v v'
  | .versions, v, v' =>
    Agree (Corresponds fun _ => Resource.Rearranged) (Versions.check v) (Versions.check v')
  | .resource, v, v' => Agree Resource.Rearranged (Resource.check v) (Resource.check v')
  | .operation, v, v' => OperationsAgree v v'
  | .actions, v, v' => Agree List.Perm (list Action.check v) (list Action.check v')
  | .action, v, v' => Agree Eq (Action.check v) (Action.check v')
  | .queries, v, v' => Agree List.Perm (list Query.check v) (list Query.check v')
  | .query, v, v' => Agree Eq (Query.check v) (Query.check v')
  | .parameters, v, v' => Agree Eq (list Parameter.check v) (list Parameter.check v')
  | .parameter, v, v' => Agree Eq (Parameter.check v) (Parameter.check v')
  | .operationErrors, v, v' => Agree Eq (list ApiError.check v) (list ApiError.check v')
  | .error, v, v' => Agree Eq (ApiError.check v) (ApiError.check v')
  | .definitions, v, v' => Agree (Corresponds fun _ (s t : Schema) => s = t)
      (Catalog.check v) (Catalog.check v')
  | .errors, v, v' => Agree (Corresponds fun _ (e f : ApiError) => e = f)
      (Catalog.check v) (Catalog.check v')
  | .schema, v, v' => v = v'
  | .other, v, v' => v.surface = v'.surface

/-- Two values in one place are related as such, be they nothing at all. -/
structure MatchesAs (A : Role → Value → Value → Prop) (role : Role) (v v' : Value) : Prop where
  null : v = .null ↔ v' = .null
  agree : A role v v'

/-- Two values in one place come to the same there. -/
abbrev Matches : Role → Value → Value → Prop := MatchesAs AgreeAs

/-- Two mappings in one place have the same keys, and under each of them values that come to the
same there. -/
abbrev EntriesMatch (role : Role) : List (String × Value) → List (String × Value) → Prop :=
  Corresponds fun key => Matches (role.under key)

/-- The fields of the record that stands in a place; for an operation those of all kinds of
operations. -/
def Role.fields : Role → List Field
  | .description => Description.fields
  | .resource => Resource.fields
  | .operation =>
    Operation.fields ++ [Create.modeField, Patch.operationsField, mvccSupportedField]
  | .action => Action.fields
  | .query => Query.fields
  | .parameter => Parameter.fields
  | .error => ApiError.fields
  | _ => []

/-- Two mappings in one place have the same fields, with values that are related in theirs. -/
abbrev FieldsMatch (A : Role → Value → Value → Prop) (role : Role) :
    List (String × Value) → List (String × Value) → Prop :=
  FieldsAgree (fun key => MatchesAs A (role.under key)) role.fields

theorem agree_of_isShallow {check : Value → Checked α} (h : IsShallow check) (v v' : Value)
    (same : AgreeAs .other v v') : Agree Eq (check v) (check v') := by
  have same : v.surface = v'.surface := same
  exact .of_eq (by rw [← h v, same, h])

/-! ## Fields -/

/-- A field of the record in a place, whose spellings lead to another place. -/
abbrev Role.HasField (role : Role) (f : Field) (place : Role) : Prop :=
  f ∈ role.fields ∧ ∀ key ∈ f.spellings, role.under key = place

namespace FieldsMatch

variable {A : Role → Value → Value → Prop} {role place : Role} {es es' : List (String × Value)}
  {f : Field} {S : α → α → Prop} {check : Value → Checked α}

/-- A field that has to be given, and leads to a place in which its check agrees. -/
theorem required (h : FieldsMatch A role es es') (here : role.HasField f place)
    (sees : ∀ v v', A place v v' → Agree S (check v) (check v')) :
    Agree S (f.required check es) (f.required check es') :=
  Field.required_agree (h.given f here.1) fun key mem v v' found =>
    sees v v' (here.2 key mem ▸ found.agree)

/-- A field with a value of its own when it is not given. -/
theorem defaulted {default : α} (h : FieldsMatch A role es es') (here : role.HasField f place)
    (missing : S default default)
    (sees : ∀ v v', A place v v' → Agree S (check v) (check v')) :
    Agree S (f.defaulted default check es) (f.defaulted default check es') :=
  Field.defaulted_agree (h.given f here.1) missing fun key mem v v' found =>
    sees v v' (here.2 key mem ▸ found.agree)

/-- A field that may be left out or empty. -/
theorem optional (h : FieldsMatch A role es es') (here : role.HasField f place)
    (sees : ∀ v v', A place v v' → Agree S (check v) (check v')) :
    Agree (Option.Rel S) (f.optional check es) (f.optional check es') :=
  Field.optional_agree (h.given f here.1) (fun _ _ _ found => found.null)
    fun key mem v v' found => sees v v' (here.2 key mem ▸ found.agree)

/-- The same if what is found there is equal. -/
theorem optional_eq (h : FieldsMatch A role es es') (here : role.HasField f place)
    (sees : ∀ v v', A place v v' → Agree Eq (check v) (check v')) :
    Agree Eq (f.optional check es) (f.optional check es') :=
  (h.optional here sees).imp fun _ _ => eq_of_rel

/-- A field of scalars that may be left out or empty. -/
theorem optional_scalar (h : FieldsMatch AgreeAs role es es') (here : role.HasField f .other)
    (shallow : IsShallow check) : Agree Eq (f.optional check es) (f.optional check es') :=
  h.optional_eq here (agree_of_isShallow shallow)

/-- A field of scalars with a value of its own when it is not given. -/
theorem defaulted_scalar {default : α} (h : FieldsMatch AgreeAs role es es')
    (here : role.HasField f .other) (shallow : IsShallow check) :
    Agree Eq (f.defaulted default check es) (f.defaulted default check es') :=
  h.defaulted here rfl (agree_of_isShallow shallow)

/-- A field of scalars that has to be given. -/
theorem required_scalar (h : FieldsMatch AgreeAs role es es') (here : role.HasField f .other)
    (shallow : IsShallow check) : Agree Eq (f.required check es) (f.required check es') :=
  h.required here (agree_of_isShallow shallow)

end FieldsMatch

theorem agree_schema (v v' : Value) (same : AgreeAs .schema v v') :
    Agree Eq (Schema.check v) (Schema.check v') := .of_eq (congrArg Schema.check same)

end Validation

/-! ## Records

In each of these `v` and `v'` are mappings with entries `es` and `es'`. -/

section Records

variable {role : Role} {v v' : Value} {es es' : List (String × Value)}

theorem ApiError.check_agree (hv : entriesOf? v = some es) (hv' : entriesOf? v' = some es')
    (h : FieldsMatch AgreeAs .error es es') : Agree Eq (ApiError.check v) (ApiError.check v') := by
  refine h.record hv hv' (by decide) (.seq_eq (.seq_eq (.map_eq _ ?code) ?description) ?schema)
  case code => exact h.required_scalar (by decide) isFlat_int.isShallow
  case description => exact h.required_scalar (by decide) isFlat_text.isShallow
  case schema => exact h.optional_eq (by decide) agree_schema

theorem Parameter.check_agree (hv : entriesOf? v = some es) (hv' : entriesOf? v' = some es')
    (h : FieldsMatch AgreeAs .parameter es es') :
    Agree Eq (Parameter.check v) (Parameter.check v') := by
  refine h.record hv hv' (by decide) (.seq_eq (.seq_eq (.seq_eq (.seq_eq (.seq_eq (.seq_eq
    (.map_eq _ ?name) ?type) ?source) ?required) ?default) ?description) ?enumValues)
  case name => exact h.required_scalar (by decide) isFlat_text.isShallow
  case type => exact h.defaulted_scalar (by decide) isFlat_text.isShallow
  case source => exact h.defaulted_scalar (by decide) isFlat_choice.isShallow
  case required => exact h.defaulted_scalar (by decide) isFlat_bool.isShallow
  case default => exact h.optional_scalar (by decide) isFlat_scalarText.isShallow
  case description => exact h.optional_scalar (by decide) isFlat_text.isShallow
  case enumValues => exact h.defaulted_scalar (by decide) isShallow_enumValues

/-- What all operations have, wherever its fields lead to the places of an operation. -/
theorem Operation.build_agree (h : FieldsMatch AgreeAs role es es')
    (place : role = .operation ∨ role = .action ∨ role = .query) :
    Agree Eq (Operation.build es) (Operation.build es') := by
  have here (f : Field) (r : Role)
      (all : ∀ role ∈ [Role.operation, .action, .query], role.HasField f r) :
      role.HasField f r := all role (by simpa using place)
  refine .seq_eq (.seq_eq (.seq_eq (.seq_eq (.map_eq _ ?description) ?locales) ?parameters)
    ?errors) ?stability
  case description => exact h.optional_scalar (here _ _ (by decide)) isFlat_text.isShallow
  case locales => exact h.defaulted_scalar (here _ _ (by decide)) isFlat_text.list
  case parameters => exact h.defaulted (here _ .parameters (by decide)) rfl fun _ _ found => found
  case errors => exact h.defaulted (here _ .operationErrors (by decide)) rfl fun _ _ found => found
  case stability => exact h.optional_scalar (here _ _ (by decide)) isFlat_choice.isShallow

theorem Create.check_agree (hv : entriesOf? v = some es) (hv' : entriesOf? v' = some es')
    (h : FieldsMatch AgreeAs .operation es es') : Agree Eq (Create.check v) (Create.check v') := by
  refine h.record hv hv' (by decide) (.seq_eq (.seq_eq (.map_eq _ ?operation) ?mode) ?mvcc)
  case operation => exact Operation.build_agree h (.inl rfl)
  case mode => exact h.optional_scalar (by decide) isFlat_choice.isShallow
  case mvcc => exact h.defaulted_scalar (by decide) isFlat_bool.isShallow

theorem Read.check_agree (hv : entriesOf? v = some es) (hv' : entriesOf? v' = some es')
    (h : FieldsMatch AgreeAs .operation es es') : Agree Eq (Read.check v) (Read.check v') :=
  h.record hv hv' (by decide) (.map_eq _ (Operation.build_agree h (.inl rfl)))

theorem Update.check_agree (hv : entriesOf? v = some es) (hv' : entriesOf? v' = some es')
    (h : FieldsMatch AgreeAs .operation es es') : Agree Eq (Update.check v) (Update.check v') := by
  refine h.record hv hv' (by decide) (.seq_eq (.map_eq _ ?operation) ?mvcc)
  case operation => exact Operation.build_agree h (.inl rfl)
  case mvcc => exact h.defaulted_scalar (by decide) isFlat_bool.isShallow

theorem Delete.check_agree (hv : entriesOf? v = some es) (hv' : entriesOf? v' = some es')
    (h : FieldsMatch AgreeAs .operation es es') : Agree Eq (Delete.check v) (Delete.check v') := by
  refine h.record hv hv' (by decide) (.seq_eq (.map_eq _ ?operation) ?mvcc)
  case operation => exact Operation.build_agree h (.inl rfl)
  case mvcc => exact h.defaulted_scalar (by decide) isFlat_bool.isShallow

theorem Patch.check_agree (hv : entriesOf? v = some es) (hv' : entriesOf? v' = some es')
    (h : FieldsMatch AgreeAs .operation es es') : Agree Eq (Patch.check v) (Patch.check v') := by
  refine h.record hv hv' (by decide) (.seq_eq (.seq_eq (.map_eq _ ?operation) ?operations) ?mvcc)
  case operation => exact Operation.build_agree h (.inl rfl)
  case operations => exact h.defaulted_scalar (by decide) isFlat_choice.list
  case mvcc => exact h.defaulted_scalar (by decide) isFlat_bool.isShallow

theorem Action.check_agree (hv : entriesOf? v = some es) (hv' : entriesOf? v' = some es')
    (h : FieldsMatch AgreeAs .action es es') : Agree Eq (Action.check v) (Action.check v') := by
  refine h.record hv hv' (by decide) (.seq_eq (.seq_eq (.seq_eq (.map_eq _ ?operation) ?name)
    ?request) ?response)
  case operation => exact Operation.build_agree h (.inr (.inl rfl))
  case name => exact h.required_scalar (by decide) (isFlat_text.obeying _).isShallow
  case request => exact h.optional_eq (by decide) agree_schema
  case response => exact h.optional_eq (by decide) agree_schema

theorem Query.check_agree (hv : entriesOf? v = some es) (hv' : entriesOf? v' = some es')
    (h : FieldsMatch AgreeAs .query es es') : Agree Eq (Query.check v) (Query.check v') := by
  refine Agree.obeying_eq _ (h.record hv hv' (by decide) (.seq_eq (.seq_eq (.seq_eq (.seq_eq
    (.seq_eq (.seq_eq (.map_eq _ ?operation) ?type) ?queryId) ?pagingMode) ?policies) ?fields) ?sortKeys))
  case operation => exact Operation.build_agree h (.inr (.inr rfl))
  case type => exact h.required_scalar (by decide) isFlat_choice.isShallow
  case queryId => exact h.optional_scalar (by decide) isFlat_text.isShallow
  case pagingMode => exact h.optional_scalar (by decide) isFlat_choice.isShallow
  case policies => exact h.defaulted_scalar (by decide) isFlat_choice.list
  case fields => exact h.defaulted_scalar (by decide) isFlat_text.list
  case sortKeys => exact h.defaulted_scalar (by decide) isFlat_text.list

end Records
end ApiManual
