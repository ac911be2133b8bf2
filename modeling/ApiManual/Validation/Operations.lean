import ApiManual.Validation.Record
import ApiManual.Description.Basic

/-!
# Checking operations

The records from schemas up to resources.  For each record there is the list of its
fields and the check of a value as such a record.
-/

namespace ApiManual
open Validation

/-- A schema: any mapping from texts. -/
def Schema.check : Value → Checked Schema := dictionary .good fun body => .good ⟨body⟩

namespace ApiError

def codeField : Field := .word "code"
def descriptionField : Field := .word "description"
def schemaField : Field := ⟨"schema", "error_schema"⟩

/-- The fields of an error. -/
def fields : List Field := [codeField, descriptionField, schemaField]

/-- An error. -/
def check : Value → Checked ApiError :=
  record "ApiError" fields fun es =>
    mk <$> codeField.required int es <*> descriptionField.required text es <*>
      schemaField.optional Schema.check es

end ApiError

namespace Parameter

def nameField : Field := .word "name"
def typeField : Field := .word "type"
def sourceField : Field := .word "source"
def requiredField : Field := .word "required"
def defaultValueField : Field := ⟨"defaultValue", "default_value"⟩
def descriptionField : Field := .word "description"
def enumValuesField : Field := ⟨"enumValues", "enum_values"⟩

/-- The fields of a parameter. -/
def fields : List Field :=
  [nameField, typeField, sourceField, requiredField, defaultValueField, descriptionField,
    enumValuesField]

/-- The values to choose from; in a list, scalars count as texts.  One that has none is
found out before the others are looked at. -/
def checkEnumValues (v : Value) : Checked (List String) :=
  match v with
  | .list vs =>
    if vs.all hasNumberText then items text 0 (vs.map scalarAsText)
    else .refuse (.rule .numberText)
  | v => list text v

/-- A parameter. -/
def check : Value → Checked Parameter :=
  record "Parameter" fields fun es =>
    mk <$> nameField.required text es <*> typeField.defaulted "string" text es <*>
      sourceField.defaulted .additional choice es <*> requiredField.defaulted false bool es <*>
      defaultValueField.optional scalarText es <*>
      descriptionField.optional text es <*> enumValuesField.defaulted [] checkEnumValues es

end Parameter

namespace Operation

def descriptionField : Field := .word "description"
def supportedLocalesField : Field := ⟨"supportedLocales", "supported_locales"⟩
def parametersField : Field := .word "parameters"
def errorsField : Field := .word "errors"
def stabilityField : Field := .word "stability"

/-- The fields that all operations have. -/
def fields : List Field :=
  [descriptionField, supportedLocalesField, parametersField, errorsField, stabilityField]

/-- What all operations have. -/
def build (es : List (String × Value)) : Checked Operation :=
  mk <$> descriptionField.optional text es <*> supportedLocalesField.defaulted [] (list text) es <*>
    parametersField.defaulted [] (list Parameter.check) es <*>
    errorsField.defaulted [] (list ApiError.check) es <*> stabilityField.optional choice es

end Operation

/-- The field that says whether concurrent changes are told apart. -/
def mvccSupportedField : Field := ⟨"mvccSupported", "mvcc_supported"⟩

namespace Create

def modeField : Field := .word "mode"

/-- The fields of a create operation. -/
def fields : List Field := Operation.fields ++ [modeField, mvccSupportedField]

/-- A create operation. -/
def check : Value → Checked Create :=
  record "Create" fields fun es =>
    mk <$> Operation.build es <*> modeField.optional choice es <*>
      mvccSupportedField.defaulted false bool es

end Create

namespace Read

/-- A read operation. -/
def check : Value → Checked Read :=
  record "Read" Operation.fields fun es => mk <$> Operation.build es

end Read

namespace Update

/-- The fields of an update operation. -/
def fields : List Field := Operation.fields ++ [mvccSupportedField]

/-- An update operation. -/
def check : Value → Checked Update :=
  record "Update" fields fun es =>
    mk <$> Operation.build es <*> mvccSupportedField.defaulted false bool es

end Update

namespace Delete

/-- The fields of a delete operation. -/
def fields : List Field := Operation.fields ++ [mvccSupportedField]

/-- A delete operation. -/
def check : Value → Checked Delete :=
  record "Delete" fields fun es =>
    mk <$> Operation.build es <*> mvccSupportedField.defaulted false bool es

end Delete

namespace Patch

def operationsField : Field := .word "operations"

/-- The fields of a patch operation. -/
def fields : List Field := Operation.fields ++ [operationsField, mvccSupportedField]

/-- A patch operation. -/
def check : Value → Checked Patch :=
  record "Patch" fields fun es =>
    mk <$> Operation.build es <*> operationsField.defaulted [] (list choice) es <*>
      mvccSupportedField.defaulted false bool es

end Patch

namespace Action

def nameField : Field := .word "name"
def requestField : Field := .word "request"
def responseField : Field := .word "response"

/-- The fields of an action. -/
def fields : List Field := Operation.fields ++ [nameField, requestField, responseField]

/-- The rule that the name of an action breaks. -/
def brokenName? (name : String) : Option Rule :=
  if Name.isValid name.toList then none else some (.name "action" (.text name))

/-- An action. -/
def check : Value → Checked Action :=
  record "Action" fields fun es =>
    mk <$> Operation.build es <*>
      nameField.required (fun v => (text v).obeying brokenName?) es <*>
      requestField.optional Schema.check es <*> responseField.optional Schema.check es

end Action

namespace Query

def typeField : Field := .word "type"
def queryIdField : Field := ⟨"queryId", "query_id"⟩
def pagingModeField : Field := ⟨"pagingMode", "paging_mode"⟩
def countPoliciesField : Field := ⟨"countPolicies", "count_policies"⟩
def queryableFieldsField : Field := ⟨"queryableFields", "queryable_fields"⟩
def sortKeysField : Field := ⟨"sortKeys", "sort_keys"⟩

/-- The fields of a query. -/
def fields : List Field :=
  Operation.fields ++ [typeField, queryIdField, pagingModeField, countPoliciesField,
    queryableFieldsField, sortKeysField]

/-- The rule that a query breaks which asks by an id and names none. -/
def brokenId? (q : Query) : Option Rule :=
  if q.type = .id ∧ (q.queryId.getD "").isEmpty then some .queryIdRequired else none

/-- A query. -/
def check (v : Value) : Checked Query :=
  (record "Query" fields (fun es =>
    mk <$> Operation.build es <*> typeField.required choice es <*>
      queryIdField.optional text es <*> pagingModeField.optional choice es <*>
      countPoliciesField.defaulted [] (list choice) es <*>
      queryableFieldsField.defaulted [] (list text) es <*>
      sortKeysField.defaulted [] (list text) es) v).obeying brokenId?

end Query

namespace Resource

def titleField : Field := .word "title"
def descriptionField : Field := .word "description"
def resourceSchemaField : Field := ⟨"resourceSchema", "resource_schema"⟩
def createField : Field := .word "create"
def readField : Field := .word "read"
def updateField : Field := .word "update"
def deleteField : Field := .word "delete"
def patchField : Field := .word "patch"
def actionsField : Field := .word "actions"
def queriesField : Field := .word "queries"

/-- The fields of a resource. -/
def fields : List Field :=
  [titleField, descriptionField, resourceSchemaField, createField, readField, updateField,
    deleteField, patchField, actionsField, queriesField]

/-- The rule that a resource breaks in which two actions or two queries are known by
one name. -/
def brokenUniqueness? (r : Resource) : Option Rule :=
  match firstRepeated? [] (r.actions.map Action.name) with
  | some name => some (.duplicateAction name)
  | none => (firstRepeated? [] (r.queries.map Query.key)).map .duplicateQuery

/-- A resource. -/
def check (v : Value) : Checked Resource :=
  (record "Resource" fields (fun es =>
    mk <$> titleField.optional text es <*> descriptionField.optional text es <*>
      resourceSchemaField.optional Schema.check es <*> createField.optional Create.check es <*>
      readField.optional Read.check es <*> updateField.optional Update.check es <*>
      deleteField.optional Delete.check es <*> patchField.optional Patch.check es <*>
      actionsField.defaulted [] (list Action.check) es <*>
      queriesField.defaulted [] (list Query.check) es) v).obeying brokenUniqueness?

end Resource
end ApiManual
