import ApiManual.Validation.Paths
import ApiManual.Value.Key

/-!
# Checking descriptions

Catalogs and the description as a whole.
-/

namespace ApiManual
open Validation

/-- What the entries of a catalog are, and what they are called. -/
class CatalogEntry (α : Type) where
  /-- What messages call an entry. -/
  label : String
  /-- The record that an entry is checked as. -/
  record : String
  /-- A value as an entry. -/
  check : Value → Checked α

instance : CatalogEntry Schema := ⟨"schema definition", "Schema", Schema.check⟩

instance : CatalogEntry ApiError := ⟨"error", "ApiError", ApiError.check⟩

namespace Catalog

/-- The rule that a catalog breaks: it has no entry, or one with a bad name. -/
def broken? (label : String) (c : Catalog α) : Option Rule :=
  if c.isEmpty then some (.catalogEmpty label)
  else (Name.firstInvalid? (c.map Prod.fst)).map fun n => .name label (.text n)

/-- A value as a catalog. -/
def check [CatalogEntry α] (v : Value) : Checked (Catalog α) :=
  (mapping CatalogEntry.check v).obeying (broken? (CatalogEntry.label α))

end Catalog

namespace Description

def idField : Field := .word "id"
def descriptionField : Field := .word "description"
def pathsField : Field := .word "paths"
def definitionsField : Field := .word "definitions"
def errorsField : Field := .word "errors"

/-- The fields of a description. -/
def fields : List Field :=
  [idField, descriptionField, pathsField, definitionsField, errorsField]

/-- The rule that a blank id breaks. -/
def brokenId? (id : String) : Option Rule :=
  if id.toList.all Text.isBlank then some .idRequired else none

/-- A value as a description. -/
def check : Value → Checked Description :=
  record "ApiDescription" fields fun es =>
    mk <$> idField.required (fun v => (text v).obeying brokenId?) es <*>
      descriptionField.optional text es <*> pathsField.optional PathTable.check es <*>
      definitionsField.optional Catalog.check es <*> errorsField.optional Catalog.check es

/-- The description that a value spells out, its keys taken as texts. -/
def ofValue (v : Value) : Checked Description := check v.nameKeys

end Description
end ApiManual
