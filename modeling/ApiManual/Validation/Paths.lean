import ApiManual.Validation.Operations
import ApiManual.Text.Order

/-!
# Tables of paths

Whether a table of paths has versions is decided from its entries as they are
given, before any of them is checked: an entry has versions when it is a mapping
with at least one key, none of which is a field of a resource in either spelling.
All entries have to agree.  Then the table is checked as one of that shape.
-/

namespace ApiManual
open Validation

/-- An entry of a table of paths: given as a value, or built before. -/
inductive PathEntry where
  | given (v : Value)
  | resource (r : Resource)
  | versions (vs : Versions)

/-- The names of the fields of a resource, in both spellings. -/
def Resource.fieldNames : List String := Resource.fields.flatMap Field.spellings

/-- The rule that a table breaks in which a path or a version is empty. -/
def brokenKeys? (label : String) (entries : List (String × α)) : Option Rule :=
  if entries.any fun e => e.1.isEmpty then some (.nonEmpty label) else none

/-- The versions of a path. -/
def Versions.check (v : Value) : Checked Versions :=
  (mapping Resource.check v).obeying (brokenKeys? "version")

namespace PathEntry

/-- Whether an entry has versions. -/
def isVersioned : PathEntry → Bool
  | .versions _ => true
  | .resource _ => false
  | .given v => match entriesOf? v with
    | some es => !es.isEmpty && es.all fun e => !Resource.fieldNames.contains e.1
    | none => false

/-- An entry as a resource. -/
def asResource : PathEntry → Checked Resource
  | .given v => Resource.check v
  | .resource r => .good r
  | .versions _ => .refuse (.notModel "Resource")

/-- An entry as versions. -/
def asVersions : PathEntry → Checked Versions
  | .given v => Versions.check v
  | .resource _ => .refuse .notMapping
  | .versions vs => .good vs

end PathEntry

namespace PathTable

/-- A table without versions. -/
def checkFlat (es : List (String × PathEntry)) : Checked (List (String × Resource)) :=
  (entries PathEntry.asResource es).obeying (brokenKeys? "path")

/-- A table with versions. -/
def checkVersioned (es : List (String × PathEntry)) : Checked (List (String × Versions)) :=
  (entries PathEntry.asVersions es).obeying (brokenKeys? "path")

/-- The entries of a mapping, none of them built yet. -/
def givenEntries (es : List (String × Value)) : List (String × PathEntry) :=
  es.map fun e => (e.1, .given e.2)

/-- A value as a table without versions. -/
def flatOf : Value → Checked PathTable :=
  dictionary Resource.check fun es => (checkFlat (givenEntries es)).map .flat

/-- A value as a table with versions. -/
def versionedOf : Value → Checked PathTable :=
  dictionary Versions.check fun es => (checkVersioned (givenEntries es)).map .versioned

/-- The shape of a table, or the rule that its entries break. -/
inductive Shape where
  | flat
  | versioned
  | mixed (versioned : List String)
  deriving DecidableEq, Repr

/-- The shape that the entries of a table agree on. -/
def shapeOf (es : List (String × PathEntry)) : Shape :=
  let versioned := es.filter fun e => e.2.isVersioned
  if versioned.isEmpty then .flat
  else if versioned.length = es.length then .versioned
  else .mixed (Text.sortNames (versioned.map Prod.fst))

/-- Why entries do not make a table: they do not agree on a shape, or something is
wrong with them as a table of theirs. -/
inductive Fault where
  | broken (rule : Rule)
  | invalid (shape : Shape) (issues : List Issue)

/-- The table of some entries. -/
def ofEntries (es : List (String × PathEntry)) : Except Fault PathTable :=
  match shapeOf es with
  | .mixed names => .error (.broken (.mixedPaths names))
  | .flat => match checkFlat es with
    | .good rs => .ok (.flat rs)
    | .bad issues => .error (.invalid .flat issues)
  | .versioned => match checkVersioned es with
    | .good vs => .ok (.versioned vs)
    | .bad issues => .error (.invalid .versioned issues)

/-- The table that a value describes.  A mapping with other keys than texts is refused
for these keys, before its shape is looked at. -/
def ofValue (v : Value) : Except Fault PathTable :=
  match entriesOf? v, v with
  | some es, _ => ofEntries (givenEntries es)
  | none, .map es => .error (.invalid .flat (keyedIssues Resource.check es))
  | none, v => .error (.broken (.pathsMapping v.kind))

/-- The table of a field. -/
def check (v : Value) : Checked PathTable :=
  match ofValue v with
  | .ok t => .good t
  | .error (.broken rule) => .refuse (.rule rule)
  | .error (.invalid _ issues) => .bad issues

end PathTable
end ApiManual
