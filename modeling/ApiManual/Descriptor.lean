import ApiManual.Yaml.Load
import ApiManual.Validation.Description
import ApiManual.FileSystem

/-!
# Descriptors

The text that describes an interface.  It holds one mapping, which is checked as a
description once the keys of all its mappings are texts.

What can be wrong with it falls into two parts.  A *reported* fault is one that the
writer of the descriptor is told about; at the others reading breaks down.
-/

namespace ApiManual
namespace Descriptor

/-- Why a descriptor describes nothing. -/
inductive Fault where
  /-- Its file cannot be read. -/
  | file (fault : FileFault)
  /-- Its text cannot be read. -/
  | text (problem : Yaml.Problem)
  /-- It holds something else than a mapping. -/
  | notMapping
  /-- A key of a mapping has no text. -/
  | key
  /-- Its mapping is no description. -/
  | invalid (issues : List Validation.Issue)

/-- A text whose lines end with line feeds alone. -/
def unifiedLines : List Char → List Char
  | [] => []
  | '\r' :: '\n' :: rest => '\n' :: unifiedLines rest
  | '\r' :: rest => '\n' :: unifiedLines rest
  | c :: rest => c :: unifiedLines rest

/-- The mapping that a text holds. -/
def mappingOfText (text : String) : Except Fault Value := do
  let loaded ← (Yaml.load (unifiedLines text.toList)).mapError .text
  if loaded.isMapping then loaded.value.mapError .text else .error .notMapping

/-- The description that a value spells out, whose keys must have texts. -/
def ofValue (v : Value) : Except Fault Description :=
  if v.hasKeyTexts then
    match Description.ofValue v with
    | .good d => .ok d
    | .bad issues => .error (.invalid issues)
  else .error .key

/-- The description that a text spells out. -/
def ofText (text : String) : Except Fault Description := do
  ofValue (← mappingOfText text)

/-- The description that the bytes of a text spell out. -/
def ofBytes (bs : List UInt8) : Except Fault Description :=
  match Text.utf8Text? bs with
  | some text => ofText text
  | none => .error (.file .notText)

/-- The description in a file. -/
def ofFile (disk : FileSystem) (path : Path) : Except Fault Description := do
  ofText (← (disk.read path).mapError .file)

namespace Fault

/-- Whether the writer of the descriptor is told about a fault. -/
def isReported : Fault → Bool
  | file _ => false
  | text (.breakdown _) => false
  | key => false
  | _ => true

/-- How many of something there are, in words. -/
def counted (n : Nat) (thing : String) : String :=
  Text.intText n ++ " " ++ thing ++ (if n = 1 then "" else "s")

/-- How a reported fault of the descriptor at a path is worded, as far as the first line
goes without the problem of a text; the other faults have no words.  What a report says
further follows from the fault, and is left to its reader. -/
def message (path : Path) : Fault → String
  | file _ => ""
  | text (.breakdown _) => ""
  | key => ""
  | text _ => "Unable to parse " ++ path.text
  | notMapping => path.text ++ ": descriptor must be a mapping at top level"
  | invalid issues => counted issues.length "validation error" ++ " for ApiDescription"

end Fault
end Descriptor
end ApiManual
