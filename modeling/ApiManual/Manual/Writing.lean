import ApiManual.Manual.Body
import ApiManual.FileSystem
import ApiManual.Registry
import ApiManual.Text.Order

/-!
# Writing a manual

A manual is written document by document.  Each document claims its namespace and
goes into the file of that name, and whoever includes it is told the name of the
file.  An aggregate claims its namespace before anything below it and is written
after all of it.  A body is put into words before its namespace is claimed, so one
that cannot be put into words stops the writing first.

The writing goes on until something stops it: a namespace that is taken, a file that
cannot be written, a body that cannot be put into words.  What has been written by
then stays.
-/

namespace ApiManual
namespace Manual

open Asciidoc

/-! ## Progress -/

/-- Why a manual is not written to its end. -/
inductive Failure where
  /-- What stands in the place of the paths is no table of paths. -/
  | unsupportedPaths (kind : Value.Kind)
  /-- Two documents have one namespace. -/
  | collision (c : Collision)
  /-- A file cannot be written. -/
  | file (fault : FileFault) (path : Path)
  /-- The body of a document cannot be put into words. -/
  | body (fault : Json.WriteFault)
  deriving DecidableEq, Repr

/-- How far the writing has come. -/
structure Progress where
  registry : Registry
  /-- The files written so far, in order. -/
  written : List String
  disk : FileSystem

/-- A part of the writing of a manual.  A failure ends the writing, but leaves what
has been done. -/
abbrev Writing := ExceptT Failure (StateM Progress)

/-- The ending of file names. -/
def fileExtension : String := ".adoc"

/-- The file of a namespace. -/
def fileOf (ns : String) : String := ns ++ fileExtension

/-- Claims the namespace of a segment under a parent, and returns it. -/
def claim (parent : Option String) (segment : String) : Writing String := do
  let p ← get
  match p.registry.grant ⟨parent, segment⟩ with
  | .ok registry =>
    set { p with registry }
    return Namespace.child parent segment
  | .error collision => throw (.collision collision)

/-- Writes a document into the file of a namespace, and returns the name of the
file. -/
def save (out : Path) (doc : List Block) (ns : String) : Writing String := do
  let p ← get
  let path := out.child (Path.parse (fileOf ns))
  match p.disk.write path (render doc) with
  | .ok disk =>
    set { p with written := p.written ++ [fileOf ns], disk }
    return fileOf ns
  | .error fault => throw (.file fault path)

/-- A claim grants its namespace and changes nothing else, or ends the writing. -/
theorem run_claim (parent : Option String) (segment : String) (p : Progress) :
    (claim parent segment).run.run p = match p.registry.grant ⟨parent, segment⟩ with
      | .ok registry => (.ok (Namespace.child parent segment), { p with registry })
      | .error collision => (.error (.collision collision), p) := by
  have body : (claim parent segment).run.run p =
      ((match p.registry.grant ⟨parent, segment⟩ with
        | .ok registry => do
          set { p with registry }
          return Namespace.child parent segment
        | .error collision => throw (.collision collision)) : Writing String).run.run p := rfl
  rw [body]
  cases p.registry.grant ⟨parent, segment⟩ <;> rfl

/-- A document that is saved is on the disk and among those written, or ends the
writing. -/
theorem run_save (out : Path) (doc : List Block) (ns : String) (p : Progress) :
    (save out doc ns).run.run p =
      match p.disk.write (out.child (Path.parse (fileOf ns))) (render doc) with
      | .ok disk => (.ok (fileOf ns), { p with written := p.written ++ [fileOf ns], disk })
      | .error fault => (.error (.file fault (out.child (Path.parse (fileOf ns)))), p) := by
  have body : (save out doc ns).run.run p =
      ((match p.disk.write (out.child (Path.parse (fileOf ns))) (render doc) with
        | .ok disk => do
          set { p with written := p.written ++ [fileOf ns], disk }
          return fileOf ns
        | .error fault => throw (.file fault (out.child (Path.parse (fileOf ns))))) :
          Writing String).run.run p := rfl
  rw [body]
  cases p.disk.write (out.child (Path.parse (fileOf ns))) (render doc) <;> rfl

/-- A body that is needed now. -/
def needed (body : Except Json.WriteFault (List Block)) : Writing (List Block) :=
  match body with
  | .ok blocks => return blocks
  | .error fault => throw (.body fault)

/-- A section title one level below another level, which must not be the deepest. -/
def titleBelow (level : Nat) (_ : level < deepestLevel) (title : String) : Block :=
  .sectionTitle title (level + 1)

variable (out : Path)

/-! ## Resources -/

/-- Writes the body of a section into a document of its own, and returns what the
resource says about it. -/
def writeSection (level : Nat) (h : level < deepestLevel) (parent title segment : String)
    (body : Except Json.WriteFault (List Block)) : Writing (List Block) := do
  let blocks ← needed body
  let file ← save out blocks (← claim (some parent) segment)
  return [titleBelow level h title, .inclusion file]

/-- Writes a document for each item in the order of their names, and one that
includes them all. -/
def writeNamed (level : Nat) (h : level < deepestLevel) (parent segment : String)
    (name : α → String) (blocks : α → Except Json.WriteFault (List Block)) (xs : List α) :
    Writing String := do
  let ns ← claim (some parent) segment
  let files ← (Text.sortByName name xs).mapM fun x => do
    let body ← needed (blocks x)
    save out (titleBelow level h (monoText (name x)) :: body) (← claim (some ns) (name x))
  save out (files.map .inclusion) ns

/-- Writes the section of some items, unless there are none. -/
def writeNamedSection (level : Nat) (h : level + 1 < deepestLevel) (parent title segment : String)
    (name : α → String) (blocks : α → Except Json.WriteFault (List Block)) (xs : List α) :
    Writing (List Block) := do
  if xs.isEmpty then return []
  let file ← writeNamed out (level + 1) h parent segment name blocks xs
  return [titleBelow level (by omega) title, .inclusion file]

/-- The sections of the operations that a resource has, each with its title, its
segment and its body. -/
def operationSections (r : Resource) :
    List (String × String × Except Json.WriteFault (List Block)) :=
  (r.create.toList.map fun o => ("Create", "create", createBlocks o)) ++
    (r.read.toList.map fun o => ("Read", "read", readBlocks o)) ++
    (r.update.toList.map fun o => ("Update", "update", updateBlocks o)) ++
    (r.delete.toList.map fun o => ("Delete", "delete", deleteBlocks o)) ++
    (r.patch.toList.map fun o => ("Patch", "patch", patchBlocks o))

/-- Writes the documents of the sections of a resource, and one that includes them.
The sections stand below a level. -/
def writeResource (level : Nat) (h : level + 1 < deepestLevel) (parent : String) (r : Resource) :
    Writing String := do
  let ns ← claim (some parent) "resource"
  let schema ← r.resourceSchema.toList.mapM fun s =>
    writeSection out level (by omega) ns "Resource Schema" "schema" (schemaBlocks s)
  let operations ← (operationSections r).mapM fun (title, segment, body) =>
    writeSection out level (by omega) ns title segment body
  let actions ← writeNamedSection out level h ns "Actions" "actions" Action.name actionBlocks
    r.actions
  let queries ← writeNamedSection out level h ns "Queries" "queries" Query.key queryBlocks
    r.queries
  save out
    (paragraph? ((nonEmpty? r.title).map fun t => "*" ++ t ++ "*") ++ paragraph? r.description ++
      schema.flatten ++ operations.flatten ++ actions ++ queries) ns

/-! ## Paths -/

/-- The level of the section of all paths. -/
def pathsLevel : Nat := 1

/-- Writes the document of a name that stands at a level above `level`, and what it
includes. -/
def writePathDocument (level : Nat) (h : level < deepestLevel) (name ns : String)
    (files : List String) : Writing String :=
  save out (titleBelow level h (monoText name) :: files.map .inclusion) ns

/-- Writes a path with one resource. -/
def writePath (parent : String) (entry : String × Resource) : Writing String := do
  let ns ← claim (some parent) entry.1
  let file ← writeResource out (pathsLevel + 1) (by decide) ns entry.2
  writePathDocument out pathsLevel (by decide) entry.1 ns [file]

/-- Writes a version of a path. -/
def writeVersion (parent : String) (entry : String × Resource) : Writing String := do
  let ns ← claim (some parent) entry.1
  let file ← writeResource out (pathsLevel + 2) (by decide) ns entry.2
  writePathDocument out (pathsLevel + 1) (by decide) entry.1 ns [file]

/-- Writes a path with its versions in the order of their names. -/
def writeVersionedPath (parent : String) (entry : String × Versions) : Writing String := do
  let ns ← claim (some parent) entry.1
  let files ← (Text.sortByName Prod.fst entry.2).mapM (writeVersion out ns)
  writePathDocument out pathsLevel (by decide) entry.1 ns files

/-- Writes the paths of a table in the order of their names, and a document that
includes them; an empty table has none. -/
def writePaths (write : String → String × β → Writing String) (parent : String)
    (entries : List (String × β)) : Writing (Option String) := do
  if entries.isEmpty then return none
  let ns ← claim (some parent) "paths"
  let files ← (Text.sortByName Prod.fst entries).mapM (write ns)
  let file ← save out (titleBelow 0 (by decide) "Paths" :: files.map .inclusion) ns
  return some file

/-! ## Catalogs -/

/-- Writes the entries of a catalog in the order of their names, and a document that
includes them. -/
def writeCatalog (title segment : String) (blocks : α → Except Json.WriteFault (List Block))
    (parent : String) (entries : Catalog α) : Writing String := do
  let ns ← claim (some parent) segment
  let files ← (Text.sortByName Prod.fst entries).mapM fun e => do
    let body ← needed (blocks e.2)
    save out (titleBelow 1 (by decide) (monoText e.1) :: body) (← claim (some ns) e.1)
  save out (titleBelow 0 (by decide) title :: files.map .inclusion) ns

/-- Writes the schema definitions, if there are any. -/
def writeDefinitions (parent : String) : Option (Catalog Schema) → Writing (Option String)
  | none => return none
  | some c => do return some (← writeCatalog out "Definitions" "definitions" schemaBlocks parent c)

/-- Writes the errors, if there are any. -/
def writeErrors (parent : String) : Option (Catalog ApiError) → Writing (Option String)
  | none => return none
  | some c => do return some (← writeCatalog out "Errors" "errors" errorBlocks parent c)

/-! ## The whole manual -/

/-- The segment of the root document. -/
def rootSegment : String := "index"

/-- Writes the root document, which includes the files that there are. -/
def writeRoot (title : String) (d : Description) (parent : String) (files : List (Option String)) :
    Writing String := do
  let ns ← claim (some parent) rootSegment
  save out
    ([.documentTitle title, titleBelow 0 (by decide) ("ID: " ++ monoText d.id)] ++
      paragraph? d.description ++ (files.flatMap Option.toList).map .inclusion) ns

/-- Writes the table of paths of an API, if it has one. -/
def writePathTable (parent : String) : Option PathTable → Writing (Option String)
  | some (.flat entries) => writePaths out (writePath out) parent entries
  | some (.versioned entries) => writePaths out (writeVersionedPath out) parent entries
  | _ => return none

/-- Writes the manual of a description, the root document last. -/
def writeManual (title : String) (d : Description) : Writing String := do
  let ns ← claim none d.id
  let paths ← writePathTable out ns d.paths
  let definitions ← writeDefinitions out ns d.definitions
  let errors ← writeErrors out ns d.errors
  writeRoot out title d ns [paths, definitions, errors]

end Manual
end ApiManual
