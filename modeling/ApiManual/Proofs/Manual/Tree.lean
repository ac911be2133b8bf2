import ApiManual.Manual.Writing
import ApiManual.Proofs.Namespace

/-!
# The tree of documents

What a manual consists of, said without saying how it is written.  The manual is a
tree of documents.  A leaf has a body; a branch has a head and then includes its
children one after the other, each below a title of its own or right away.

The tree is read off a description and nothing else: paths, versions, actions,
queries and catalog entries in the order of their names, the sections of a resource
in a fixed order.  The level of every section title follows from the depth at which
it stands.

## Places

A document stands at a *place*: the segments on the way from it up to the id of the
API, its own segment first.  The empty place is that of the id, which has a
namespace but no document.  `namespaceAt` gives the namespace of a place, and
`documents` lists the documents of a manual in post-order, each with its place, the
places of the documents it includes, and its text.
-/

namespace ApiManual
namespace Manual

open Asciidoc

/-! ## Places -/

/-- Where a document stands: its segment, the segment of its parent, and so on up to
the id. -/
abbrev Place := List String

/-- The claim with which the namespace of a place is asked for. -/
def claimAt (id : String) : Place → Claim
  | [] => ⟨none, id⟩
  | s :: up => ⟨some (claimAt id up).target, s⟩

/-- The namespace of a place: the id alone, or the segment below the namespace of the
parent. -/
def namespaceAt (id : String) (p : Place) : String := (claimAt id p).target

/-- The file of a place. -/
def fileAt (id : String) (p : Place) : String := fileOf (namespaceAt id p)

@[simp] theorem claimAt_nil (id : String) : claimAt id [] = ⟨none, id⟩ := rfl

@[simp] theorem claimAt_cons (id s : String) (up : Place) :
    claimAt id (s :: up) = ⟨some (namespaceAt id up), s⟩ := rfl

@[simp] theorem namespaceAt_nil (id : String) : namespaceAt id [] = Namespace.child none id := rfl

@[simp] theorem namespaceAt_cons (id s : String) (up : Place) :
    namespaceAt id (s :: up) = Namespace.child (some (namespaceAt id up)) s := rfl

/-- Namespaces consist of allowed characters. -/
theorem isAllowed_of_mem_namespaceAt {id : String} {place : Place} {c : Char}
    (h : c ∈ (namespaceAt id place).toList) : Namespace.isAllowed c = true := by
  cases place with
  | nil => exact Namespace.isAllowed_of_mem_child h
  | cons s up => exact Namespace.isAllowed_of_mem_child h

/-- The names of files have no characters that are not allowed in namespaces. -/
theorem notMem_fileAt {c : Char} (h : Namespace.isAllowed c = false) (id : String)
    (place : Place) : c ∉ (fileAt id place).toList := by
  intro mem
  have ending : fileExtension.toList.all Namespace.isAllowed = true := by decide
  have allowed : Namespace.isAllowed c = true := by
    rw [fileAt, fileOf, String.toList_append, List.mem_append] at mem
    rcases mem with mem | mem
    · exact isAllowed_of_mem_namespaceAt mem
    · exact List.all_eq_true.1 ending c mem
  rw [allowed] at h
  cases h

/-- Different namespaces have different files. -/
theorem fileOf_injective : Function.Injective fileOf := fun a b h => by
  have same : a.toList ++ fileExtension.toList = b.toList ++ fileExtension.toList := by
    rw [← String.toList_append, ← String.toList_append]
    exact congrArg String.toList h
  exact String.toList_inj.1 (List.append_cancel_right same)

/-! ## Trees -/

/-- A document and what it includes.  The body of a leaf may be impossible to
write. -/
inductive Tree where
  | leaf (segment : String) (body : Except Json.WriteFault (List Block))
  | branch (segment : String) (head : List Block) (children : List (List Block × Tree))

/-- The children of a document, each with what stands above the line that includes
it. -/
abbrev Children := List (List Block × Tree)

/-- The segment of a document. -/
def Tree.segment : Tree → String
  | .leaf s _ => s
  | .branch s _ _ => s

/-- A child that is included without a title. -/
def untitled (t : Tree) : List Block × Tree := ([], t)

/-- A child that is included below a title. -/
def titled (title : String) (level : Nat) (t : Tree) : List Block × Tree :=
  ([.sectionTitle title level], t)

/-! ## Resources -/

/-- A section of a resource with the body of an operation, if the resource has it. -/
def operationSection (title segment : String) (level : Nat)
    (blocks : α → Except Json.WriteFault (List Block)) (o : Option α) : Children :=
  o.toList.map fun x => titled title level (.leaf segment (blocks x))

/-- The document of an item, under its name. -/
def entryTree (level : Nat) (name : α → String)
    (blocks : α → Except Json.WriteFault (List Block)) (x : α) : Tree :=
  .leaf (name x) ((blocks x).map fun body => .sectionTitle (monoText (name x)) level :: body)

/-- A section with one document for each item, in the order of their names, unless
there are no items. -/
def namedSection (title segment : String) (level : Nat) (name : α → String)
    (blocks : α → Except Json.WriteFault (List Block)) (xs : List α) : Children :=
  if xs.isEmpty then []
  else
    let entries := (Text.sortByName name xs).map (entryTree (level + 1) name blocks)
    [titled title level (.branch segment [] (entries.map untitled))]

/-- The section of the schema of a resource, if it has one. -/
def schemaSection (level : Nat) (s : Option Schema) : Children :=
  s.toList.map fun s => titled "Resource Schema" level (.leaf "schema" (schemaBlocks s))

/-- The sections of the operations of a resource. -/
def operationsSection (level : Nat) (r : Resource) : Children :=
  operationSection "Create" "create" level createBlocks r.create ++
    operationSection "Read" "read" level readBlocks r.read ++
    operationSection "Update" "update" level updateBlocks r.update ++
    operationSection "Delete" "delete" level deleteBlocks r.delete ++
    operationSection "Patch" "patch" level patchBlocks r.patch

/-- The section of the actions of a resource. -/
def actionsSection (level : Nat) (r : Resource) : Children :=
  namedSection "Actions" "actions" level Action.name actionBlocks r.actions

/-- The section of the queries of a resource. -/
def queriesSection (level : Nat) (r : Resource) : Children :=
  namedSection "Queries" "queries" level Query.key queryBlocks r.queries

/-- The sections of a resource, in the order in which it includes them. -/
def resourceSections (level : Nat) (r : Resource) : Children :=
  schemaSection level r.resourceSchema ++ operationsSection level r ++ actionsSection level r ++
    queriesSection level r

/-- What a resource says before its sections. -/
def resourceHead (r : Resource) : List Block :=
  paragraph? ((nonEmpty? r.title).map fun t => "*" ++ t ++ "*") ++ paragraph? r.description

/-- The document of a resource whose sections stand at a level. -/
def resourceTree (level : Nat) (r : Resource) : Tree :=
  .branch "resource" (resourceHead r) (resourceSections level r)

/-! ## Paths -/

/-- The document of a name at a level, which includes others. -/
def namedBranch (name : String) (level : Nat) (children : List Tree) : Tree :=
  .branch name [.sectionTitle (monoText name) level] (children.map untitled)

/-- The document of a path with one resource. -/
def pathTree (entry : String × Resource) : Tree :=
  namedBranch entry.1 2 [resourceTree 3 entry.2]

/-- The document of a version. -/
def versionTree (entry : String × Resource) : Tree :=
  namedBranch entry.1 3 [resourceTree 4 entry.2]

/-- The document of a path with versions. -/
def versionedPathTree (entry : String × Versions) : Tree :=
  namedBranch entry.1 2 ((Text.sortByName Prod.fst entry.2).map versionTree)

/-- The document of all paths; an empty table has none. -/
def allPathsTree (tree : String × β → Tree) (entries : List (String × β)) : List Tree :=
  if entries.isEmpty then []
  else [.branch "paths" [.sectionTitle "Paths" 1]
    (((Text.sortByName Prod.fst entries).map tree).map untitled)]

/-- The document of a table of paths. -/
def pathsTree : PathTable → List Tree
  | .flat entries => allPathsTree pathTree entries
  | .versioned entries => allPathsTree versionedPathTree entries
  | .unsupported _ => []

/-! ## Catalogs -/

/-- The document of a catalog, its entries below it. -/
def catalogTree (title segment : String) (blocks : α → Except Json.WriteFault (List Block))
    (c : Catalog α) : Tree :=
  let entries := (Text.sortByName Prod.fst c).map (entryTree 2 Prod.fst fun e => blocks e.2)
  .branch segment [.sectionTitle title 1] (entries.map untitled)

/-- The document of the schema definitions. -/
def definitionsTree : Catalog Schema → Tree :=
  catalogTree "Definitions" "definitions" schemaBlocks

/-- The document of the errors. -/
def errorsTree : Catalog ApiError → Tree := catalogTree "Errors" "errors" errorBlocks

/-! ## The whole manual -/

/-- The documents right below the id of an API. -/
def sections (d : Description) : List Tree :=
  d.paths.toList.flatMap pathsTree ++ d.definitions.toList.map definitionsTree ++
    d.errors.toList.map errorsTree

/-- What the root document says before it includes the others. -/
def rootHead (title : String) (d : Description) : List Block :=
  [.documentTitle title, .sectionTitle ("ID: " ++ monoText d.id) 1] ++ paragraph? d.description

/-! ## Documents -/

/-- A document of a manual. -/
structure Document where
  /-- Where it stands. -/
  place : Place
  /-- Where the documents stand that it includes, in order. -/
  includes : List Place
  /-- What it says, unless that has no written form. -/
  text : Except Json.WriteFault String

/-- A child as its parent shows it: what stands above it, and then the line that
includes its file. -/
def includeBlocks (id : String) (parent : Place) (child : List Block × Tree) : List Block :=
  child.1 ++ [.inclusion (fileAt id (child.2.segment :: parent))]

/-- The text of a document that includes the children of a place. -/
def branchText (id : String) (parent : Place) (head : List Block) (children : Children) :
    String :=
  render (head ++ children.flatMap (includeBlocks id parent))

/-- The places of the children of a place. -/
def childPlaces (parent : Place) (children : Children) : List Place :=
  children.map fun c => c.2.segment :: parent

/-- The document of a leaf. -/
def leafDocument (place : Place) (body : Except Json.WriteFault (List Block)) : Document :=
  ⟨place, [], body.map render⟩

/-- The document of a branch. -/
def branchDocument (id : String) (place : Place) (head : List Block) (children : Children) :
    Document :=
  ⟨place, childPlaces place children, .ok (branchText id place head children)⟩

mutual

/-- The documents of a tree below a place, in post-order. -/
def Tree.documents (id : String) (up : Place) : Tree → List Document
  | .leaf segment body => [leafDocument (segment :: up) body]
  | .branch segment head children =>
    childDocuments id (segment :: up) children ++
      [branchDocument id (segment :: up) head children]

/-- The documents of several trees below a place. -/
def childDocuments (id : String) (up : Place) : Children → List Document
  | [] => []
  | (_, t) :: rest => t.documents id up ++ childDocuments id up rest

end

/-- The place of the root document. -/
def rootPlace : Place := [rootSegment]

/-- The root document, which includes the documents right below the id. -/
def rootDocument (title : String) (d : Description) : Document :=
  let children := (sections d).map untitled
  ⟨rootPlace, childPlaces [] children, .ok (branchText d.id [] (rootHead title d) children)⟩

/-- The documents of the manual of a description, in post-order. -/
def documents (title : String) (d : Description) : List Document :=
  childDocuments d.id [] ((sections d).map untitled) ++ [rootDocument title d]

/-- An interface with one path, whose resource can be read and acted upon, and one schema. -/
def pets : Description where
  id := "Pets"
  description := some "All about pets."
  paths := some (.flat [("/pets",
    { title := some "Pet", description := none, resourceSchema := none, create := none,
      read := some ⟨⟨none, [], [], [], some .stable⟩⟩, update := none, delete := none,
      patch := none, actions := [⟨⟨none, [], [], [], none⟩, "adopt", none, none⟩],
      queries := [] })])
  definitions := some [("Pet", ⟨[("type", .text "object")]⟩)]
  errors := none

example : (documents "Pets" pets).map Document.place =
    [["read", "resource", "/pets", "paths"],
      ["adopt", "actions", "resource", "/pets", "paths"],
      ["actions", "resource", "/pets", "paths"],
      ["resource", "/pets", "paths"], ["/pets", "paths"], ["paths"],
      ["Pet", "definitions"], ["definitions"], ["index"]] := by
  decide +kernel

@[simp] theorem childDocuments_nil (id : String) (up : Place) : childDocuments id up [] = [] := by
  simp [childDocuments]

@[simp] theorem childDocuments_cons (id : String) (up : Place) (above : List Block) (t : Tree)
    (rest : Children) :
    childDocuments id up ((above, t) :: rest) =
      t.documents id up ++ childDocuments id up rest := by
  simp [childDocuments]

@[simp] theorem childPlaces_nil (parent : Place) : childPlaces parent [] = [] := rfl

@[simp] theorem childPlaces_cons (parent : Place) (above : List Block) (t : Tree)
    (rest : Children) :
    childPlaces parent ((above, t) :: rest) = (t.segment :: parent) :: childPlaces parent rest :=
  rfl

end Manual
end ApiManual
