import ApiManual.Description.Operation

/-!
# API descriptions

An API has paths, and perhaps catalogs of schemas and errors.  Under a path stands
a resource, or several versions of one.  A table of paths is of one shape: all its
paths have versions or none has.

All tables keep their entries in the order in which they were given; what is
printed from them is sorted by name.
-/

namespace ApiManual

/-- What can be done under one path, or one version of it. -/
structure Resource where
  title : Option String
  description : Option String
  resourceSchema : Option Schema
  create : Option Create
  read : Option Read
  update : Option Update
  delete : Option Delete
  patch : Option Patch
  actions : List Action
  queries : List Query
  deriving Repr

/-- The versions of one path. -/
abbrev Versions := List (String × Resource)

/-- The paths of an API. -/
inductive PathTable where
  /-- Each path has one resource. -/
  | flat (entries : List (String × Resource))
  /-- Each path has versions. -/
  | versioned (entries : List (String × Versions))
  /-- What stands in the place of the paths is no table; only its kind is kept. -/
  | unsupported (kind : Value.Kind)
  deriving Repr

namespace PathTable

/-- How many paths there are. -/
def size : PathTable → Nat
  | .flat entries => entries.length
  | .versioned entries => entries.length
  | .unsupported _ => 0

/-- The paths in the order in which they were given. -/
def paths : PathTable → List String
  | .flat entries => entries.map Prod.fst
  | .versioned entries => entries.map Prod.fst
  | .unsupported _ => []

/-- The name of the shape of a table. -/
def shape : PathTable → String
  | .flat _ => "flat"
  | .versioned _ => "versioned"
  | .unsupported _ => "unsupported"

end PathTable

/-- A catalog of named entries. -/
abbrev Catalog (α : Type) := List (String × α)

/-- A complete description of an API. -/
structure Description where
  id : String
  description : Option String
  paths : Option PathTable
  definitions : Option (Catalog Schema)
  errors : Option (Catalog ApiError)
  deriving Repr

end ApiManual
