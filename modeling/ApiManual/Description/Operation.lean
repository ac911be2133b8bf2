import ApiManual.Description.Choice
import ApiManual.Description.Schema

/-!
# Operations

What can be done with a resource.  All operations have a description, locales,
parameters and errors; each kind adds what is special to it.
-/

namespace ApiManual

/-- A parameter of an operation. -/
structure Parameter where
  name : String
  type : String
  source : ParameterSource
  required : Bool
  defaultValue : Option String
  description : Option String
  enumValues : List String
  deriving DecidableEq, Repr

/-- What all operations have. -/
structure Operation where
  description : Option String
  supportedLocales : List String
  parameters : List Parameter
  errors : List ApiError
  stability : Option Stability
  deriving Repr

/-- Making a new element of a resource. -/
structure Create extends Operation where
  mode : Option CreateMode
  mvccSupported : Bool
  deriving Repr

/-- Reading an element. -/
structure Read extends Operation where
  deriving Repr

/-- Replacing an element. -/
structure Update extends Operation where
  mvccSupported : Bool
  deriving Repr

/-- Removing an element. -/
structure Delete extends Operation where
  mvccSupported : Bool
  deriving Repr

/-- Changing parts of an element. -/
structure Patch extends Operation where
  operations : List PatchStep
  mvccSupported : Bool
  deriving Repr

/-- An operation with a name of its own. -/
structure Action extends Operation where
  name : String
  request : Option Schema
  response : Option Schema
  deriving Repr

/-- A query over all elements. -/
structure Query extends Operation where
  type : QueryType
  queryId : Option String
  pagingMode : Option PagingMode
  countPolicies : List CountPolicy
  queryableFields : List String
  sortKeys : List String
  deriving Repr

namespace Query

/-- What a query is known by among the queries of its resource. -/
def key (q : Query) : String :=
  match q.type with
  | .id => "id-" ++ q.queryId.getD "None"
  | .filter => "filter"
  | .expression => "expression"

end Query
end ApiManual
