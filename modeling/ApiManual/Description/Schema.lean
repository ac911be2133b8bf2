import ApiManual.Value.Basic

/-!
# Schemas and errors

A schema is the body of a JSON schema, taken as it is; or it stands for another one
that its `$ref` names.  An error is a code and a description, perhaps with a schema
of what comes with it.
-/

namespace ApiManual

/-- A schema: the members of its body in order. -/
structure Schema where
  body : List (String × Value)
  deriving Repr

namespace Schema

/-- The member that names another schema. -/
def referenceKey : String := "$ref"

/-- The text under `$ref`, if there is one. -/
def reference? (s : Schema) : Option String :=
  match s.body.lookup referenceKey with
  | some (.scalar (.text t)) => some t
  | _ => none

/-- The body as a value. -/
def toValue (s : Schema) : Value := .record s.body

end Schema

/-- An error that an operation may answer with. -/
structure ApiError where
  code : Int
  description : String
  schema : Option Schema
  deriving Repr

end ApiManual
