import ApiManual.Description.Choice
import ApiManual.Name

/-!
# Issues

What can be wrong with a value that is to be part of a description, and where in
the value it is.  A cause is data; its code and its wording are derived from it
here and nowhere else.
-/

namespace ApiManual
namespace Validation

/-- A rule of descriptions that goes beyond the form of a single value. -/
inductive Rule where
  /-- The id of an API has a character that is not white space. -/
  | idRequired
  /-- Actions, definitions and errors have names without white space. -/
  | name (label : String) (given : Value)
  /-- Paths and versions are not empty. -/
  | nonEmpty (label : String)
  /-- A catalog has an entry. -/
  | catalogEmpty (label : String)
  /-- The actions of a resource have different names. -/
  | duplicateAction (action : String)
  /-- The queries of a resource have different keys. -/
  | duplicateQuery (query : String)
  /-- A query by id names the id. -/
  | queryIdRequired
  /-- Paths are given as a mapping. -/
  | pathsMapping (given : Value.Kind)
  /-- All paths of a table have versions, or none has. -/
  | mixedPaths (versioned : List String)
  /-- A number that is taken as a text has one. -/
  | numberText
  deriving Repr

/-- What is said when a rule is broken. -/
def Rule.message : Rule → String
  | .idRequired => "id required"
  | .name label given => Name.refusal label given
  | .nonEmpty label => label ++ " must be a non-empty string: " ++ Text.quoted ""
  | .catalogEmpty label => "Must have at least one " ++ label
  | .duplicateAction action => "duplicate action name: " ++ Text.quoted action
  | .duplicateQuery query => "duplicate query: " ++ Text.quoted query
  | .queryIdRequired => "queryId required for ID queries"
  | .pathsMapping given => "paths must be a mapping, got " ++ given.name
  | .mixedPaths versioned =>
    "paths mix versioned and unversioned entries; versioned: " ++
      Value.bracketed "[" "]" (versioned.map Text.quoted)
  | .numberText => Text.noIntTextMessage

/-- Why a value is refused. -/
inductive Cause where
  | missing
  | unknownField
  | unfitKey
  | notText
  | undecodable
  | notList
  | notMapping
  | notModel (model : String)
  | notChoice (allowed : String)
  | notBool
  | unreadableBool
  | notInt
  | unreadableInt
  | fractional
  | notFinite
  | tooLarge
  | rule (broken : Rule)
  deriving Repr

namespace Cause

/-- The code of a cause. -/
def code : Cause → String
  | .missing => "missing"
  | .unknownField => "extra_forbidden"
  | .unfitKey => "invalid_key"
  | .notText => "string_type"
  | .undecodable => "string_unicode"
  | .notList => "list_type"
  | .notMapping => "dict_type"
  | .notModel _ => "model_type"
  | .notChoice _ => "literal_error"
  | .notBool => "bool_type"
  | .unreadableBool => "bool_parsing"
  | .notInt => "int_type"
  | .unreadableInt => "int_parsing"
  | .fractional => "int_from_float"
  | .notFinite => "finite_number"
  | .tooLarge => "int_parsing_size"
  | .rule _ => "value_error"

/-- The wording of a cause. -/
def message : Cause → String
  | .missing => "Field required"
  | .unknownField => "Extra inputs are not permitted"
  | .unfitKey => "Keys should be strings"
  | .notText => "Input should be a valid string"
  | .undecodable =>
    "Input should be a valid string, unable to parse raw data as a unicode string"
  | .notList => "Input should be a valid list"
  | .notMapping => "Input should be a valid dictionary"
  | .notModel model => "Input should be a valid dictionary or instance of " ++ model
  | .notChoice allowed => "Input should be " ++ allowed
  | .notBool => "Input should be a valid boolean"
  | .unreadableBool => "Input should be a valid boolean, unable to interpret input"
  | .notInt => "Input should be a valid integer"
  | .unreadableInt =>
    "Input should be a valid integer, unable to parse string as an integer"
  | .fractional => "Input should be a valid integer, got a number with a fractional part"
  | .notFinite => "Input should be a finite number"
  | .tooLarge => "Unable to parse input string as an integer, exceeded maximum size"
  | .rule broken => "Value error, " ++ broken.message

end Cause

/-- One step from a value to a part of it. -/
inductive Step where
  | key (name : String)
  | index (n : Nat)
  /-- The entry under a key that is no text. -/
  | entry (key : Scalar)
  deriving DecidableEq, Repr

/-- The step to the entry under a key. -/
def Step.under : Scalar → Step
  | .text name => .key name
  | k => .entry k

/-- The step from an entry to its key. -/
def Step.itsKey : Step := .key "[key]"

/-- Something wrong, and the way to it. -/
structure Issue where
  place : List Step
  cause : Cause
  deriving Repr

end Validation
end ApiManual
