/-!
# Choices

Some fields take one of a few words.  Each such field has a type of its own, whose
members are listed once, in the order in which a refusal names them, and spelled
once.
-/

namespace ApiManual

/-- A type of words to choose from. -/
class Choice (α : Type) where
  /-- The words in the order in which they are named. -/
  all : List α
  /-- How a word is spelled. -/
  spelling : α → String

namespace Choice

/-- The word with a spelling. -/
def ofSpelling? [Choice α] (s : String) : Option α :=
  (all : List α).find? fun a => spelling a = s

/-- The spellings in a row, the last one after "or". -/
def enumerate : List String → String
  | [] => ""
  | [a] => a
  | [a, b] => a ++ " or " ++ b
  | a :: rest => a ++ ", " ++ enumerate rest

/-- The spellings in a row, each between quotes. -/
def allowed (α : Type) [Choice α] : String :=
  enumerate ((all : List α).map fun a => "'" ++ spelling a ++ "'")

end Choice

/-- How far an operation may be relied on. -/
inductive Stability where
  | stable | evolving | deprecated | removed | internal
  deriving DecidableEq, Repr

instance : Choice Stability where
  all := [.stable, .evolving, .deprecated, .removed, .internal]
  spelling
    | .stable => "STABLE"
    | .evolving => "EVOLVING"
    | .deprecated => "DEPRECATED"
    | .removed => "REMOVED"
    | .internal => "INTERNAL"

/-- Where a parameter is given. -/
inductive ParameterSource where
  | path | additional
  deriving DecidableEq, Repr

instance : Choice ParameterSource where
  all := [.path, .additional]
  spelling
    | .path => "PATH"
    | .additional => "ADDITIONAL"

/-- Who chooses the id of what is created. -/
inductive CreateMode where
  | idFromClient | idFromServer
  deriving DecidableEq, Repr

instance : Choice CreateMode where
  all := [.idFromClient, .idFromServer]
  spelling
    | .idFromClient => "ID_FROM_CLIENT"
    | .idFromServer => "ID_FROM_SERVER"

/-- What a patch may do. -/
inductive PatchStep where
  | add | remove | replace | increment | copy | move | transform
  deriving DecidableEq, Repr

instance : Choice PatchStep where
  all := [.add, .remove, .replace, .increment, .copy, .move, .transform]
  spelling
    | .add => "ADD"
    | .remove => "REMOVE"
    | .replace => "REPLACE"
    | .increment => "INCREMENT"
    | .copy => "COPY"
    | .move => "MOVE"
    | .transform => "TRANSFORM"

/-- What a query asks by. -/
inductive QueryType where
  | filter | id | expression
  deriving DecidableEq, Repr

instance : Choice QueryType where
  all := [.filter, .id, .expression]
  spelling
    | .filter => "FILTER"
    | .id => "ID"
    | .expression => "EXPRESSION"

/-- How the pages of an answer are told apart. -/
inductive PagingMode where
  | cookie | offset
  deriving DecidableEq, Repr

instance : Choice PagingMode where
  all := [.cookie, .offset]
  spelling
    | .cookie => "COOKIE"
    | .offset => "OFFSET"

/-- How what a query finds may be counted. -/
inductive CountPolicy where
  | none | estimate | exact
  deriving DecidableEq, Repr

instance : Choice CountPolicy where
  all := [.none, .estimate, .exact]
  spelling
    | .none => "NONE"
    | .estimate => "ESTIMATE"
    | .exact => "EXACT"

end ApiManual
