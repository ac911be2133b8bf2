import ApiManual.Text.Blank
import ApiManual.Value.Text

/-!
# Names

Actions, schema definitions and errors are known by names.  A name is a text with
at least one character and no white space in it.
-/

namespace ApiManual
namespace Name

/-- Whether the characters of a text can be a name. -/
def isValid (cs : List Char) : Bool := !cs.isEmpty && !cs.any Text.isBlank

/-- Whether a value can be a name. -/
def isValidValue : Value → Bool
  | .scalar (.text s) => isValid s.toList
  | _ => false

/-- What is said of a value that cannot be the name of a `label`; if it has no text, only
that is said. -/
def refusal (label : String) (name : Value) : String :=
  if name.hasText then label ++ " name required and may not contain whitespace: " ++ name.quoted
  else Text.noIntTextMessage

/-- A value as the name of a `label`, or what is said of it. -/
def check (label : String) (name : Value) : Except String String :=
  match name with
  | .scalar (.text s) =>
    if isValid s.toList then .ok s else .error (refusal label name)
  | _ => .error (refusal label name)

/-- The first name of several that cannot be one. -/
def firstInvalid? (names : List String) : Option String :=
  names.find? fun s => !isValid s.toList

end Name
end ApiManual
