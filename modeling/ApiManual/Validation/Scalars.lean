import ApiManual.Validation.Checked
import ApiManual.Validation.Numeral
import ApiManual.Text.Utf8

/-!
# Scalars in fields

Fields are filled generously.  A text may be given as bytes that spell it; a whole
number as a text, as a truth value or as a decimal fraction that is whole; a truth
value as one of a few words or numbers.  What is given in no such way is refused
with the reason.
-/

namespace ApiManual
namespace Validation

/-- The text of a text or of bytes; `unreadable` is the reason for bytes that
spell none. -/
def textOf? (unreadable : Cause) : Value → Option (Checked String)
  | .scalar (.text s) => some (.good s)
  | .scalar (.bytes bs) => some <| match Text.utf8Text? bs with
    | some s => .good s
    | none => .refuse unreadable
  | _ => none

/-- A field that holds a text. -/
def text (v : Value) : Checked String :=
  (textOf? .undecodable v).getD (.refuse .notText)

/-- A field that holds one of the words of a type. -/
def choice [Choice α] (v : Value) : Checked α :=
  match v with
  | .scalar (.text s) => match Choice.ofSpelling? s with
    | some a => .good a
    | none => .refuse (.notChoice (Choice.allowed α))
  | _ => .refuse (.notChoice (Choice.allowed α))

/-! ## Whole numbers -/

/-- The number of a text. -/
def intOfText (s : String) : Checked Int :=
  match Numeral.read s with
  | .number n => .good n
  | .tooLong => .refuse .tooLarge
  | .unreadable => .refuse .unreadableInt

/-- The least positive number beyond the integers of 64 bits. -/
def int64Bound : Int := 9223372036854775808

/-- The number of a decimal fraction; it has to be whole, and less than 2⁶³ away
from zero. -/
def intOfFloat (x : Binary64) : Checked Int :=
  if !x.isFinite then .refuse .notFinite
  else match x.toInt? with
    | none => .refuse .fractional
    | some n => if -int64Bound < n ∧ n < int64Bound then .good n else .refuse .tooLarge

/-- A field that holds a whole number. -/
def int (v : Value) : Checked Int :=
  match v with
  | .scalar (.int n) => .good n
  | .scalar (.bool b) => .good (if b then 1 else 0)
  | .scalar (.float x) => intOfFloat x
  | v => match textOf? .unreadableInt v with
    | some (.good s) => intOfText s
    | some (.bad issues) => .bad issues
    | none => .refuse .notInt

/-! ## Truth values -/

/-- The words that mean yes. -/
def yesWords : List String := ["1", "true", "t", "yes", "y", "on"]

/-- The words that mean no. -/
def noWords : List String := ["0", "false", "f", "no", "n", "off"]

/-- The truth value of a word in any case. -/
def boolOfText (s : String) : Checked Bool :=
  let word := String.ofList (s.toList.map Char.toLower)
  if yesWords.contains word then .good true
  else if noWords.contains word then .good false
  else .refuse .unreadableBool

/-- The truth value of a number. -/
def boolOfInt (n : Int) : Checked Bool :=
  if n = 1 then .good true
  else if n = 0 then .good false
  else .refuse .unreadableBool

/-- A field that holds a truth value. -/
def bool (v : Value) : Checked Bool :=
  match v with
  | .scalar (.bool b) => .good b
  | .scalar (.int n) =>
    if -int64Bound ≤ n ∧ n < int64Bound then boolOfInt n else .refuse .notBool
  | .scalar (.float x) => match intOfFloat x with
    | .good n => boolOfInt n
    | .bad _ => .refuse .notBool
  | v => match textOf? .unreadableBool v with
    | some (.good s) => boolOfText s
    | some (.bad issues) => .bad issues
    | none => .refuse .notBool

/-! ## Scalars as text -/

/-- Whether a value that is a number has a text. -/
def hasNumberText : Value → Bool
  | .scalar s => s.hasText
  | _ => true

/-- Truth values and numbers as the texts that stand for them in documents; any
other value as it is. -/
def scalarAsText : Value → Value
  | .scalar (.bool b) => .text (if b then "true" else "false")
  | .scalar (.int n) => .text (Scalar.int n).plain
  | .scalar (.float x) => .text (Scalar.float x).plain
  | v => v

/-- A field that holds a text, for which a truth value or a number will do. -/
def scalarText (v : Value) : Checked String :=
  if hasNumberText v then text (scalarAsText v) else .refuse (.rule .numberText)

end Validation
end ApiManual
