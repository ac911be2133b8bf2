import ApiManual.Text.Blank
import ApiManual.Text.Digit

/-!
# Whole numbers in texts

Which whole number a text spells.  A *plain* number is a row of digits, perhaps
behind a minus, that starts with a zero only if it is the zero.  Other spellings are
first made plain: padding goes, and a plus; so do leading zeros, single underscores
inside the number, and a point that only zeros follow.

Leading zeros are passed over together with any underscores among them, and what
comes after them is read on its own.  So a minus may still stand there, unless one
stood in front already.
-/

namespace ApiManual
namespace Validation
namespace Numeral

/-- What a text turns out to be. -/
inductive Reading where
  | number (n : Int)
  /-- A number with more digits than are read. -/
  | tooLong
  | unreadable
  deriving DecidableEq, Repr

/-- The longest row of digits that is read. -/
def longest : Nat := 4300

/-! ## Plain numbers -/

/-- Reads the digits of a plain number.  A row that is too long is found out before
anything behind it. -/
def digits (cs : List Char) : Reading :=
  let ds := cs.takeWhile Text.isAsciiDigit
  let rest := cs.dropWhile Text.isAsciiDigit
  if ds.head? = some '0' ∧ 1 < ds.length then .unreadable
  else if longest < ds.length then .tooLong
  else if ds.isEmpty || !rest.isEmpty then .unreadable
  else .number (Text.ofAsciiDigits ds)

/-- A reading with the other sign. -/
def Reading.negated : Reading → Reading
  | .number n => .number (-n)
  | r => r

/-- Reads a plain number. -/
def plain : List Char → Reading
  | '-' :: rest => (digits rest).negated
  | cs => digits cs

/-! ## Making plain -/

/-- Whether a character pads a number. -/
def isPadding (c : Char) : Bool := Text.isBlank c && !Text.isInformationSeparator c

/-- Whether a character is passed over behind a leading zero. -/
def isFiller (c : Char) : Bool := c = '0' || c = '_'

/-- What follows the leading zeros of a number; nothing if it does not start with a
digit, or if it goes on with something else than a number.  At the end of the text,
and before a point, the last character of those that are passed over stays. -/
def withoutZeros? : List Char → Option (List Char)
  | [] => none
  | c :: rest =>
    if c = '0' then
      let kept := ((rest.takeWhile isFiller).getLast?).getD c
      match rest.dropWhile isFiller with
      | [] => some [kept]
      | d :: after =>
        if d = '.' then some (kept :: d :: after)
        else if d = '-' || Text.isAsciiDigit d then some (d :: after)
        else none
    else if Text.isAsciiDigit c then some (c :: rest)
    else none

/-- A text without a point that only zeros follow, and without these. -/
def withoutFraction (cs : List Char) : List Char :=
  match cs.dropWhile (· ≠ '.') with
  | _ :: zeros =>
    if !zeros.isEmpty && zeros.all (· = '0') then cs.takeWhile (· ≠ '.') else cs
  | [] => cs

/-- Whether two underscores stand next to each other. -/
def hasDouble : List Char → Bool
  | '_' :: '_' :: _ => true
  | _ :: rest => hasDouble rest
  | [] => false

/-- A text without underscores, provided that all of them stand alone and inside. -/
def withoutUnderscores (cs : List Char) : List Char :=
  if cs.head? = some '_' || cs.getLast? = some '_' || hasDouble cs then cs
  else cs.filter (· ≠ '_')

/-- What is behind the sign of a number, made plain. -/
def magnitude? (cs : List Char) : Option (List Char) :=
  (withoutZeros? cs).map fun cs => withoutUnderscores (withoutFraction cs)

/-- A number made plain; nothing if the text is clearly none. -/
def madePlain? (cs : List Char) : Option (List Char) :=
  match Text.trim isPadding cs with
  | '-' :: rest => (magnitude? rest).map ('-' :: ·)
  | '+' :: rest => magnitude? rest
  | cs => magnitude? cs

/-- The number that a text spells. -/
def read (s : String) : Reading :=
  match madePlain? s.toList with
  | some cs => plain cs
  | none => .unreadable

end Numeral
end Validation
end ApiManual
