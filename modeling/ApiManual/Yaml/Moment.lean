import ApiManual.Value.Basic

/-!
# Written moments

A date, and perhaps a time of day, with a fraction of its second and the offset of
its clock.  Months, days and hours may be written with one digit.
-/

namespace ApiManual
namespace Yaml

/-- A time of day as it is written; the offset in minutes, if there is one. -/
structure WrittenTime where
  hour : Nat
  minute : Nat
  second : Nat
  microsecond : Nat
  offset : Option Int
  deriving DecidableEq

/-- A moment as it is written. -/
structure WrittenMoment where
  date : Date
  time : Option WrittenTime
  deriving DecidableEq

namespace WrittenMoment

/-- Reads a number of `least` to `most` digits. -/
def digits? (least most : Nat) (cs : List Char) : Option (Nat × List Char) :=
  let ds := (cs.take most).takeWhile Text.isAsciiDigit
  if least ≤ ds.length then some (Text.ofAsciiDigits ds, cs.drop ds.length) else none

/-- Reads one character. -/
def sign? (c : Char) : List Char → Option (List Char)
  | [] => none
  | x :: rest => if x = c then some rest else none

/-- A space or a tab. -/
def isBlank (c : Char) : Bool := c = ' ' || c = '\t'

/-- Reads the minutes of an offset, if there are any. -/
def offsetMinutes? : List Char → Option (Nat × List Char)
  | ':' :: rest => digits? 2 2 rest
  | rest => some (0, rest)

/-- Reads the offset of a clock up to the end of the text. -/
def offset? (cs : List Char) : Option (Option Int) :=
  match cs with
  | [] => some none
  | _ =>
    match cs.dropWhile isBlank with
    | ['Z'] => some (some 0)
    | c :: rest =>
      if c = '+' || c = '-' then do
        let (hours, rest) ← digits? 1 2 rest
        let (minutes, rest) ← offsetMinutes? rest
        let n : Int := hours * 60 + minutes
        if rest.isEmpty then some (some (if c = '-' then -n else n)) else none
      else none
    | [] => none

/-- The first six places of a fraction. -/
def microseconds (ds : List Char) : Nat :=
  let six := ds.take 6
  Text.ofAsciiDigits six * Nat.pow 10 (6 - six.length)

/-- Reads the fraction of a second, if there is one. -/
def fraction : List Char → Nat × List Char
  | '.' :: rest =>
    (microseconds (rest.takeWhile Text.isAsciiDigit), rest.dropWhile Text.isAsciiDigit)
  | rest => (0, rest)

/-- Reads a time of day up to the end of the text. -/
def time? (cs : List Char) : Option WrittenTime := do
  let (hour, cs) ← digits? 1 2 cs
  let cs ← sign? ':' cs
  let (minute, cs) ← digits? 2 2 cs
  let cs ← sign? ':' cs
  let (second, cs) ← digits? 2 2 cs
  let (microsecond, cs) := fraction cs
  let offset ← offset? cs
  return ⟨hour, minute, second, microsecond, offset⟩

/-- What comes after the letter or the spaces between date and time. -/
def separated? : List Char → Option (List Char)
  | [] => none
  | c :: rest =>
    if c = 'T' || c = 't' then some rest
    else if isBlank c then some (rest.dropWhile isBlank)
    else none

/-- Reads a moment. -/
def ofChars? (cs : List Char) : Option WrittenMoment := do
  let (year, cs) ← digits? 4 4 cs
  let cs ← sign? '-' cs
  let (month, cs) ← digits? 1 2 cs
  let cs ← sign? '-' cs
  let (day, cs) ← digits? 1 2 cs
  if cs.isEmpty then return ⟨⟨year, month, day⟩, none⟩
  else
    let time ← (separated? cs).bind time?
    return ⟨⟨year, month, day⟩, some time⟩

/-- The date or moment that is meant, if there is such a one. -/
def scalar? (w : WrittenMoment) : Option Scalar :=
  match w.time with
  | none => if w.date.isValid then some (.date w.date) else none
  | some t =>
    let m : Moment := ⟨w.date, t.hour, t.minute, t.second, t.microsecond, t.offset⟩
    if m.isValid then some (.moment m) else none

end WrittenMoment
end Yaml
end ApiManual
