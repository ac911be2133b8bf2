import ApiManual.Text.Digit

/-!
# Dates and moments

Days of the calendar, and moments of a day with or without the offset of a clock
from universal time.  Moments with an offset are the same when they name the same
instant; a moment without one is a reading of an unknown clock, and is the same
only as itself.
-/

namespace ApiManual

/-- A day of the calendar. -/
structure Date where
  year : Nat
  month : Nat
  day : Nat
  deriving DecidableEq, Repr

/-- A moment of a day.  The offset counts minutes ahead of universal time. -/
structure Moment where
  date : Date
  hour : Nat
  minute : Nat
  second : Nat
  microsecond : Nat
  offset : Option Int
  deriving DecidableEq, Repr

namespace Date

/-- Whether February of the year has a leap day. -/
def isLeap (year : Nat) : Bool :=
  year % 4 = 0 && (year % 100 ≠ 0 || year % 400 = 0)

/-- How many days a month has; none if there is no such month. -/
def daysIn (year month : Nat) : Nat :=
  match month with
  | 1 | 3 | 5 | 7 | 8 | 10 | 12 => 31
  | 4 | 6 | 9 | 11 => 30
  | 2 => if isLeap year then 29 else 28
  | _ => 0

/-- A day that exists, in a year with four digits other than 0000. -/
def isValid (d : Date) : Bool :=
  1 ≤ d.year && d.year ≤ 9999 && 1 ≤ d.day && d.day ≤ daysIn d.year d.month

/-- The days before a date, from some day on that is the same for all dates. -/
def dayNumber (d : Date) : Nat :=
  let y := if d.month ≤ 2 then d.year - 1 else d.year
  let m := if d.month ≤ 2 then d.month + 9 else d.month - 3
  y * 365 + y / 4 - y / 100 + y / 400 + (153 * m + 2) / 5 + d.day

/-- Year, month and day with dashes between them. -/
def text (d : Date) : String :=
  Text.padded 4 d.year ++ "-" ++ Text.padded 2 d.month ++ "-" ++ Text.padded 2 d.day

end Date

namespace Moment

/-- A moment that exists on a clock whose offset is less than a day. -/
def isValid (t : Moment) : Bool :=
  t.date.isValid && t.hour ≤ 23 && t.minute ≤ 59 && t.second ≤ 59 && t.microsecond ≤ 999999 &&
    match t.offset with
    | some o => -1440 < o && o < 1440
    | none => true

/-- The microseconds on the moment's own clock. -/
def localMicroseconds (t : Moment) : Int :=
  (((t.date.dayNumber * 24 + t.hour) * 60 + t.minute) * 60 + t.second) * 1000000 + t.microsecond

/-- What two moments have in common when they are the same. -/
def instant (t : Moment) : Bool × Int :=
  match t.offset with
  | some o => (true, t.localMicroseconds - o * 60000000)
  | none => (false, t.localMicroseconds)

/-- An offset as hours and minutes with its sign. -/
def offsetText (o : Int) : String :=
  (if o < 0 then "-" else "+") ++ Text.padded 2 (o.natAbs / 60) ++ ":" ++
    Text.padded 2 (o.natAbs % 60)

/-- Date and time; microseconds only when there are any, the offset only when it is
known. -/
def text (t : Moment) : String :=
  t.date.text ++ " " ++ Text.padded 2 t.hour ++ ":" ++ Text.padded 2 t.minute ++ ":" ++
    Text.padded 2 t.second ++
    (if t.microsecond = 0 then "" else "." ++ Text.padded 6 t.microsecond) ++
    (match t.offset with
      | some o => offsetText o
      | none => "")

end Moment
end ApiManual
