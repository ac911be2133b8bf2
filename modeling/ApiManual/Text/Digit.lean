/-!
# Decimal digits

The decimal digits of every script stand in runs of ten, from the zero upwards.
A run is known by its zero.  The scripts are those of version 14 of the Unicode
standard.

Whole numbers are written with decimal digits, but not all of them: those with very
many digits have no text.
-/

namespace ApiManual
namespace Text

/-- The zeros of the scripts' decimal digits. -/
def digitZeros : List Nat := [
  0x30, 0x660, 0x6F0, 0x7C0, 0x966, 0x9E6, 0xA66, 0xAE6, 0xB66, 0xBE6, 0xC66, 0xCE6, 0xD66,
  0xDE6, 0xE50, 0xED0, 0xF20, 0x1040, 0x1090, 0x17E0, 0x1810, 0x1946, 0x19D0, 0x1A80, 0x1A90,
  0x1B50, 0x1BB0, 0x1C40, 0x1C50, 0xA620, 0xA8D0, 0xA900, 0xA9D0, 0xA9F0, 0xAA50, 0xABF0, 0xFF10,
  0x104A0, 0x10D30, 0x11066, 0x110F0, 0x11136, 0x111D0, 0x112F0, 0x11450, 0x114D0, 0x11650,
  0x116C0, 0x11730, 0x118E0, 0x11950, 0x11C50, 0x11D50, 0x11DA0, 0x16A60, 0x16AC0, 0x16B50,
  0x1D7CE, 0x1D7D8, 0x1D7E2, 0x1D7EC, 0x1D7F6, 0x1E140, 0x1E2F0, 0x1E950, 0x1FBF0]

/-- The value of a decimal digit of any script. -/
def digitValue? (c : Char) : Option Nat :=
  (digitZeros.find? fun z => z ≤ c.toNat && c.toNat < z + 10).map fun z => c.toNat - z

/-- An ASCII digit. -/
def isAsciiDigit (c : Char) : Bool :=
  '0' ≤ c && c ≤ '9'

/-- The value of a digit, letters counting from ten upwards in either case. -/
def alnumValue? (c : Char) : Option Nat :=
  if isAsciiDigit c then some (c.toNat - 48)
  else if 'a' ≤ c && c ≤ 'z' then some (c.toNat - 87)
  else if 'A' ≤ c && c ≤ 'Z' then some (c.toNat - 55)
  else none

/-- The value of a hexadecimal digit in either case. -/
def hexValue? (c : Char) : Option Nat :=
  (alnumValue? c).filter (· < 16)

/-- The number that a run of digits spells in a base; nothing if one is no digit
of that base. -/
def ofDigits? (base : Nat) (cs : List Char) : Option Nat :=
  cs.foldl (fun acc c => acc.bind fun n => ((alnumValue? c).filter (· < base)).map (n * base + ·))
    (some 0)

/-- The number that a run of ASCII digits spells, other characters counting
nothing. -/
def ofAsciiDigits (cs : List Char) : Nat :=
  cs.foldl (fun n c => n * 10 + (c.toNat - 48)) 0

/-- The lower-case hexadecimal digits of a number, at least `width` of them. -/
def hexDigits (width n : Nat) : List Char :=
  let ds := Nat.toDigits 16 n
  List.replicate (width - ds.length) '0' ++ ds

/-- The decimal digits of a number. -/
def natDigits (n : Nat) : List Char := Nat.toDigits 10 n

/-- The decimal digits of a number, at least `width` of them. -/
def padded (width n : Nat) : String :=
  let ds := natDigits n
  String.ofList (List.replicate (width - ds.length) '0' ++ ds)

/-- The decimal text of an integer.  It is written whatever its length; who writes an
integer of any size asks `hasIntText` first. -/
def intText (n : Int) : String :=
  if n < 0 then "-" ++ String.ofList (natDigits n.natAbs) else String.ofList (natDigits n.natAbs)

/-- The most digits that the text of an integer has. -/
def mostDigits : Nat := 4300

/-- Whether an integer has a text: one with more digits than that has none. -/
def hasIntText (n : Int) : Bool := (natDigits n.natAbs).length ≤ mostDigits

/-- What is said where an integer has no text. -/
def noIntTextMessage : String :=
  "Exceeds the limit (" ++ intText mostDigits ++
    " digits) for integer string conversion; use sys.set_int_max_str_digits() to increase the limit"

end Text
end ApiManual
