import ApiManual.Text.Printable
import ApiManual.Text.Digit

/-!
# Quoted texts

How a message shows a text that it speaks of.  The text stands between single
quotes, or between double quotes when it holds a single quote and no double one.
A backslash and the quote in use are escaped with a backslash; line feed, carriage
return and tab have their letters; any other character without a visible form is
spelled by its code point, in as few of the widths two, four and eight as hold it.
-/

namespace ApiManual
namespace Text

/-- The quote that stands around a text. -/
def quoteFor (cs : List Char) : Char :=
  if cs.contains '\x27' && !cs.contains '"' then '"' else '\x27'

/-- One character inside quotes. -/
def escaped (quote c : Char) : List Char :=
  if c = quote || c = '\\' then ['\\', c]
  else if c = '\n' then ['\\', 'n']
  else if c = '\r' then ['\\', 'r']
  else if c = '\t' then ['\\', 't']
  else if isPrintable c then [c]
  else if c.toNat ≤ 0xFF then '\\' :: 'x' :: hexDigits 2 c.toNat
  else if c.toNat ≤ 0xFFFF then '\\' :: 'u' :: hexDigits 4 c.toNat
  else '\\' :: 'U' :: hexDigits 8 c.toNat

/-- A text between its quotes. -/
def quotedChars (cs : List Char) : List Char :=
  let q := quoteFor cs
  q :: cs.flatMap (escaped q) ++ [q]

/-- A text as messages show it. -/
def quoted (s : String) : String :=
  String.ofList (quotedChars s.toList)

/-- One byte inside quotes: like a character, but only ASCII stands for itself. -/
def escapedByte (quote : Char) (b : UInt8) : List Char :=
  if b.toNat < 0x7F then escaped quote (Char.ofNat b.toNat)
  else '\\' :: 'x' :: hexDigits 2 b.toNat

/-- A run of bytes as messages show it: quoted like a text, after the letter `b`. -/
def quotedBytes (bs : List UInt8) : String :=
  let q := quoteFor (bs.map fun b => Char.ofNat b.toNat)
  String.ofList ('b' :: q :: bs.flatMap (escapedByte q) ++ [q])

end Text
end ApiManual
