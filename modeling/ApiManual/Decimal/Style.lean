import ApiManual.Decimal.Shortest

/-!
# Writing floating-point numbers

A style says how the digits of a number are laid out: up to which size its point
stands in place, how an exponent is written beyond that, and how the numbers that
are no decimals are called.
-/

namespace ApiManual
namespace Decimal

/-- How floating-point numbers are written. -/
structure Style where
  /-- The least power of ten at the first digit that is written in place. -/
  leastInPlace : Int
  /-- The greatest power of ten at the first digit that is written in place. -/
  greatestInPlace : Int
  /-- The fewest digits of an exponent. -/
  exponentDigits : Nat
  /-- What stands for no number. -/
  nan : String
  /-- What stands for infinity, after a sign if it is negative. -/
  infinity : String

/-- The power of ten at the first digit. -/
def leading (d : Decimal) : Int := d.exponent + (length d.digits : Int) - 1

/-- Digits with their point in place; a whole number keeps one zero after it. -/
def inPlace (d : Decimal) : List Char :=
  let ds := Nat.toDigits 10 d.digits
  let point := d.leading + 1
  if point ≤ 0 then '0' :: '.' :: List.replicate (-point).toNat '0' ++ ds
  else if (ds.length : Int) ≤ point then
    ds ++ List.replicate (point.toNat - ds.length) '0' ++ ['.', '0']
  else ds.take point.toNat ++ '.' :: ds.drop point.toNat

/-- Digits with the point after the first one, and the exponent with its sign. -/
def withExponent (exponentDigits : Nat) (d : Decimal) : List Char :=
  let ds := Nat.toDigits 10 d.digits
  let mantissa := match ds with
    | [] => ['0']
    | [c] => [c]
    | c :: rest => c :: '.' :: rest
  let es := Nat.toDigits 10 d.leading.natAbs
  mantissa ++ 'e' :: (if d.leading < 0 then '-' else '+') ::
    (List.replicate (exponentDigits - es.length) '0' ++ es)

/-- A positive decimal in a style. -/
def write (style : Style) (d : Decimal) : List Char :=
  if style.leastInPlace ≤ d.leading && d.leading ≤ style.greatestInPlace then d.inPlace
  else d.withExponent style.exponentDigits

/-- Numbers in messages and texts: in place from `0.0001` up to sixteen digits,
otherwise with an exponent of at least two digits. -/
def plainStyle : Style := ⟨-4, 15, 2, "nan", "inf"⟩

/-- Numbers in schema bodies, which differ only in the words. -/
def schemaStyle : Style := ⟨-4, 15, 2, "NaN", "Infinity"⟩

end Decimal

namespace Binary64

/-- A floating-point number in a style. -/
def write (style : Decimal.Style) : Binary64 → List Char
  | .nan => style.nan.toList
  | .infinite s => (if s then ['-'] else []) ++ style.infinity.toList
  | .finite s m e =>
    (if s then ['-'] else []) ++
      (if m = 0 then ['0', '.', '0'] else (Decimal.shortest m e).write style)

/-- A floating-point number as messages show it. -/
def text (x : Binary64) : String := String.ofList (x.write Decimal.plainStyle)

end Binary64
end ApiManual
