import ApiManual.Decimal.Binary64
import ApiManual.Text.Blank
import ApiManual.Text.Digit

/-!
# Written numbers

Whole numbers in four bases and decimal fractions, with underscores anywhere between
the digits, and both also as places in base sixty, with colons between them.

There are two questions about a text.  `looksWhole` and `looksFractional` say
whether a text without quotes is taken for a number; `whole` and `fractional` say
which number a text is that has to be one, and they accept more.
-/

namespace ApiManual
namespace Yaml

/-- Why a text is no number. -/
inductive NumberFault where
  /-- It is not written as one. -/
  | unreadable
  /-- Nothing is written behind the sign. -/
  | empty
  /-- It has more places in base sixty than there are numbers. -/
  | unbounded
  deriving DecidableEq

namespace Number

/-! ## Parts of numbers -/

/-- What is behind a sign. -/
def unsigned : List Char → List Char
  | '-' :: rest => rest
  | '+' :: rest => rest
  | cs => cs

/-- Whether a minus stands in front. -/
def isNegative (cs : List Char) : Bool := cs.head? = some '-'

/-- A digit or an underscore. -/
def isGrouped (c : Char) : Bool := Text.isAsciiDigit c || c = '_'

/-- A row of digits and underscores that starts with a digit. -/
def isGroup (cs : List Char) : Bool :=
  (cs.head?.any Text.isAsciiDigit) && cs.all isGrouped

/-- The parts of a text between its colons. -/
def places (cs : List Char) : List (List Char) :=
  cs.foldr (fun c parts =>
    if c = ':' then [] :: parts
    else match parts with
      | [] => [[c]]
      | p :: rest => (c :: p) :: rest) [[]]

/-- A place in base sixty behind the first one. -/
def isPlace : List Char → Bool
  | [d] => Text.isAsciiDigit d
  | [t, d] => '0' ≤ t && t ≤ '5' && Text.isAsciiDigit d
  | _ => false

/-- An exponent, which always has a sign, or nothing. -/
def isExponent : List Char → Bool
  | [] => true
  | e :: s :: ds =>
    (e = 'e' || e = 'E') && (s = '-' || s = '+') && !ds.isEmpty && ds.all Text.isAsciiDigit
  | _ => false

/-! ## What is taken for a number -/

/-- Whether a text without a sign is taken for a whole number. -/
def looksWholeUnsigned (cs : List Char) : Bool :=
  match cs with
  | ['0'] => true
  | '0' :: 'b' :: ds => !ds.isEmpty && ds.all fun c => c = '0' || c = '1' || c = '_'
  | '0' :: 'x' :: ds => !ds.isEmpty && ds.all fun c => (Text.hexValue? c).isSome || c = '_'
  | '0' :: ds => ds.all fun c => ('0' ≤ c && c ≤ '7') || c = '_'
  | _ =>
    match places cs with
    | first :: rest => isGroup first && rest.all isPlace
    | [] => false

/-- Whether a text is taken for a whole number. -/
def looksWhole (cs : List Char) : Bool := looksWholeUnsigned (unsigned cs)

/-- Whether what is behind a point makes a decimal fraction. -/
def isFraction (cs : List Char) : Bool := isExponent (cs.dropWhile isGrouped)

/-- Whether a text that does not start with a point is taken for a decimal fraction:
its places are digits, and a point is behind the last one. -/
def looksPlaced (cs : List Char) : Bool :=
  match places (cs.takeWhile (· ≠ '.')), cs.dropWhile (· ≠ '.') with
  | [whole], '.' :: rest => isGroup whole && isFraction rest
  | first :: more, '.' :: rest => isGroup first && more.all isPlace && rest.all isGrouped
  | _, _ => false

/-- Whether a text is taken for a decimal fraction. -/
def looksFractional (cs : List Char) : Bool :=
  let body := unsigned cs
  looksPlaced body ||
    (match cs with
      | '.' :: rest => rest.head?.any Text.isAsciiDigit && isFraction rest
      | _ => false) ||
    [".inf".toList, ".Inf".toList, ".INF".toList].contains body ||
    [".nan".toList, ".NaN".toList, ".NAN".toList].contains cs

/-! ## Which number it is -/

/-- A text without underscores. -/
def ungrouped (cs : List Char) : List Char := cs.filter (· ≠ '_')

/-- What may stand around a number that is read on its own. -/
def isPadding (c : Char) : Bool := Text.isBlank c && !Text.isInformationSeparator c

/-- A digit of any script as the ASCII digit of the same value. -/
def asciiDigit (c : Char) : Char :=
  match Text.digitValue? c with
  | some n => Char.ofNat (48 + n)
  | none => c

/-- A text with ASCII digits only and nothing around it. -/
def bare (cs : List Char) : List Char := (Text.trim isPadding cs).map asciiDigit

/-- The digits behind the sign that a base has. -/
def withoutBase (base : Nat) (cs : List Char) : List Char :=
  let letters := match base with
    | 2 => ['b', 'B']
    | 8 => ['o', 'O']
    | 16 => ['x', 'X']
    | _ => []
  match cs with
  | '0' :: c :: rest => if letters.contains c then rest else cs
  | _ => cs

/-- The longest row of decimal digits that is read as a whole number. -/
def longest : Nat := Text.mostDigits

/-- A whole number in a base, with or without a sign. -/
def inBase (base : Nat) (cs : List Char) : Except NumberFault Int :=
  let cs := bare cs
  let ds := withoutBase base (unsigned cs)
  if ds.isEmpty || (base = 10 && longest < ds.length) then .error .unreadable
  else match Text.ofDigits? base ds with
    | none => .error .unreadable
    | some n => .ok (if isNegative cs then -(n : Int) else n)

/-- The whole number that a text is. -/
def whole (text : String) : Except NumberFault Int :=
  let cs := ungrouped text.toList
  let signed (n : Int) : Int := if isNegative cs then -n else n
  if cs.isEmpty then .error .empty
  else
    let body := unsigned cs
    match body with
    | [] => .error .empty
    | ['0'] => .ok 0
    | '0' :: 'b' :: ds => (inBase 2 ds).map signed
    | '0' :: 'x' :: ds => (inBase 16 ds).map signed
    | '0' :: _ => (inBase 8 body).map signed
    | _ =>
      if body.contains ':' then do
        let ns ← (places body).mapM (inBase 10)
        return signed (ns.foldl (fun acc n => acc * 60 + n) 0)
      else (inBase 10 body).map signed

/-- Whether a text is one of the words for infinity. -/
def isInfinite (cs : List Char) : Bool :=
  let word := cs.map Char.toLower
  word = "inf".toList || word = "infinity".toList

/-- The exponent that stands behind the digits of a decimal number; nothing if it is
not written as one. -/
def exponent? : List Char → Option Int
  | [] => some 0
  | e :: rest =>
    let ds := unsigned rest
    if (e = 'e' || e = 'E') && !ds.isEmpty && ds.all Text.isAsciiDigit then
      let n : Int := Text.ofAsciiDigits ds
      some (if isNegative rest then -n else n)
    else none

/-- A decimal number, with or without a point, a sign and an exponent. -/
def decimal (cs : List Char) : Except NumberFault Binary64 :=
  let cs := bare cs
  let negative := isNegative cs
  let body := unsigned cs
  let whole := body.takeWhile Text.isAsciiDigit
  let rest := body.dropWhile Text.isAsciiDigit
  let (part, rest) := match rest with
    | '.' :: rest => (rest.takeWhile Text.isAsciiDigit, rest.dropWhile Text.isAsciiDigit)
    | _ => ([], rest)
  let digits := whole ++ part
  if digits.isEmpty then
    if isInfinite body then .ok (.infinite negative)
    else if body.map Char.toLower = "nan".toList then .ok .nan
    else .error .unreadable
  else match exponent? rest with
    | none => .error .unreadable
    | some e => .ok (.ofDecimal negative (Text.ofAsciiDigits digits) (e - part.length))

/-- The number of units of a place in base sixty, the last place being place zero;
nothing if there are more of them than numbers reach. -/
def placeUnit (n : Nat) : Except NumberFault Binary64 :=
  match Binary64.ofInt (Nat.pow 60 n) with
  | .infinite _ => .error .unbounded
  | x => .ok x

/-- The sum of places, the last one first, each rounded on its own. -/
def sumPlaces (n : Nat) (sum : Binary64) : List Binary64 → Except NumberFault Binary64
  | [] => .ok sum
  | x :: rest => do
    let u ← placeUnit n
    sumPlaces (n + 1) (sum.add (x.mul u)) rest

/-- The decimal fraction that a text is. -/
def fractional (text : String) : Except NumberFault Binary64 :=
  let cs := (ungrouped text.toList).map Char.toLower
  let signed (x : Binary64) : Binary64 := if isNegative cs then x.neg else x
  if cs.isEmpty then .error .empty
  else
    let body := unsigned cs
    if body = ".inf".toList then .ok (.infinite (isNegative cs))
    else if body = ".nan".toList then .ok .nan
    else if body.contains ':' then do
      let xs ← (places body).mapM decimal
      return signed (← sumPlaces 0 (.zero false) xs.reverse)
    else (decimal body).map signed

end Number
end Yaml
end ApiManual
