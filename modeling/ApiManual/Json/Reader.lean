import ApiManual.Value.Basic

/-!
# Reading JSON

JSON text as a value.  Objects keep the order of their members; integers have any
size; a number with a fraction or an exponent is the floating-point number nearest
to it.  A half of a surrogate pair that stands alone reads as the replacement
character.

The reader works on what is left of the text.  Every step that goes into a value
or on to the next one has taken at least one character, so the length of the text
bounds the number of steps.
-/

namespace ApiManual
namespace Json

/-- White space between the tokens. -/
def isSpace (c : Char) : Bool := c = ' ' || c = '\n' || c = '\r' || c = '\t'

/-- What is left after white space. -/
def skipSpace (cs : List Char) : List Char := cs.dropWhile isSpace

/-! ## Strings -/

/-- The character that a one-letter escape stands for. -/
def escape? : Char → Option Char
  | '"' => some '"'
  | '\\' => some '\\'
  | '/' => some '/'
  | 'b' => some '\x08'
  | 'f' => some '\x0c'
  | 'n' => some '\n'
  | 'r' => some '\r'
  | 't' => some '\t'
  | _ => none

/-- The number that four hexadecimal digits spell. -/
def codeUnit? (a b c d : Char) : Option Nat := do
  let a ← Text.hexValue? a
  let b ← Text.hexValue? b
  let c ← Text.hexValue? c
  let d ← Text.hexValue? d
  return ((a * 16 + b) * 16 + c) * 16 + d

/-- The first half of a surrogate pair. -/
def isLead (n : Nat) : Bool := 0xD800 ≤ n && n ≤ 0xDBFF

/-- The second half of a surrogate pair. -/
def isTrail (n : Nat) : Bool := 0xDC00 ≤ n && n ≤ 0xDFFF

/-- The characters of a row of code points and halves of pairs.  What becomes of a half
that stands alone is left out here, and a replacement stands for it. -/
def joinPairs : List Nat → List Char
  | [] => []
  | [n] => [if isLead n || isTrail n then '\ufffd' else Char.ofNat n]
  | n :: m :: rest =>
    if isLead n && isTrail m then
      Char.ofNat (0x10000 + (n - 0xD800) * 0x400 + (m - 0xDC00)) :: joinPairs rest
    else (if isLead n || isTrail n then '\ufffd' else Char.ofNat n) :: joinPairs (m :: rest)

/-- Reads the code points and halves of pairs of a string from behind its opening
quote; `taken` are those so far, the last one first. -/
def units (taken : List Nat) : List Char → Option (List Nat × List Char)
  | [] => none
  | '"' :: rest => some (taken.reverse, rest)
  | '\\' :: 'u' :: a :: b :: c :: d :: rest =>
    match codeUnit? a b c d with
    | some n => units (n :: taken) rest
    | none => none
  | '\\' :: c :: rest =>
    match escape? c with
    | some e => units (e.toNat :: taken) rest
    | none => none
  | c :: rest => if c < ' ' then none else units (c.toNat :: taken) rest
termination_by structural cs => cs

/-- Reads a string from behind its opening quote. -/
def string (cs : List Char) : Option (List Char × List Char) :=
  (units [] cs).map fun (us, rest) => (joinPairs us, rest)

/-! ## Numbers -/

/-- A number without its sign: whole digits, digits of the fraction, exponent, and
whether there was a fraction or an exponent. -/
structure Numeral where
  whole : List Char
  fraction : List Char
  exponent : Int
  isWhole : Bool

/-- The value of a numeral under its sign. -/
def Numeral.value (negative : Bool) (n : Numeral) : Scalar :=
  if n.isWhole then
    let k : Int := Text.ofAsciiDigits n.whole
    .int (if negative then -k else k)
  else .float (.ofDecimal negative (Text.ofAsciiDigits (n.whole ++ n.fraction))
    (n.exponent - n.fraction.length))

/-- Splits off the digits at the front. -/
def digits (cs : List Char) : List Char × List Char :=
  (cs.takeWhile Text.isAsciiDigit, cs.dropWhile Text.isAsciiDigit)

/-- Reads the digits of an exponent with their sign. -/
def exponent? (cs : List Char) : Option (Int × List Char) :=
  let (negative, cs) := match cs with
    | '-' :: r => (true, r)
    | '+' :: r => (false, r)
    | r => (false, r)
  let (ds, rest) := digits cs
  if ds.isEmpty then none
  else
    let n : Int := Text.ofAsciiDigits ds
    some (if negative then -n else n, rest)

/-- Reads a number from behind its sign. -/
def numeral? (cs : List Char) : Option (Numeral × List Char) :=
  let (whole, rest) := digits cs
  if whole.isEmpty || (whole.length ≠ 1 && whole.head? = some '0') then none
  else
    let fraction? : Option (List Char × List Char × Bool) := match rest with
      | '.' :: r =>
        let (ds, r) := digits r
        if ds.isEmpty then none else some (ds, r, false)
      | r => some ([], r, true)
    match fraction? with
    | none => none
    | some (fraction, rest, isWhole) =>
      match rest with
      | c :: r =>
        if c = 'e' || c = 'E' then
          (exponent? r).map fun (e, r) => (⟨whole, fraction, e, false⟩, r)
        else some (⟨whole, fraction, 0, isWhole⟩, rest)
      | [] => some (⟨whole, fraction, 0, isWhole⟩, [])

/-- Reads a number. -/
def number? (cs : List Char) : Option (Scalar × List Char) :=
  match cs with
  | '-' :: r => (numeral? r).map fun (n, r) => (n.value true, r)
  | r => (numeral? r).map fun (n, r) => (n.value false, r)

/-! ## Values -/

/-- What is left of a text behind a word that it starts with. -/
def afterWord? (word : List Char) (cs : List Char) : Option (List Char) :=
  if word.isPrefixOf cs then some (cs.drop word.length) else none

/-- A scalar that is no string, at the front of the text. -/
def bare? (cs : List Char) : Option (Scalar × List Char) :=
  match afterWord? "null".toList cs with
  | some r => some (.null, r)
  | none =>
    match afterWord? "true".toList cs with
    | some r => some (.bool true, r)
    | none =>
      match afterWord? "false".toList cs with
      | some r => some (.bool false, r)
      | none => number? cs

mutual

/-- Reads a value and the space before it. -/
def value (fuel : Nat) (cs : List Char) : Option (Value × List Char) :=
  match fuel with
  | 0 => none
  | fuel + 1 =>
    match skipSpace cs with
    | '"' :: r => (string r).map fun (s, r) => (.text (String.ofList s), r)
    | '[' :: r =>
      match skipSpace r with
      | ']' :: r => some (.list [], r)
      | r => (items fuel r).map fun (vs, r) => (.list vs, r)
    | '\x7b' :: r =>
      match skipSpace r with
      | '\x7d' :: r => some (.map [], r)
      | r => (members fuel r).map fun (es, r) => (.map es, r)
    | r => (bare? r).map fun (s, r) => (.scalar s, r)

/-- Reads the items of a list up to its bracket. -/
def items (fuel : Nat) (cs : List Char) : Option (List Value × List Char) :=
  match fuel with
  | 0 => none
  | fuel + 1 =>
    match value fuel cs with
    | none => none
    | some (v, r) =>
      match skipSpace r with
      | ']' :: r => some ([v], r)
      | ',' :: r => (items fuel r).map fun (vs, r) => (v :: vs, r)
      | _ => none

/-- Reads the members of an object up to its brace. -/
def members (fuel : Nat) (cs : List Char) : Option (List (Scalar × Value) × List Char) :=
  match fuel with
  | 0 => none
  | fuel + 1 =>
    match skipSpace cs with
    | '"' :: r =>
      match string r with
      | none => none
      | some (k, r) =>
        match skipSpace r with
        | ':' :: r =>
          match value fuel r with
          | none => none
          | some (v, r) =>
            let entry := (Scalar.text (String.ofList k), v)
            match skipSpace r with
            | '\x7d' :: r => some ([entry], r)
            | ',' :: r => (members fuel r).map fun (es, r) => (entry :: es, r)
            | _ => none
        | _ => none
    | _ => none

end

/-- The value that a JSON text spells, if it is one. -/
def read? (cs : List Char) : Option Value :=
  match value (2 * cs.length + 2) cs with
  | some (v, r) => if (skipSpace r).isEmpty then some v else none
  | none => none

/-- The value that a JSON text spells, if it is one. -/
def parse? (s : String) : Option Value := read? s.toList

end Json
end ApiManual
