import ApiManual.Json.Reader

/-!
# The syntax of JSON

The grammar of JSON as a type of syntax trees.  A tree holds everything that is
written: the white space, how each character of a string is written, the digits of
each number.  `Document.chars` is the text of a tree and `Document.value` the value
that it spells; both follow the tree.

A part that the grammar restricts carries the restriction with it, so every tree is
the syntax of some text.
-/

namespace ApiManual
namespace Json

/-! ## Strings -/

/-- How one character of a string is written.  Half of a surrogate pair may be
written, but only as a code unit. -/
inductive Piece where
  /-- As itself. -/
  | raw (c : Char) (plain : ' ' ≤ c ∧ c ≠ '"' ∧ c ≠ '\\')
  /-- By an escape of one letter. -/
  | letter (c : Char) (known : (escape? c).isSome)
  /-- By the four digits of its code unit. -/
  | unit (a b c d : Char) (digits : (codeUnit? a b c d).isSome)

namespace Piece

/-- The text of a piece. -/
def chars : Piece → List Char
  | raw c _ => [c]
  | letter c _ => ['\\', c]
  | unit a b c d _ => ['\\', 'u', a, b, c, d]

/-- The code point, or half of a pair, that a piece spells. -/
def codeUnit : Piece → Nat
  | raw c _ => c.toNat
  | letter c known => ((escape? c).get known).toNat
  | unit a b c d digits => (codeUnit? a b c d).get digits

end Piece

/-- What is between the quotes of a string. -/
abbrev Pieces := List Piece

namespace Pieces

/-- The text between the quotes. -/
def inside (ps : Pieces) : List Char := ps.flatMap Piece.chars

@[simp] theorem inside_nil : inside [] = [] := rfl

@[simp] theorem inside_cons (p : Piece) (ps : Pieces) :
    inside (p :: ps) = p.chars ++ inside ps := rfl

@[simp] theorem inside_append (ps qs : Pieces) : inside (ps ++ qs) = inside ps ++ inside qs := by
  simp [inside]

/-- The text of a string, quotes and all. -/
def chars (ps : Pieces) : List Char := '"' :: ps.inside ++ ['"']

/-- What a string says. -/
def text (ps : Pieces) : String := String.ofList (joinPairs (ps.map Piece.codeUnit))

end Pieces

/-! ## Numbers -/

/-- A row of digits. -/
structure Digits where
  chars : List Char
  notEmpty : chars ≠ []
  areDigits : ∀ c ∈ chars, Text.isAsciiDigit c = true

/-- The exponent of a number: its letter, its sign, and its digits. -/
structure Exponent where
  letter : Char
  isLetter : letter = 'e' ∨ letter = 'E'
  sign : Option Char
  isSign : ∀ c ∈ sign, c = '+' ∨ c = '-'
  digits : Digits

namespace Exponent

/-- The text of an exponent. -/
def chars (e : Exponent) : List Char := e.letter :: (e.sign.toList ++ e.digits.chars)

/-- The exponent as a number. -/
def value (e : Exponent) : Int :=
  let n : Int := Text.ofAsciiDigits e.digits.chars
  if e.sign = some '-' then -n else n

end Exponent

/-- A number.  Its whole part starts with a zero only if it is zero. -/
structure Number where
  negative : Bool
  whole : Digits
  noZero : whole.chars.head? = some '0' → whole.chars = ['0']
  fraction : Option Digits
  exponent : Option Exponent

namespace Number

/-- The digits behind the point. -/
def fractionDigits (n : Number) : List Char := (n.fraction.map Digits.chars).getD []

/-- The text of the fraction. -/
def fractionChars (n : Number) : List Char := (n.fraction.map fun ds => '.' :: ds.chars).getD []

/-- The text of the exponent. -/
def exponentChars (n : Number) : List Char := (n.exponent.map Exponent.chars).getD []

/-- The text of a number without its sign. -/
def unsigned (n : Number) : List Char := n.whole.chars ++ (n.fractionChars ++ n.exponentChars)

/-- The text of a number. -/
def chars (n : Number) : List Char := if n.negative then '-' :: n.unsigned else n.unsigned

/-- What the digits of a number say. -/
def numeral (n : Number) : Numeral :=
  ⟨n.whole.chars, n.fractionDigits, (n.exponent.map Exponent.value).getD 0,
    n.fraction.isNone && n.exponent.isNone⟩

/-- The number. -/
def scalar (n : Number) : Scalar := n.numeral.value n.negative

end Number

/-! ## Atoms -/

/-- The three words. -/
inductive Word where
  | null | yes | no
  deriving DecidableEq

namespace Word

/-- The text of a word. -/
def chars : Word → List Char
  | null => ['n', 'u', 'l', 'l']
  | yes => ['t', 'r', 'u', 'e']
  | no => ['f', 'a', 'l', 's', 'e']

/-- What a word stands for. -/
def scalar : Word → Scalar
  | null => .null
  | yes => .bool true
  | no => .bool false

end Word

/-- A value without parts. -/
inductive Atom where
  | text (ps : Pieces)
  | number (n : Number)
  | word (w : Word)

namespace Atom

/-- The text of an atom. -/
def chars : Atom → List Char
  | text ps => ps.chars
  | number n => n.chars
  | word w => w.chars

/-- What an atom spells. -/
def scalar : Atom → Scalar
  | text ps => .text ps.text
  | number n => n.scalar
  | word w => w.scalar

end Atom

/-! ## Trees -/

/-- White space. -/
structure Gap where
  chars : List Char
  areSpaces : ∀ c ∈ chars, isSpace c = true

mutual

/-- A value as it is written. -/
inductive Tree where
  | atom (a : Atom)
  | emptyList (inside : Gap)
  | list (items : Items)
  | emptyObject (inside : Gap)
  | object (members : Members)

/-- The items of a list with what is behind them up to the bracket. -/
inductive Items where
  | last (before : Gap) (item : Tree) (after : Gap)
  | more (before : Gap) (item : Tree) (after : Gap) (rest : Items)

/-- The members of an object with what is behind them up to the brace. -/
inductive Members where
  | last (before : Gap) (key : Pieces) (behindKey behindColon : Gap) (value : Tree) (after : Gap)
  | more (before : Gap) (key : Pieces) (behindKey behindColon : Gap) (value : Tree) (after : Gap)
    (rest : Members)

end

mutual

/-- The text of a value. -/
def Tree.chars : Tree → List Char
  | .atom a => a.chars
  | .emptyList inside => '[' :: inside.chars ++ [']']
  | .list items => '[' :: items.chars
  | .emptyObject inside => '\x7b' :: inside.chars ++ ['\x7d']
  | .object members => '\x7b' :: members.chars

/-- The text of items, with the bracket. -/
def Items.chars : Items → List Char
  | .last before item after => before.chars ++ item.chars ++ after.chars ++ [']']
  | .more before item after rest =>
    before.chars ++ item.chars ++ after.chars ++ ',' :: rest.chars

/-- The text of members, with the brace. -/
def Members.chars : Members → List Char
  | .last before key behindKey behindColon value after =>
    before.chars ++ key.chars ++ behindKey.chars ++ ':' :: behindColon.chars ++ value.chars ++
      after.chars ++ ['\x7d']
  | .more before key behindKey behindColon value after rest =>
    before.chars ++ key.chars ++ behindKey.chars ++ ':' :: behindColon.chars ++ value.chars ++
      after.chars ++ ',' :: rest.chars

end

mutual

/-- The value that a tree spells. -/
def Tree.value : Tree → Value
  | .atom a => .scalar a.scalar
  | .emptyList _ => .list []
  | .list items => .list items.values
  | .emptyObject _ => .map []
  | .object members => .map members.entries

/-- The values of items. -/
def Items.values : Items → List Value
  | .last _ item _ => [item.value]
  | .more _ item _ rest => item.value :: rest.values

/-- The entries that members make. -/
def Members.entries : Members → List (Scalar × Value)
  | .last _ key _ _ value _ => [(.text key.text, value.value)]
  | .more _ key _ _ value _ rest => (.text key.text, value.value) :: rest.entries

end

/-- A whole text: a value with the space around it. -/
structure Document where
  before : Gap
  root : Tree
  after : Gap

namespace Document

/-- The text of a document. -/
def chars (d : Document) : List Char := d.before.chars ++ d.root.chars ++ d.after.chars

/-- The value of a document. -/
def value (d : Document) : Value := d.root.value

/-- Whether a document holds an object. -/
def isObject (d : Document) : Bool :=
  match d.root with
  | .emptyObject _ | .object _ => true
  | _ => false

end Document
end Json
end ApiManual
