import ApiManual.Value.Text

/-!
# Writing JSON

Values as indented JSON.  Every item and every member stands on a line of its own,
two spaces further in than the bracket that opened; an empty list or object keeps
its brackets together.  Characters beyond ASCII stand for themselves.

JSON has fewer kinds of value than a descriptor.  A pair is written as a list of
two; dates, moments, bytes and sets are written as strings that hold their text.
A number that is infinite or no number is written as a word, which is no JSON.
Three things have no written form at all: a mapping with a date or bytes for a key,
a value that comes back to itself, and a whole number that has no text.
-/

namespace ApiManual
namespace Json

/-- Why a value cannot be written. -/
inductive WriteFault where
  /-- A key of a mapping has no form as the name of a member. -/
  | key
  /-- The value holds itself. -/
  | endless
  /-- A whole number has too many digits. -/
  | number
  deriving DecidableEq, Repr

/-- One character of a string. -/
def escaped (c : Char) : List Char :=
  match c with
  | '"' => ['\\', '"']
  | '\\' => ['\\', '\\']
  | '\n' => ['\\', 'n']
  | '\r' => ['\\', 'r']
  | '\t' => ['\\', 't']
  | '\x08' => ['\\', 'b']
  | '\x0c' => ['\\', 'f']
  | c => if c < ' ' then '\\' :: 'u' :: Text.hexDigits 4 c.toNat else [c]

/-- A string between its quotes. -/
def writeString (cs : List Char) : List Char :=
  '"' :: cs.flatMap escaped ++ ['"']

/-- A scalar. -/
def writeScalar : Scalar → List Char
  | .null => ['n', 'u', 'l', 'l']
  | .bool true => ['t', 'r', 'u', 'e']
  | .bool false => ['f', 'a', 'l', 's', 'e']
  | .int n => (Text.intText n).toList
  | .float x => x.write Decimal.schemaStyle
  | s => writeString s.plain.toList

/-- What is written, if the numbers in it have texts. -/
def ifSpelled (haveTexts : Bool) (a : α) : Except WriteFault α :=
  if haveTexts then .ok a else .error .number

theorem ifSpelled_eq_ok_iff {haveTexts : Bool} {a b : α} :
    ifSpelled haveTexts a = .ok b ↔ haveTexts = true ∧ a = b := by
  cases haveTexts <;> simp [ifSpelled]

/-- The name of a member, between its quotes. -/
def writeKey : Scalar → Except WriteFault (List Char)
  | .text s => .ok (writeString s.toList)
  | .null => .ok (writeString ['n', 'u', 'l', 'l'])
  | .bool b => .ok (writeString (writeScalar (.bool b)))
  | .int n => ifSpelled (Text.hasIntText n) (writeString (writeScalar (.int n)))
  | .float x => .ok (writeString (writeScalar (.float x)))
  | .bytes _ | .date _ | .moment _ => .error .key

/-- A new line at a depth. -/
def newLine (depth : Nat) : List Char :=
  '\n' :: List.replicate (2 * depth) ' '

mutual

/-- A value at a depth. -/
def write (depth : Nat) : Value → Except WriteFault (List Char)
  | .scalar s => ifSpelled s.hasText (writeScalar s)
  | .set items => ifSpelled (items.all Scalar.hasText) (writeString (Value.quotedSet items).toList)
  | .list [] => .ok ['[', ']']
  | .list (v :: rest) => do
    let first ← write (depth + 1) v
    let others ← writeItems (depth + 1) rest
    return '[' :: newLine (depth + 1) ++ first ++ others ++ newLine depth ++ [']']
  | .pair a b => do
    let first ← write (depth + 1) a
    let second ← write (depth + 1) b
    return '[' :: newLine (depth + 1) ++ first ++ ',' :: newLine (depth + 1) ++ second ++
      newLine depth ++ [']']
  | .map [] => .ok ['\x7b', '\x7d']
  | .map ((k, v) :: rest) => do
    let key ← writeKey k
    let first ← write (depth + 1) v
    let others ← writeMembers (depth + 1) rest
    return '\x7b' :: newLine (depth + 1) ++ key ++ ':' :: ' ' :: first ++ others ++
      newLine depth ++ ['\x7d']
  | .loop => .error .endless

/-- The items of a list after the first one. -/
def writeItems (depth : Nat) : List Value → Except WriteFault (List Char)
  | [] => .ok []
  | v :: rest => do
    let first ← write depth v
    let others ← writeItems depth rest
    return ',' :: newLine depth ++ first ++ others

/-- The members of an object after the first one. -/
def writeMembers (depth : Nat) : List (Scalar × Value) → Except WriteFault (List Char)
  | [] => .ok []
  | (k, v) :: rest => do
    let key ← writeKey k
    let first ← write depth v
    let others ← writeMembers depth rest
    return ',' :: newLine depth ++ key ++ ':' :: ' ' :: first ++ others

end

/-- A value as JSON text. -/
def render (v : Value) : Except WriteFault String :=
  (write 0 v).map String.ofList

end Json
end ApiManual
