/-!
# Places in a text

A cursor is what is left of a text together with the place where it starts.  Lines
end with a line feed, a next-line control, or one of the two separators; the byte
order mark takes no column.  The NUL character is in no text that is read, so it
stands for the end.
-/

namespace ApiManual
namespace Yaml

/-- A place in a text: line and column, both from zero. -/
structure Mark where
  line : Nat
  column : Nat
  deriving DecidableEq, Repr

/-- Why a text cannot be read on. -/
inductive ScanFault where
  /-- It breaks the rules of the format. -/
  | malformed
  /-- An escape names a code point that does not exist. -/
  | noSuchCharacter
  deriving DecidableEq, Repr

/-! ## Characters -/

/-- What stands for the end of the text. -/
def endChar : Char := '\x00'

/-- A character that may be in a text at all. -/
def isAcceptable (c : Char) : Bool :=
  let n := c.toNat
  n == 9 || n == 10 || n == 13 || (0x20 ≤ n && n ≤ 0x7E) || n == 0x85 ||
    (0xA0 ≤ n && n ≤ 0xFFFD) || 0x10000 ≤ n

/-- The end of a line. -/
def isBreak (c : Char) : Bool := c = '\n' || c = '\x85' || c = '\u2028' || c = '\u2029'

/-- The end of a line or of the text. -/
def isBreakOrEnd (c : Char) : Bool := isBreak c || c = endChar

/-- A space, or the end of a line or of the text. -/
def isSpaceOrEnd (c : Char) : Bool := c = ' ' || isBreakOrEnd c

/-- A space or a tab, or the end of a line or of the text. -/
def isGap (c : Char) : Bool := c = '\t' || isSpaceOrEnd c

/-- A letter, a digit, an underscore or a dash. -/
def isWordChar (c : Char) : Bool :=
  ('0' ≤ c && c ≤ '9') || ('A' ≤ c && c ≤ 'Z') || ('a' ≤ c && c ≤ 'z') || c = '-' || c = '_'

/-- A line feed stands for itself and for the next-line control; the separators
stay what they are. -/
def breakText (c : Char) : Char := if c = '\x85' then '\n' else c

/-! ## Cursors -/

/-- What is left of a text, how many characters were before it, and its place. -/
structure Cursor where
  rest : List Char
  index : Nat
  mark : Mark

namespace Cursor

/-- The beginning of a text. -/
def start (cs : List Char) : Cursor := ⟨cs, 0, ⟨0, 0⟩⟩

/-- The next character. -/
def peek (c : Cursor) : Char := c.rest.headD endChar

/-- The character after `n` others. -/
def peekAt (c : Cursor) (n : Nat) : Char := (c.rest.drop n).headD endChar

/-- The column of the next character. -/
def column (c : Cursor) : Nat := c.mark.column

/-- The place behind the next character. -/
def next (c : Cursor) : Cursor :=
  match c.rest with
  | [] => c
  | x :: rest =>
    ⟨rest, c.index + 1,
      if isBreak x then ⟨c.mark.line + 1, 0⟩
      else if x = '\ufeff' then c.mark
      else ⟨c.mark.line, c.mark.column + 1⟩⟩

/-- The place behind several characters. -/
def skip (c : Cursor) : Nat → Cursor
  | 0 => c
  | n + 1 => c.next.skip n

/-- The characters that `keep` accepts, and the place behind them. -/
def span (c : Cursor) (keep : Char → Bool) : List Char × Cursor :=
  let taken := c.rest.takeWhile keep
  (taken, c.skip taken.length)

/-- The place behind the characters that `keep` accepts. -/
def skipWhile (c : Cursor) (keep : Char → Bool) : Cursor := (c.span keep).2

/-- The place behind a comment that starts here, if one does. -/
def skipComment (c : Cursor) : Cursor :=
  if c.peek = '#' then c.skipWhile fun x => !isBreakOrEnd x else c

/-- Whether a line that separates documents starts here. -/
def atSeparator (c : Cursor) : Bool :=
  (['-', '-', '-'].isPrefixOf c.rest || ['.', '.', '.'].isPrefixOf c.rest) && isGap (c.peekAt 3)

/-- Goes to the end of the line, on which only a comment may still stand, and
behind it. -/
def restOfLine (c : Cursor) : Except ScanFault Cursor :=
  let c := (c.skipWhile (· = ' ')).skipComment
  if isBreakOrEnd c.peek then .ok c.next else .error .malformed

@[simp] theorem skip_zero (c : Cursor) : c.skip 0 = c := rfl

@[simp] theorem skip_succ (c : Cursor) (n : Nat) : c.skip (n + 1) = c.next.skip n := rfl

/-- A step leaves the text behind the next character. -/
@[simp] theorem rest_next (c : Cursor) : c.next.rest = c.rest.tail := by
  unfold next; split <;> simp_all

/-- Several steps leave the text behind as many characters. -/
@[simp] theorem rest_skip (c : Cursor) (n : Nat) : (c.skip n).rest = c.rest.drop n := by
  induction n generalizing c with
  | zero => simp
  | succ n ih => simp [ih, List.drop_tail]

end Cursor
end Yaml
end ApiManual
