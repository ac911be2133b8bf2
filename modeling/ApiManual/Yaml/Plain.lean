import ApiManual.Yaml.Cursor

/-!
# Plain scalars

Text without quotes.  It ends before a colon that a gap follows, before a comment,
and inside brackets before any character that belongs to them.  It may go on over
several lines; the line breaks between them are folded: a single one becomes a
space, and of several the first one goes.
-/

namespace ApiManual
namespace Yaml
namespace Plain

/-- Whether a scalar inside brackets ends before the character. -/
def endsInBrackets (c : Char) : Bool :=
  c = ',' || c = '?' || c = '[' || c = ']' || c = '\x7b' || c = '\x7d'

/-- Whether a colon before the character is no part of a scalar. -/
def separates (inFlow : Bool) (next : Char) : Bool :=
  isGap next ||
    (inFlow && (next = ',' || next = '[' || next = ']' || next = '\x7b' || next = '\x7d'))

/-- The characters of a word at the front of a text. -/
def word (inFlow : Bool) : List Char → List Char
  | [] => []
  | c :: rest =>
    if isGap c || (c = ':' && separates inFlow (rest.headD endChar)) ||
        (inFlow && endsInBrackets c) then []
    else c :: word inFlow rest

/-- Line breaks folded into text, the first one apart from the others. -/
def folded (first : Char) (others : List Char) : List Char :=
  if first ≠ '\n' then first :: others
  else if others.isEmpty then [' '] else others

/-- What comes after a word: the text of the gap (none if the scalar ends here), the
place behind it, and whether a line has ended. -/
structure Gap where
  text : List Char
  after : Cursor
  brokeLine : Bool

/-- Reads the spaces and line breaks after a first line break; nothing if they lead
to the line between two documents. -/
def breaks (fuel : Nat) (taken : List Char) (c : Cursor) : Option (List Char) × Cursor :=
  match fuel with
  | 0 => (some taken.reverse, c)
  | fuel + 1 =>
    if c.peek = ' ' then breaks fuel taken c.next
    else if isBreak c.peek then
      if c.next.atSeparator then (none, c.next)
      else breaks fuel (breakText c.peek :: taken) c.next
    else (some taken.reverse, c)

/-- Reads the gap after a word. -/
def gap (c : Cursor) : Gap :=
  let (spaces, c) := c.span (· = ' ')
  if isBreak c.peek then
    if c.next.atSeparator then ⟨[], c.next, true⟩
    else match breaks (c.next.rest.length + 1) [] c.next with
      | (none, after) => ⟨[], after, true⟩
      | (some others, after) => ⟨folded (breakText c.peek) others, after, true⟩
  else ⟨spaces, c, false⟩

/-- A plain scalar as it was read. -/
structure Result where
  text : List Char
  after : Cursor
  /-- Whether the scalar is followed by the beginning of a line. -/
  atLineStart : Bool

/-- Reads words and the gaps between them; `before` is the gap before the next
word. -/
def words (fuel : Nat) (inFlow : Bool) (indent : Int) (taken before : List Char)
    (atLineStart : Bool) (c : Cursor) : Result :=
  let finished : Result := ⟨taken, c, atLineStart⟩
  match fuel with
  | 0 => finished
  | fuel + 1 =>
    if c.peek = '#' then finished
    else
      let w := word inFlow c.rest
      if w.isEmpty then finished
      else
        let g := gap (c.skip w.length)
        let text := taken ++ before ++ w
        if g.text.isEmpty || g.after.peek = '#' || (!inFlow && (g.after.column : Int) < indent) then
          ⟨text, g.after, g.brokeLine⟩
        else words fuel inFlow indent text g.text g.brokeLine g.after

/-- Reads a plain scalar whose lines stand deeper than `indent`. -/
def read (inFlow : Bool) (indent : Int) (c : Cursor) : Result :=
  words (c.rest.length + 1) inFlow (indent + 1) [] [] false c

/-- Whether a plain scalar can start here. -/
def startsAt (inFlow : Bool) (c : Cursor) : Bool :=
  let x := c.peek
  let indicator := isGap x || x = '-' || x = '?' || x = ':' || x = ',' || x = '[' || x = ']' ||
    x = '\x7b' || x = '\x7d' || x = '#' || x = '&' || x = '*' || x = '!' || x = '|' || x = '>' ||
    x = '\x27' || x = '"' || x = '%' || x = '@' || x = '\x60'
  !indicator ||
    (!isGap (c.peekAt 1) && (x = '-' || (!inFlow && (x = '?' || x = ':'))))

end Plain
end Yaml
end ApiManual
