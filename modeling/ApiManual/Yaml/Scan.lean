import ApiManual.Yaml.Token
import ApiManual.Yaml.Plain
import ApiManual.Yaml.Quoted
import ApiManual.Yaml.BlockScalar

/-!
# The tokens of a text

A text is read from its beginning, token by token.  Two things have to be remembered
on the way.

*Indentation* opens and closes block collections: the columns of those that are open
are a stack, and a token that stands further left closes those that are deeper.

*Keys* are recognised late.  Whether a scalar is the key of a mapping shows only at
the colon behind it, and then the tokens that say so go in front of the scalar.  So
the place of a scalar that may turn out to be a key is kept, one for each level of
brackets, until its line ends.  A scalar that stands where only a key can stand, and
is none, makes the text malformed.
-/

namespace ApiManual
namespace Yaml

/-- A place at which a key may have started. -/
structure PossibleKey where
  /-- How many tokens are before it. -/
  position : Nat
  /-- Whether only a key can stand there. -/
  required : Bool
  /-- How many characters are before it. -/
  index : Nat
  mark : Mark

/-- A text read up to some place. -/
structure Scan where
  cursor : Cursor
  /-- The tokens so far, the last one first. -/
  taken : List Token
  /-- How many tokens there are so far. -/
  count : Nat
  /-- The columns of the open block collections, the innermost first. -/
  indents : List Nat
  /-- Whether a key may start here. -/
  keyAllowed : Bool
  /-- The possible key of the innermost brackets. -/
  key : Option PossibleKey
  /-- The possible keys outside of them, level by level. -/
  outerKeys : List (Option PossibleKey)

namespace Scan

/-- Nothing has been read. -/
def start (cs : List Char) : Scan := ⟨Cursor.start cs, [], 0, [], true, none, []⟩

/-- Whether brackets are open. -/
def inFlow (s : Scan) : Bool := !s.outerKeys.isEmpty

/-- The column of the innermost block collection, one less than the first column if
none is open. -/
def indent (s : Scan) : Int :=
  match s.indents with
  | [] => -1
  | n :: _ => n

/-- All possible keys. -/
def keys (s : Scan) : List PossibleKey := (s.key :: s.outerKeys).filterMap id

/-! ## Adding tokens -/

/-- Adds a token. -/
def push (s : Scan) (t : Token) : Scan := { s with taken := t :: s.taken, count := s.count + 1 }

/-- Adds a token that starts and ends at one place. -/
def pushAt (s : Scan) (kind : TokenKind) (m : Mark) : Scan := s.push ⟨kind, m, m⟩

/-- Adds a token that starts here and goes on to a later place. -/
def pushTo (s : Scan) (kind : TokenKind) (after : Cursor) : Scan :=
  { s with cursor := after }.push ⟨kind, s.cursor.mark, after.mark⟩

/-- Adds a token of a fixed number of characters. -/
def pushSign (s : Scan) (kind : TokenKind) (width : Nat) : Scan :=
  s.pushTo kind (s.cursor.skip width)

/-- Adds a token between others. -/
def insert (s : Scan) (position : Nat) (t : Token) : Scan :=
  { s with taken := s.taken.insertIdx (s.count - position) t, count := s.count + 1 }

/-! ## Indentation -/

/-- Closes the block collections that are deeper than a column; inside brackets
there are none. -/
def closeTo (s : Scan) (column : Int) : Scan :=
  if s.inFlow then s
  else
    let closed := s.indents.takeWhile fun (n : Nat) => column < (n : Int)
    closed.foldl (fun s _ => s.pushAt .blockEnd s.cursor.mark)
      { s with indents := s.indents.dropWhile fun (n : Nat) => column < (n : Int) }

/-- Whether a collection at a column is deeper than all that are open. -/
def opensAt (s : Scan) (column : Nat) : Bool := s.indent < column

/-- Opens a block collection at the next character, unless it is open. -/
def openBlock (s : Scan) (kind : TokenKind) : Scan :=
  if s.opensAt s.cursor.column then
    { s with indents := s.cursor.column :: s.indents }.pushAt kind s.cursor.mark
  else s

/-! ## Possible keys -/

/-- Forgets the possible key of the innermost brackets. -/
def dropKey (s : Scan) : Except ScanFault Scan :=
  match s.key with
  | some k => if k.required then .error .malformed else .ok { s with key := none }
  | none => .ok s

/-- Notes that a key may start here. -/
def noteKey (s : Scan) : Except ScanFault Scan :=
  if s.keyAllowed then do
    let s ← s.dropKey
    let required := !s.inFlow && s.indent == s.cursor.column
    return { s with key := some ⟨s.count, required, s.cursor.index, s.cursor.mark⟩ }
  else .ok s

/-- Whether a key that started there cannot end here: it would go over several
lines, or over more than 1024 characters. -/
def isStale (s : Scan) (k : PossibleKey) : Bool :=
  k.mark.line != s.cursor.mark.line || 1024 < s.cursor.index - k.index

/-- Forgets the possible keys that are none. -/
def dropStale (s : Scan) : Except ScanFault Scan :=
  if s.keys.any fun k => s.isStale k && k.required then .error .malformed
  else
    let fresh := Option.filter fun k => !s.isStale k
    .ok { s with key := fresh s.key, outerKeys := s.outerKeys.map fresh }

/-- How many tokens are certain: those before the first possible key. -/
def certain (s : Scan) : Nat := s.keys.foldl (fun n k => min n k.position) s.count

/-! ## Steps -/

/-- Goes over spaces, comments and line ends to the next token. -/
def skipGaps (fuel : Nat) (s : Scan) : Scan :=
  match fuel with
  | 0 => s
  | fuel + 1 =>
    let c := (s.cursor.skipWhile (· = ' ')).skipComment
    if isBreak c.peek then
      skipGaps fuel { s with cursor := c.next, keyAllowed := s.keyAllowed || !s.inFlow }
    else { s with cursor := c }

/-- Goes over a byte order mark at the beginning of the text. -/
def skipByteOrderMark (s : Scan) : Scan :=
  if s.cursor.index = 0 && s.cursor.peek = '\ufeff' then { s with cursor := s.cursor.next } else s

/-- Closes everything before a line that separates documents or speaks about them. -/
def closeAll (s : Scan) : Except ScanFault Scan := do
  let s ← (s.closeTo (-1)).dropKey
  return { s with keyAllowed := false }

/-- Opens brackets. -/
def openFlow (s : Scan) (kind : TokenKind) : Except ScanFault Scan := do
  let s ← s.noteKey
  return { s with keyAllowed := true, key := none, outerKeys := s.key :: s.outerKeys }.pushSign kind 1

/-- Closes brackets. -/
def closeFlow (s : Scan) (kind : TokenKind) : Except ScanFault Scan := do
  let s ← s.dropKey
  return { s with
    keyAllowed := false
    key := s.outerKeys.headD none
    outerKeys := s.outerKeys.tail }.pushSign kind 1

/-- Reads a comma. -/
def flowEntry (s : Scan) : Except ScanFault Scan := do
  let s ← s.dropKey
  return { s with keyAllowed := true }.pushSign .flowEntry 1

/-- Reads the dash before an entry. -/
def blockEntry (s : Scan) : Except ScanFault Scan :=
  if !s.inFlow && !s.keyAllowed then .error .malformed
  else do
    let s ← (if s.inFlow then s else s.openBlock .blockSequenceStart).dropKey
    return { s with keyAllowed := true }.pushSign .blockEntry 1

/-- Reads the question mark before a key. -/
def explicitKey (s : Scan) : Except ScanFault Scan :=
  if !s.inFlow && !s.keyAllowed then .error .malformed
  else do
    let s ← (if s.inFlow then s else s.openBlock .blockMappingStart).dropKey
    return { s with keyAllowed := !s.inFlow }.pushSign .key 1

/-- Puts the tokens that make a key of it in front of what has been read. -/
def makeKey (s : Scan) (k : PossibleKey) : Scan :=
  let s := s.insert k.position ⟨.key, k.mark, k.mark⟩
  if !s.inFlow && s.opensAt k.mark.column then
    { s with indents := k.mark.column :: s.indents }.insert k.position
      ⟨.blockMappingStart, k.mark, k.mark⟩
  else s

/-- Reads the colon before a value. -/
def keyValue (s : Scan) : Except ScanFault Scan :=
  match s.key with
  | some k => .ok ({ s.makeKey k with key := none, keyAllowed := false }.pushSign .value 1)
  | none =>
    if s.inFlow then .ok ({ s with keyAllowed := false }.pushSign .value 1)
    else if s.keyAllowed then .ok ((s.openBlock .blockMappingStart).pushSign .value 1)
    else .error .malformed

/-- Reads a token that may be a key, or may stand before one. -/
def maybeKey (s : Scan) (read : Cursor → Except ScanFault (TokenKind × Cursor)) :
    Except ScanFault Scan := do
  let s ← s.noteKey
  let (kind, after) ← read s.cursor
  return { s with keyAllowed := false }.pushTo kind after

/-- Reads the name behind an ampersand or an asterisk. -/
def name (c : Cursor) : Except ScanFault (String × Cursor) :=
  let (word, after) := c.next.span isWordChar
  if !word.isEmpty && (isGap after.peek || "?:,]\x7d%@\x60".toList.contains after.peek) then
    .ok (String.ofList word, after)
  else .error .malformed

/-- Reads a block scalar. -/
def blockScalar (s : Scan) (fold : Bool) : Except ScanFault Scan := do
  let s ← s.dropKey
  let (text, after) ← BlockScalar.read fold s.indent s.cursor
  return { s with keyAllowed := true }.pushTo (.scalar (String.ofList text) false) after

/-- Reads a quoted scalar. -/
def quoted (double : Bool) (c : Cursor) : Except ScanFault (TokenKind × Cursor) := do
  let (text, after) ← Quoted.read double c
  return (.scalar (String.ofList text) false, after)

/-- Reads a plain scalar; a key may follow it where it ends with its line. -/
def plain (s : Scan) : Except ScanFault Scan := do
  let s ← s.noteKey
  let r := Plain.read s.inFlow s.indent s.cursor
  return { s with keyAllowed := r.atLineStart }.pushTo (.scalar (String.ofList r.text) true) r.after

/-- Reads a directive. -/
def directive (s : Scan) : Except ScanFault Scan := do
  let s ← s.closeAll
  let (d, after) ← Directive.read s.cursor
  return s.pushTo (.directive d) after

/-- Reads the token that starts at the next character. -/
def token (s : Scan) : Except ScanFault Scan :=
  let c := s.cursor
  let gapAhead := isGap (c.peekAt 1)
  match c.peek with
  | '\x00' => do return (← s.closeAll).pushAt .streamEnd c.mark
  | '[' => s.openFlow .flowSequenceStart
  | '\x7b' => s.openFlow .flowMappingStart
  | ']' => s.closeFlow .flowSequenceEnd
  | '\x7d' => s.closeFlow .flowMappingEnd
  | ',' => s.flowEntry
  | '*' => s.maybeKey fun c => do let (n, after) ← name c; return (.alias n, after)
  | '&' => s.maybeKey fun c => do let (n, after) ← name c; return (.anchor n, after)
  | '!' => s.maybeKey fun c => do let (t, after) ← Tag.read c; return (.tag t, after)
  | '\x27' => s.maybeKey (quoted false)
  | '"' => s.maybeKey (quoted true)
  | x =>
    if x = '%' && c.column = 0 then s.directive
    else if c.column = 0 && c.atSeparator then do
      return (← s.closeAll).pushSign (if x = '-' then .documentStart else .documentEnd) 3
    else if x = '-' && gapAhead then s.blockEntry
    else if x = '?' && (s.inFlow || gapAhead) then s.explicitKey
    else if x = ':' && (s.inFlow || gapAhead) then s.keyValue
    else if x = '|' && !s.inFlow then s.blockScalar false
    else if x = '>' && !s.inFlow then s.blockScalar true
    else if Plain.startsAt s.inFlow c then s.plain
    else .error .malformed

/-- Reads the next token, with the ends of the block collections before it. -/
def step (s : Scan) : Except ScanFault Scan := do
  let s := s.skipByteOrderMark
  let s ← (s.skipGaps (s.cursor.rest.length + 1)).dropStale
  (s.closeTo s.cursor.column).token

/-- Whether the text has been read to its end. -/
def isFinished (s : Scan) : Bool :=
  match s.taken with
  | t :: _ => t.kind = .streamEnd
  | [] => false

/-- The tokens of a text that cannot be read on: those that are certain. -/
def broken (s : Scan) (f : ScanFault) : TokenRow := ⟨s.taken.reverse.take s.certain, f⟩

/-- Reads token after token. -/
def run (fuel : Nat) (s : Scan) : TokenRow :=
  if s.isFinished then ⟨s.taken.reverse, .malformed⟩
  else match fuel with
    | 0 => s.broken .malformed
    | fuel + 1 =>
      match s.dropStale with
      | .error f => s.broken f
      | .ok s =>
        match s.step with
        | .error f => s.broken f
        | .ok s => run fuel s

end Scan

/-- The tokens of a text. -/
def TokenRow.ofChars (cs : List Char) : TokenRow :=
  (Scan.start cs).run (cs.length + 2)

end Yaml
end ApiManual
