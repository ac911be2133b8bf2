import ApiManual.Yaml.Cursor
import ApiManual.Text.Utf8
import ApiManual.Text.Digit

/-!
# Tags and directives

A tag says what kind of value a node is.  It is written out between angle brackets,
or as a handle and a suffix, where a directive at the start of a document may say
what the handle stands for.
-/

namespace ApiManual
namespace Yaml

/-- A tag as it is written. -/
structure TagText where
  handle : Option String
  suffix : String
  deriving DecidableEq, Repr

/-- A line that speaks about the document after it. -/
inductive Directive where
  /-- The version of the format. -/
  | version (major : Nat)
  /-- What a handle stands for. -/
  | handle (handle replacement : String)
  /-- Anything else. -/
  | other
  deriving DecidableEq, Repr

namespace Tag

/-- The start of the tags of the format's own kinds. -/
def core : String := "tag:yaml.org,2002:"

def null : String := core ++ "null"
def bool : String := core ++ "bool"
def int : String := core ++ "int"
def float : String := core ++ "float"
def binary : String := core ++ "binary"
def timestamp : String := core ++ "timestamp"
def orderedMap : String := core ++ "omap"
def pairs : String := core ++ "pairs"
def set : String := core ++ "set"
def text : String := core ++ "str"
def sequence : String := core ++ "seq"
def mapping : String := core ++ "map"
def merge : String := core ++ "merge"
def value : String := core ++ "value"
def indicator : String := core ++ "yaml"

/-- The handles that need no directive. -/
def defaultHandles : List (String × String) := [("!", "!"), ("!!", core)]

/-- The characters of which tags consist, escapes apart. -/
def isUriChar (c : Char) : Bool :=
  isWordChar c || c = ';' || c = '/' || c = '?' || c = ':' || c = '@' || c = '&' || c = '=' ||
    c = '+' || c = '$' || c = ',' || c = '.' || c = '!' || c = '~' || c = '*' || c = '\x27' ||
    c = '(' || c = ')' || c = '[' || c = ']'

/-- Reads a row of escaped bytes. -/
def escapes (fuel : Nat) (taken : List UInt8) (c : Cursor) :
    Except ScanFault (List UInt8 × Cursor) :=
  match fuel with
  | 0 => .ok (taken.reverse, c)
  | fuel + 1 =>
    if c.peek = '%' then
      match Text.hexValue? (c.peekAt 1), Text.hexValue? (c.peekAt 2) with
      | some a, some b => escapes fuel (UInt8.ofNat (a * 16 + b) :: taken) (c.skip 3)
      | _, _ => .error .malformed
    else .ok (taken.reverse, c)

/-- Reads the characters of a tag. -/
def uriChars (fuel : Nat) (taken : List Char) (c : Cursor) :
    Except ScanFault (List Char × Cursor) :=
  match fuel with
  | 0 => .ok (taken.reverse, c)
  | fuel + 1 =>
    if isUriChar c.peek then uriChars fuel (c.peek :: taken) c.next
    else if c.peek = '%' then do
      let (bytes, c) ← escapes (c.rest.length + 1) [] c
      match Text.decodeUtf8 bytes with
      | some cs => uriChars fuel (cs.reverse ++ taken) c
      | none => .error .malformed
    else .ok (taken.reverse, c)

/-- Reads a tag or a part of it, which has at least one character. -/
def uri (c : Cursor) : Except ScanFault (String × Cursor) := do
  let (cs, after) ← uriChars (c.rest.length + 1) [] c
  if c.rest.length = after.rest.length then .error .malformed
  else return (String.ofList cs, after)

/-- Reads a handle: an exclamation mark, or a word between two of them. -/
def handle (c : Cursor) : Except ScanFault (String × Cursor) :=
  if c.peek ≠ '!' then .error .malformed
  else if c.peekAt 1 = ' ' then .ok ("!", c.next)
  else
    let (word, after) := c.next.span isWordChar
    if after.peek = '!' then .ok (String.ofList ('!' :: word ++ ['!']), after.next)
    else .error .malformed

/-- Whether the tag that starts here has a handle of its own: a second exclamation
mark before the next space. -/
def hasHandle (c : Cursor) : Bool :=
  (c.rest.drop 1).takeWhile (fun x => !isSpaceOrEnd x) |>.contains '!'

/-- Reads a tag from its exclamation mark on. -/
def read (c : Cursor) : Except ScanFault (TagText × Cursor) := do
  let (tag, c) ←
    if c.peekAt 1 = '<' then do
      let (suffix, c) ← uri (c.skip 2)
      if c.peek = '>' then pure ((⟨none, suffix⟩ : TagText), c.next) else .error .malformed
    else if isGap (c.peekAt 1) then pure (⟨none, "!"⟩, c.next)
    else do
      let (h, c) ← if hasHandle c then handle c else pure ("!", c.next)
      let (suffix, c) ← uri c
      pure (⟨some h, suffix⟩, c)
  if isSpaceOrEnd c.peek then return (tag, c) else .error .malformed

end Tag

namespace Directive

/-- Reads a number. -/
def number (c : Cursor) : Except ScanFault (Nat × Cursor) :=
  let (ds, after) := c.span Text.isAsciiDigit
  if ds.isEmpty then .error .malformed else .ok (Text.ofAsciiDigits ds, after)

/-- Reads the version of the format. -/
def versionLine (c : Cursor) : Except ScanFault (Directive × Cursor) := do
  let (major, c) ← number (c.skipWhile (· = ' '))
  if c.peek ≠ '.' then .error .malformed
  else
    let (_, c) ← number c.next
    if isSpaceOrEnd c.peek then return (.version major, c) else .error .malformed

/-- Reads a handle and what it stands for. -/
def handleLine (c : Cursor) : Except ScanFault (Directive × Cursor) := do
  let (h, c) ← Tag.handle (c.skipWhile (· = ' '))
  if c.peek ≠ ' ' then .error .malformed
  else
    let (replacement, c) ← Tag.uri (c.skipWhile (· = ' '))
    if isSpaceOrEnd c.peek then return (.handle h replacement, c) else .error .malformed

/-- Reads a directive from its percent sign to the end of its line. -/
def read (c : Cursor) : Except ScanFault (Directive × Cursor) := do
  let (name, c) := c.next.span isWordChar
  if name.isEmpty || !isSpaceOrEnd c.peek then .error .malformed
  else
    let (d, c) ←
      if name = "YAML".toList then versionLine c
      else if name = "TAG".toList then handleLine c
      else pure (.other, c.skipWhile fun x => !isBreakOrEnd x)
    let c ← c.restOfLine
    return (d, c)

end Directive
end Yaml
end ApiManual
