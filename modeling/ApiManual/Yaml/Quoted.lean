import ApiManual.Yaml.Plain
import ApiManual.Text.Digit

/-!
# Quoted scalars

Text between quotes, over any number of lines.  Spaces around a line break go, and
the break is folded as in plain scalars.  Between single quotes a quote is written
twice and nothing else is special; between double quotes a backslash starts an
escape, and before the end of a line it takes the line break away.
-/

namespace ApiManual
namespace Yaml
namespace Quoted

/-- The character that a one-letter escape stands for. -/
def escape? : Char → Option Char
  | '0' => some '\x00'
  | 'a' => some '\x07'
  | 'b' => some '\x08'
  | 't' => some '\t'
  | '\t' => some '\t'
  | 'n' => some '\n'
  | 'v' => some '\x0b'
  | 'f' => some '\x0c'
  | 'r' => some '\r'
  | 'e' => some '\x1b'
  | ' ' => some ' '
  | '"' => some '"'
  | '\\' => some '\\'
  | '/' => some '/'
  | 'N' => some '\u0085'
  | '_' => some '\u00a0'
  | 'L' => some '\u2028'
  | 'P' => some '\u2029'
  | _ => none

/-- How many hexadecimal digits follow the letter of an escape. -/
def escapeWidth? : Char → Option Nat
  | 'x' => some 2
  | 'u' => some 4
  | 'U' => some 8
  | _ => none

/-- The character of a code point that an escape names.  Halves of surrogate pairs are no
characters; what becomes of them is left out here, and a replacement stands for them. -/
def codePoint (n : Nat) : Except ScanFault Char :=
  if 0x10FFFF < n then .error .noSuchCharacter
  else if 0xD800 ≤ n && n ≤ 0xDFFF then .ok '\ufffd'
  else .ok (Char.ofNat n)

/-- Reads line breaks and the spaces at the start of lines. -/
def breaks (fuel : Nat) (taken : List Char) (c : Cursor) :
    Except ScanFault (List Char × Cursor) :=
  match fuel with
  | 0 => .ok (taken.reverse, c)
  | fuel + 1 =>
    if c.atSeparator then .error .malformed
    else
      let c := c.skipWhile fun x => x = ' ' || x = '\t'
      if isBreak c.peek then breaks fuel (breakText c.peek :: taken) c.next
      else .ok (taken.reverse, c)

/-- Reads an escape from behind its backslash. -/
def escape (c : Cursor) : Except ScanFault (List Char × Cursor) :=
  match escape? c.peek with
  | some x => .ok ([x], c.next)
  | none => match escapeWidth? c.peek with
    | some width =>
      let ds := (c.next.rest.take width)
      if ds.length = width && ds.all fun d => (Text.hexValue? d).isSome then do
        let x ← codePoint ((Text.ofDigits? 16 ds).getD 0)
        return ([x], c.next.skip width)
      else .error .malformed
    | none =>
      if isBreak c.peek then breaks (c.rest.length + 1) [] c.next
      else .error .malformed

/-- Reads what is neither space nor line break; `taken` is the text so far, the last
character first. -/
def solid (double : Bool) (fuel : Nat) (taken : List Char) (c : Cursor) :
    Except ScanFault (List Char × Cursor) :=
  match fuel with
  | 0 => .ok (taken, c)
  | fuel + 1 =>
    let x := c.peek
    if isGap x then .ok (taken, c)
    else if double then
      if x = '"' then .ok (taken, c)
      else if x = '\\' then do
        let (text, c) ← escape c.next
        solid double fuel (text.reverse ++ taken) c
      else solid double fuel (x :: taken) c.next
    else if x = '\x27' then
      if c.peekAt 1 = '\x27' then solid double fuel ('\x27' :: taken) (c.skip 2)
      else .ok (taken, c)
    else solid double fuel (x :: taken) c.next

/-- Reads spaces and line breaks. -/
def gap (c : Cursor) : Except ScanFault (List Char × Cursor) := do
  let (spaces, c) := c.span fun x => x = ' ' || x = '\t'
  if c.peek = endChar then .error .malformed
  else if isBreak c.peek then
    let (others, after) ← breaks (c.rest.length + 1) [] c.next
    return (Plain.folded (breakText c.peek) others, after)
  else return (spaces, c)

/-- Reads up to the closing quote and behind it. -/
def upToQuote (double : Bool) (fuel : Nat) (taken : List Char) (c : Cursor) :
    Except ScanFault (List Char × Cursor) :=
  match fuel with
  | 0 => .error .malformed
  | fuel + 1 => do
    let (taken, c) ← solid double (c.rest.length + 1) taken c
    if c.peek = (if double then '"' else '\x27') then return (taken.reverse, c.next)
    else
      let (text, c) ← gap c
      upToQuote double fuel (text.reverse ++ taken) c

/-- Reads a quoted scalar from its opening quote on. -/
def read (double : Bool) (c : Cursor) : Except ScanFault (List Char × Cursor) :=
  upToQuote double (c.rest.length + 1) [] c.next

end Quoted
end Yaml
end ApiManual
