import ApiManual.Yaml.Cursor
import ApiManual.Text.Digit

/-!
# Block scalars

Text by its indentation.  The line on which it starts says whether line breaks are
kept or folded, what becomes of those at the end, and perhaps how deep the text is
indented; otherwise its first line says that.
-/

namespace ApiManual
namespace Yaml
namespace BlockScalar

/-- What becomes of the line breaks at the end. -/
inductive Chomping where
  /-- One stays. -/
  | clip
  /-- None stays. -/
  | strip
  /-- All stay. -/
  | keep
  deriving DecidableEq, Repr

/-- The first line of a block scalar. -/
structure Header where
  chomping : Chomping
  /-- How much deeper the text stands, if it says so. -/
  deeper : Option Nat

/-- The chomping that a sign stands for. -/
def chomping? (c : Char) : Option Chomping :=
  if c = '+' then some .keep else if c = '-' then some .strip else none

/-- Reads a digit that says how much deeper the text stands; zero says nothing. -/
def deeper? (c : Cursor) : Except ScanFault (Option Nat × Cursor) :=
  if Text.isAsciiDigit c.peek then
    if c.peek = '0' then .error .malformed else .ok (some (c.peek.toNat - 48), c.next)
  else .ok (none, c)

/-- Reads the sign and the digit of the header, in either order. -/
def header (c : Cursor) : Except ScanFault (Header × Cursor) := do
  let (h, c) ← match chomping? c.peek with
    | some chomping => do
      let (deeper, c) ← deeper? c.next
      pure ((⟨chomping, deeper⟩ : Header), c)
    | none => do
      let (deeper, c) ← deeper? c
      match deeper, chomping? c.peek with
      | some n, some chomping => pure (⟨chomping, some n⟩, c.next)
      | deeper, _ => pure (⟨.clip, deeper⟩, c)
  if isSpaceOrEnd c.peek then return (h, c) else .error .malformed

/-- Reads empty lines before the text, and finds the deepest column of their
spaces and of those before the first line of text. -/
def findIndent (fuel : Nat) (taken : List Char) (deepest : Nat) (c : Cursor) :
    List Char × Nat × Cursor :=
  match fuel with
  | 0 => (taken.reverse, deepest, c)
  | fuel + 1 =>
    if c.peek = ' ' then findIndent fuel taken (max deepest c.next.column) c.next
    else if isBreak c.peek then findIndent fuel (breakText c.peek :: taken) deepest c.next
    else (taken.reverse, deepest, c)

/-- Steps over at most as many spaces as lead to a column. -/
def toColumn (fuel column : Nat) (c : Cursor) : Cursor :=
  match fuel with
  | 0 => c
  | fuel + 1 =>
    if c.column < column && c.peek = ' ' then toColumn fuel column c.next else c

/-- Reads empty lines up to a line of the text. -/
def breaks (fuel indent : Nat) (taken : List Char) (c : Cursor) : List Char × Cursor :=
  match fuel with
  | 0 => (taken.reverse, c)
  | fuel + 1 =>
    let c := toColumn indent indent c
    if isBreak c.peek then breaks fuel indent (breakText c.peek :: taken) c.next
    else (taken.reverse, c)

/-- The text so far, the line break that ended its last line, and the breaks of the
empty lines after it. -/
structure Body where
  text : List Char
  lastBreak : List Char
  emptyLines : List Char
  after : Cursor

/-- Reads line after line. -/
def lines (fold : Bool) (indent : Nat) (fuel : Nat) (b : Body) : Body :=
  match fuel with
  | 0 => b
  | fuel + 1 =>
    let c := b.after
    if c.column = indent && c.peek ≠ endChar then
      let flush := c.peek ≠ ' ' && c.peek ≠ '\t'
      let (line, c) := c.span fun x => !isBreakOrEnd x
      let lastBreak := if isBreak c.peek then [breakText c.peek] else []
      let (empty, after) := breaks (c.rest.length + 1) indent [] c.next
      let text := b.text ++ b.emptyLines ++ line
      let joint :=
        if after.column = indent && after.peek ≠ endChar then
          if fold && lastBreak = ['\n'] && flush && after.peek ≠ ' ' && after.peek ≠ '\t' then
            if empty.isEmpty then [' '] else []
          else lastBreak
        else []
      lines fold indent fuel ⟨text ++ joint, lastBreak, empty, after⟩
    else b

/-- The text with its end as the header wants it. -/
def chomped (chomping : Chomping) (b : Body) : List Char :=
  match chomping with
  | .strip => b.text
  | .clip => b.text ++ b.lastBreak
  | .keep => b.text ++ b.lastBreak ++ b.emptyLines

/-- Reads a block scalar below a column, from its indicator on. -/
def read (fold : Bool) (indent : Int) (c : Cursor) :
    Except ScanFault (List Char × Cursor) := do
  let (h, c) ← header c.next
  let c ← c.restOfLine
  let least := (max (indent + 1) 1).toNat
  let (deep, empty, c) := match h.deeper with
    | some n =>
      let deep := least + n - 1
      let (empty, c) := breaks (c.rest.length + 1) deep [] c
      (deep, empty, c)
    | none =>
      let (empty, deepest, c) := findIndent (c.rest.length + 1) [] 0 c
      (max least deepest, empty, c)
  let b := lines fold deep (c.rest.length + 1) ⟨[], [], empty, c⟩
  return (chomped h.chomping b, b.after)

end BlockScalar
end Yaml
end ApiManual
