/-!
# Tables

A table is a line that says how many columns there are, and then one line for the
header and one for each row, between two lines that mark its ends.  A cell starts
with a bar.  A bar inside a cell is escaped with a backslash and a line feed inside
a cell becomes a space, so that a row is always one line.
-/

namespace ApiManual
namespace Asciidoc

/-- One character of a cell. -/
def escapeCellChar (c : Char) : List Char :=
  if c = '|' then ['\\', '|'] else if c = '\n' then [' '] else [c]

/-- The text of a cell, made safe. -/
def escapeCell (cs : List Char) : List Char := cs.flatMap escapeCellChar

/-- A row of cells as one line. -/
def rowLine : List (List Char) → List Char
  | [] => []
  | [c] => '|' :: escapeCell c
  | c :: rest => '|' :: escapeCell c ++ ' ' :: rowLine rest

/-- The line before a table with `columns` columns, each as wide as the others. -/
def columnsLine (columns : Nat) : List Char :=
  "[cols=\"".toList ++ [','].intercalate (List.replicate columns ['1']) ++
    "\",options=\"header\"]".toList

/-- The line at both ends of a table. -/
def tableMark : List Char := "|===".toList

/-- The lines of a table. -/
def tableLines (header : List (List Char)) (rows : List (List (List Char))) : List (List Char) :=
  columnsLine header.length :: tableMark :: rowLine header :: rows.map rowLine ++ [tableMark]

/-- A table as text, with an empty line after it. -/
def tableText (header : List String) (rows : List (List String)) : String :=
  let cells (row : List String) := row.map String.toList
  String.ofList (['\n'].intercalate (tableLines (cells header) (rows.map cells)) ++ ['\n', '\n'])

@[simp] theorem escapeCell_nil : escapeCell [] = [] := rfl

@[simp] theorem escapeCell_cons (c : Char) (cs : List Char) :
    escapeCell (c :: cs) = escapeCellChar c ++ escapeCell cs := rfl

@[simp] theorem rowLine_singleton (c : List Char) : rowLine [c] = '|' :: escapeCell c := rfl

end Asciidoc
end ApiManual
