import ApiManual.Asciidoc.Table
import Mathlib.Data.List.Basic

/-!
# Tables, line by line

A table is written line by line, and none of its lines holds a line feed, so its text falls
into these lines again (`splitOn_tableText`).  Each row is one of them.

A row can be read back.  A bar begins each cell, and a bar inside a cell stands behind a
backslash.  Backslashes are not escaped themselves, but between the end of a cell and the bar
of the next one there is a space, so a bar stands directly behind a backslash exactly if it
belongs to a cell (`splitBars_rowLine`), and then one backslash before it is the one that was
put there (`unescapeBars_escapeCell`).  What is read is the cells but for their line feeds,
which have become spaces.

A whole table is read row by row, as far as the line that marks its end
(`readTable?_tableText`).  With a single column a row could be such a line itself; with two
or more it has a space in it.
-/

namespace ApiManual
namespace Asciidoc

/-! ## Lines -/

theorem notMem_intercalate {c : Char} {sep : List Char} {lines : List (List Char)} (hs : c ∉ sep)
    (h : ∀ line ∈ lines, c ∉ line) : c ∉ sep.intercalate lines := by
  induction lines with
  | nil => simp
  | cons l rest ih =>
    have first := h l (List.mem_cons_self ..)
    have others := ih fun line mem => h line (List.mem_cons_of_mem l mem)
    cases rest with
    | nil => rwa [List.intercalate_singleton]
    | cons l' more =>
      rw [List.intercalate_cons_cons, List.mem_append, List.mem_append, not_or, not_or]
      exact ⟨⟨first, hs⟩, others⟩

theorem newline_notMem_escapeCell (cs : List Char) : '\n' ∉ escapeCell cs := by
  rw [escapeCell, List.mem_flatMap]
  rintro ⟨c, -, mem⟩
  unfold escapeCellChar at mem
  split at mem
  · revert mem
    decide
  · split at mem
    · revert mem
      decide
    · rename_i notFeed
      exact notFeed (List.mem_singleton.1 mem).symm

/-- A row of a table is one line. -/
theorem newline_notMem_rowLine (cells : List (List Char)) : '\n' ∉ rowLine cells := by
  induction cells with
  | nil => decide
  | cons c rest ih =>
    cases rest with
    | nil => simpa using newline_notMem_escapeCell c
    | cons d more =>
      rw [rowLine]
      · simpa using ⟨newline_notMem_escapeCell c, ih⟩
      · exact List.cons_ne_nil _ _

theorem newline_notMem_columnsLine (columns : Nat) : '\n' ∉ columnsLine columns := by
  have inside : '\n' ∉ [','].intercalate (List.replicate columns ['1']) := by
    refine notMem_intercalate (by decide) fun cell mem => ?_
    rw [List.eq_of_mem_replicate mem]
    decide
  unfold columnsLine
  rw [List.mem_append, List.mem_append, not_or, not_or]
  exact ⟨⟨by decide, inside⟩, by decide⟩

theorem newline_notMem_of_mem_tableLines {header : List (List Char)}
    {rows : List (List (List Char))} {line : List Char} (h : line ∈ tableLines header rows) :
    '\n' ∉ line := by
  simp only [tableLines, List.mem_append, List.mem_cons, List.mem_map, List.not_mem_nil,
    or_false] at h
  rcases h with (rfl | rfl | rfl | ⟨cells, -, rfl⟩) | rfl
  · exact newline_notMem_columnsLine _
  · decide
  · exact newline_notMem_rowLine header
  · exact newline_notMem_rowLine cells
  · decide

theorem toList_tableText (header : List String) (rows : List (List String)) :
    (tableText header rows).toList = ['\n'].intercalate
      (tableLines (header.map String.toList) (rows.map fun row => row.map String.toList)) ++
        '\n' :: ['\n'] := by
  rw [tableText, String.toList_ofList]

/-- **The text of a table falls into its lines**, with an empty one behind them. -/
theorem splitOn_tableText (header : List String) (rows : List (List String)) :
    (tableText header rows).toList.splitOn '\n' =
      tableLines (header.map String.toList) (rows.map fun row => row.map String.toList) ++
        [[], []] := by
  rw [toList_tableText, List.splitOn_append_cons_self,
    List.splitOn_intercalate '\n' (fun _ => newline_notMem_of_mem_tableLines)
      (List.cons_ne_nil _ _)]
  rfl

/-! ## A reader of tables -/

/-- A line, cut at every bar that does not stand directly behind a backslash; `escaped` says
whether the text before ends with one. -/
def splitBars (escaped : Bool) : List Char → List (List Char)
  | [] => [[]]
  | c :: cs =>
    if c = '|' ∧ escaped = false then [] :: splitBars false cs
    else (splitBars (c = '\\') cs).modifyHead (c :: ·)

/-- A text without one backslash before each of its bars. -/
def unescapeBars : List Char → List Char
  | [] => []
  | c :: cs => if c = '\\' ∧ cs.head? = some '|' then unescapeBars cs else c :: unescapeBars cs

/-- The cells of the pieces behind the first bar.  One space at the end of each piece separates
it from the next one and is no part of its cell. -/
def readPieces? : List (List Char) → Option (List (List Char))
  | [] => none
  | [last] => some [unescapeBars last]
  | piece :: rest =>
    if piece.getLast? = some ' ' then
      (readPieces? rest).map (unescapeBars piece.dropLast :: ·)
    else none

/-- The cells of a line; nothing may stand before its first bar. -/
def readRow? (line : List Char) : Option (List (List Char)) :=
  match splitBars false line with
  | [] :: pieces => readPieces? pieces
  | _ => none

/-- The rows of a table, its header first: the lines from the third one on, as far as the line
that marks the end of the table. -/
def readTable? (text : String) : Option (List (List (List Char))) :=
  (((text.toList.splitOn '\n').drop 2).takeWhile (· ≠ tableMark)).mapM readRow?

/-- A character of a cell that is shown on one line. -/
def unbrokenChar (c : Char) : Char := if c = '\n' then ' ' else c

/-- A cell with a space for every line feed. -/
def unbroken (cs : List Char) : List Char := cs.map unbrokenChar

/-! ## Cells -/

theorem unbrokenChar_ne_bar {c : Char} (other : c ≠ '|') : unbrokenChar c ≠ '|' := by
  unfold unbrokenChar
  split
  · decide
  · exact other

theorem escapeCell_bar (cs : List Char) :
    escapeCell ('|' :: cs) = '\\' :: '|' :: escapeCell cs := rfl

theorem escapeCell_of_ne {c : Char} (other : c ≠ '|') (cs : List Char) :
    escapeCell (c :: cs) = unbrokenChar c :: escapeCell cs := by
  rw [escapeCell_cons, escapeCellChar, if_neg other, unbrokenChar]
  split <;> rfl

/-- The text of a cell does not begin with a bar, but with the backslash before it. -/
theorem head?_escapeCell (cs : List Char) : (escapeCell cs).head? ≠ some '|' := by
  cases cs with
  | nil => simp
  | cons c cs =>
    by_cases bar : c = '|'
    · rw [bar, escapeCell_bar]
      simp
    · rw [escapeCell_of_ne bar, List.head?_cons, Ne, Option.some.injEq]
      exact unbrokenChar_ne_bar bar

/-- **One backslash before each bar is the one that was put there.** -/
theorem unescapeBars_escapeCell (cs : List Char) : unescapeBars (escapeCell cs) = unbroken cs := by
  induction cs with
  | nil => rfl
  | cons c cs ih =>
    by_cases bar : c = '|'
    · have kept : ¬ ('|' = '\\' ∧ (escapeCell cs).head? = some '|') := fun h =>
        absurd h.1 (by decide)
      rw [bar, escapeCell_bar, unescapeBars, if_pos ⟨rfl, rfl⟩, unescapeBars, if_neg kept, ih]
      rfl
    · have kept : ¬ (unbrokenChar c = '\\' ∧ (escapeCell cs).head? = some '|') := fun h =>
        head?_escapeCell cs h.2
      rw [escapeCell_of_ne bar, unescapeBars, if_neg kept, ih]
      rfl

theorem splitBars_of_ne {c : Char} (other : c ≠ '|') (escaped : Bool) (cs : List Char) :
    splitBars escaped (c :: cs) = (splitBars (c = '\\') cs).modifyHead (c :: ·) := by
  rw [splitBars, if_neg fun h => other h.1]

theorem splitBars_escapedBar (escaped : Bool) (cs : List Char) :
    splitBars escaped ('\\' :: '|' :: cs) =
      (splitBars false cs).modifyHead fun piece => '\\' :: '|' :: piece := by
  rw [splitBars_of_ne (by decide), splitBars, if_neg fun h => Bool.noConfusion h.2,
    List.modifyHead_modifyHead]
  rfl

/-- The text of a cell is not cut, and what stands behind it is cut as it would be behind a
backslash, or as it would be behind something else. -/
theorem exists_splitBars_escapeCell (escaped : Bool) (cs rest : List Char) :
    ∃ behind, splitBars escaped (escapeCell cs ++ rest) =
      (splitBars behind rest).modifyHead (escapeCell cs ++ ·) := by
  induction cs generalizing escaped with
  | nil => exact ⟨escaped, (congrFun List.modifyHead_id _).symm⟩
  | cons c cs ih =>
    by_cases bar : c = '|'
    · obtain ⟨behind, tail⟩ := ih false
      refine ⟨behind, ?_⟩
      rw [bar, escapeCell_bar, List.cons_append, List.cons_append, splitBars_escapedBar, tail,
        List.modifyHead_modifyHead]
      rfl
    · obtain ⟨behind, tail⟩ := ih (unbrokenChar c = '\\')
      refine ⟨behind, ?_⟩
      rw [escapeCell_of_ne bar, List.cons_append, splitBars_of_ne (unbrokenChar_ne_bar bar), tail,
        List.modifyHead_modifyHead]
      rfl

/-! ## Rows -/

/-- The pieces into which the line of a row falls behind its first bar. -/
def rowPieces : List (List Char) → List (List Char)
  | [] => []
  | [last] => [escapeCell last]
  | cell :: rest => (escapeCell cell ++ [' ']) :: rowPieces rest

theorem splitBars_bar (cs : List Char) :
    splitBars false ('|' :: cs) = [] :: splitBars false cs := by
  rw [splitBars, if_pos ⟨rfl, rfl⟩]

/-- **The line of a row is cut before each of its cells and nowhere else.** -/
theorem splitBars_rowLine {cells : List (List Char)} (filled : cells ≠ []) :
    splitBars false (rowLine cells) = [] :: rowPieces cells := by
  induction cells with
  | nil => exact absurd rfl filled
  | cons cell rest ih =>
    cases rest with
    | nil =>
      obtain ⟨behind, cut⟩ := exists_splitBars_escapeCell false cell []
      rw [List.append_nil] at cut
      rw [rowLine_singleton, splitBars_bar, cut, splitBars, List.modifyHead_cons, List.append_nil]
      rfl
    | cons next more =>
      obtain ⟨behind, cut⟩ :=
        exists_splitBars_escapeCell false cell (' ' :: rowLine (next :: more))
      have line : rowLine (cell :: next :: more) =
        '|' :: (escapeCell cell ++ ' ' :: rowLine (next :: more)) := rfl
      rw [line, splitBars_bar, cut, splitBars_of_ne (by decide),
        show (decide (' ' = '\\')) = false from rfl, ih (List.cons_ne_nil next more)]
      rfl

theorem rowPieces_ne_nil {cells : List (List Char)} (filled : cells ≠ []) :
    rowPieces cells ≠ [] := by
  obtain ⟨cell, rest, rfl⟩ := List.exists_cons_of_ne_nil filled
  cases rest <;> exact List.cons_ne_nil _ _

theorem readPieces?_cons {pieces : List (List Char)} (filled : pieces ≠ []) (cs : List Char) :
    readPieces? ((cs ++ [' ']) :: pieces) = (readPieces? pieces).map (unescapeBars cs :: ·) := by
  rw [readPieces?, if_pos List.getLast?_concat, List.dropLast_concat]
  exact filled

/-- The pieces of a row are read as its cells. -/
theorem readPieces?_rowPieces {cells : List (List Char)} (filled : cells ≠ []) :
    readPieces? (rowPieces cells) = some (cells.map unbroken) := by
  induction cells with
  | nil => exact absurd rfl filled
  | cons cell rest ih =>
    cases rest with
    | nil =>
      rw [rowPieces, readPieces?, unescapeBars_escapeCell]
      rfl
    | cons next more =>
      have pieces : rowPieces (cell :: next :: more) =
        (escapeCell cell ++ [' ']) :: rowPieces (next :: more) := rfl
      rw [pieces, readPieces?_cons (rowPieces_ne_nil (List.cons_ne_nil next more)),
        ih (List.cons_ne_nil next more), unescapeBars_escapeCell]
      rfl

/-- **A row can be read back**, but for the line feeds in its cells. -/
theorem readRow?_rowLine {cells : List (List Char)} (filled : cells ≠ []) :
    readRow? (rowLine cells) = some (cells.map unbroken) := by
  rw [readRow?, splitBars_rowLine filled]
  exact readPieces?_rowPieces filled

theorem length_rowPieces (cells : List (List Char)) : (rowPieces cells).length = cells.length := by
  induction cells with
  | nil => rfl
  | cons cell rest ih =>
    cases rest with
    | nil => rfl
    | cons next more => exact congrArg (· + 1) ih

/-- A row of at least two cells does not mark the end of a table: it has a space in it. -/
theorem rowLine_ne_tableMark {cells : List (List Char)} (several : 2 ≤ cells.length) :
    rowLine cells ≠ tableMark := by
  obtain ⟨cell, next, more, rfl⟩ : ∃ cell next more, cells = cell :: next :: more := by
    rcases cells with _ | ⟨cell, _ | ⟨next, more⟩⟩
    · cases several
    · exact absurd several (Nat.lt_irrefl 1)
    · exact ⟨cell, next, more, rfl⟩
  have space : ' ' ∈ rowLine (cell :: next :: more) :=
    List.mem_cons_of_mem _ (List.mem_append_right _ List.mem_cons_self)
  exact fun mark => absurd (mark ▸ space) (by decide)

/-! ## Tables -/

/-- The rows of a table with their cells as they are shown. -/
def shownCells (rows : List (List String)) : List (List (List Char)) :=
  rows.map fun row => (row.map String.toList).map unbroken

/-- Rows are read one by one, as far as the mark. -/
theorem mapM_readRow? {rows : List (List (List Char))} (several : ∀ row ∈ rows, 2 ≤ row.length)
    (behind : List (List Char)) :
    ((rows.map rowLine ++ tableMark :: behind).takeWhile (· ≠ tableMark)).mapM readRow? =
      some (rows.map fun row => row.map unbroken) := by
  induction rows with
  | nil =>
    rw [List.map_nil, List.nil_append, List.takeWhile_cons_of_neg (by simp)]
    rfl
  | cons row rest ih =>
    have here := several row List.mem_cons_self
    have filled : row ≠ [] := List.ne_nil_of_length_pos (by omega)
    have unlike : (decide (rowLine row ≠ tableMark)) = true :=
      decide_eq_true (rowLine_ne_tableMark here)
    rw [List.map_cons, List.cons_append, List.takeWhile_cons, unlike, if_pos rfl, List.mapM_cons,
      readRow?_rowLine filled, ih fun row mem => several row (List.mem_cons_of_mem _ mem)]
    rfl

theorem readTable?_tableText {header : List String} {rows : List (List String)}
    (several : ∀ row ∈ header :: rows, 2 ≤ row.length) :
    readTable? (tableText header rows) = some (shownCells (header :: rows)) := by
  have lines : (tableLines (header.map String.toList)
      (rows.map fun row : List String => row.map String.toList) ++ [[], []]).drop 2 =
        ((header :: rows).map (List.map String.toList)).map rowLine ++ tableMark :: [[], []] := by
    simp [tableLines]
  rw [readTable?, splitOn_tableText, lines, mapM_readRow?]
  · rw [shownCells, List.map_map]
    rfl
  · rw [List.forall_mem_map]
    exact fun row mem => (List.length_map String.toList).symm ▸ several row mem

/-- **Tables can be read back.**  Of a table with at least two columns and rows as long as its
header, the text falls into the line on the columns, the mark, one line for the header and one
for each row, and the mark again, and ends with an empty line.  The line of the header or of a
row is never the mark; cut at the bars that are not behind a backslash it has an empty piece and
then one for each cell, from which the cell can be read but for its line feeds.  So all cells can
be read from the table, and two tables of the same text show the same cells. -/
theorem table_reads_back {header : List String} {rows : List (List String)}
    (several : 2 ≤ header.length) (even : ∀ row ∈ rows, row.length = header.length) :
    (tableText header rows).toList.splitOn '\n' =
        columnsLine header.length :: tableMark ::
          ((header :: rows).map fun row => rowLine (row.map String.toList)) ++
            [tableMark, [], []] ∧
      (∀ row ∈ header :: rows, rowLine (row.map String.toList) ≠ tableMark ∧
        ∃ pieces, splitBars false (rowLine (row.map String.toList)) = [] :: pieces ∧
          pieces.length = row.length ∧
          readPieces? pieces = some ((row.map String.toList).map unbroken)) ∧
      readTable? (tableText header rows) = some (shownCells (header :: rows)) ∧
      ∀ (header' : List String) (rows' : List (List String)), 2 ≤ header'.length →
        (∀ row ∈ rows', row.length = header'.length) →
        tableText header' rows' = tableText header rows →
        shownCells (header' :: rows') = shownCells (header :: rows) := by
  have wide {header : List String} {rows : List (List String)} (several : 2 ≤ header.length)
      (even : ∀ row ∈ rows, row.length = header.length) :
      ∀ row ∈ header :: rows, 2 ≤ row.length :=
    List.forall_mem_cons.2 ⟨several, fun row mem => (even row mem).symm ▸ several⟩
  refine ⟨?lines, fun row mem => ⟨?mark, ?pieces⟩, readTable?_tableText (wide several even),
    fun header' rows' several' even' same => ?cells⟩
  case lines =>
    rw [splitOn_tableText]
    simp [tableLines]
  case mark => exact rowLine_ne_tableMark ((List.length_map _).symm ▸ wide several even row mem)
  case pieces =>
    have filled : row.map String.toList ≠ [] := by
      rw [Ne, List.map_eq_nil_iff]
      exact List.ne_nil_of_length_pos (Nat.lt_of_lt_of_le Nat.two_pos (wide several even row mem))
    exact ⟨_, splitBars_rowLine filled, (length_rowPieces _).trans (List.length_map _),
      readPieces?_rowPieces filled⟩
  case cells =>
    have read := readTable?_tableText (wide several' even')
    rw [same, readTable?_tableText (wide several even)] at read
    exact (Option.some.inj read).symm

/-- A backslash at the end of a cell, a bar, and a line feed, of which only the last is lost. -/
theorem table_of_errors_reads_back :
    readTable? (tableText ["Code", "Text"] [["1\\", "a|b\nc"]]) =
        some (shownCells [["Code", "Text"], ["1\\", "a|b\nc"]]) ∧
      tableText ["Code", "Text"] [["1\\", "a|b c"]] =
        tableText ["Code", "Text"] [["1\\", "a|b\nc"]] ∧
      shownCells [["Code", "Text"], ["1\\", "a|b c"]] =
        shownCells [["Code", "Text"], ["1\\", "a|b\nc"]] := by
  have even : ∀ row ∈ [["1\\", "a|b\nc"]], row.length = ["Code", "Text"].length := by decide
  have even' : ∀ row ∈ [["1\\", "a|b c"]], row.length = ["Code", "Text"].length := by decide
  have same : tableText ["Code", "Text"] [["1\\", "a|b c"]] =
      tableText ["Code", "Text"] [["1\\", "a|b\nc"]] := by decide
  obtain ⟨-, -, read, cells⟩ := table_reads_back (by decide) even
  exact ⟨read, same, cells _ _ (by decide) even' same⟩

end Asciidoc
end ApiManual
