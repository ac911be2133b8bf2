import ApiManual.Asciidoc.Block
import ApiManual.Proofs.Asciidoc.Table
import Mathlib.Data.List.Infix

/-!
# The files that a document includes

Which files a document includes can be read off its text: they are named by its lines of
the form `include::<file>[]`, wherever these come from.  `inclusionTargets` reads them,
and knows nothing of blocks.

A line that starts with the mark `include::` is not always of this form, but a reader of the
text takes it for an attempt at one; `markedLines` are all such lines.

Blocks are written so that a text which they show cannot add to these lines, as long as
none of its own lines starts with the mark: the mark would have to be put together from
the end of one piece and the start of the next, and something that does not occur in it
always stands between two pieces.  Most texts are shown behind something on the same line,
and of these only the lines behind a line feed count (`IsInert`).  `Includes blocks files`
says that a row of blocks is written in whole lines and that the marked lines among these
are those which include `files`; such rows can be put one behind the other.
-/

namespace ApiManual
namespace Asciidoc

/-! ## Inclusion lines -/

/-- What an inclusion line starts with. -/
def inclusionMark : List Char := "include::".toList

/-- What an inclusion line ends with. -/
def inclusionEnd : List Char := "[]".toList

/-- The file that a line includes, if it is an inclusion line. -/
def inclusionTarget? (line : List Char) : Option String :=
  (inclusionMark.isPrefixOf? line).bind fun rest =>
    (inclusionEnd.isSuffixOf? rest).map String.ofList

/-- The files that a text includes, line by line. -/
def inclusionTargets (text : String) : List String :=
  (text.toList.splitOn '\n').filterMap inclusionTarget?

/-- The line that includes a file. -/
def inclusionLine (file : String) : List Char := inclusionMark ++ (file.toList ++ inclusionEnd)

/-- The lines of a text that start with the mark, whatever comes behind it. -/
def markedLines (text : String) : List (List Char) :=
  (text.toList.splitOn '\n').filter inclusionMark.isPrefixOf

theorem isPrefixOf?_append (xs ys : List Char) : xs.isPrefixOf? (xs ++ ys) = some ys := by
  induction xs with
  | nil => cases ys <;> rfl
  | cons x rest ih =>
    rw [List.cons_append, List.isPrefixOf?, if_pos (beq_self_eq_true x), ih]

theorem eq_append_of_isPrefixOf? {xs cs ys : List Char} (h : xs.isPrefixOf? cs = some ys) :
    cs = xs ++ ys := by
  induction xs generalizing cs with
  | nil =>
    cases cs <;> simpa [List.isPrefixOf?] using h
  | cons x rest ih =>
    cases cs with
    | nil => cases h
    | cons c cs =>
      rw [List.isPrefixOf?] at h
      split at h
      · rename_i same
        rw [ih h, eq_of_beq same, List.cons_append]
      · cases h

/-- The line of a file includes it. -/
theorem inclusionTarget?_line (file : String) :
    inclusionTarget? (inclusionLine file) = some file := by
  rw [inclusionLine, inclusionTarget?, isPrefixOf?_append, Option.bind_some, List.isSuffixOf?,
    List.reverse_append, isPrefixOf?_append]
  simp

/-- If the name of the file is one line, then so is this. -/
theorem newline_notMem_inclusionLine {file : String} (h : '\n' ∉ file.toList) :
    '\n' ∉ inclusionLine file := by
  rw [inclusionLine, List.mem_append, List.mem_append, not_or, not_or]
  exact ⟨by decide, h, by decide⟩

/-- A line without the mark at its front includes nothing. -/
theorem inclusionTarget?_eq_none {line : List Char} (h : ¬ inclusionMark <+: line) :
    inclusionTarget? line = none := by
  rw [inclusionTarget?]
  cases found : inclusionMark.isPrefixOf? line with
  | none => rfl
  | some rest => exact absurd ⟨rest, (eq_append_of_isPrefixOf? found).symm⟩ h

theorem mem_markedLines {text : String} {line : List Char} :
    line ∈ markedLines text ↔ line ∈ text.toList.splitOn '\n' ∧ inclusionMark <+: line := by
  rw [markedLines, List.mem_filter, List.isPrefixOf_iff_prefix]

theorem markedLines_eq_nil {text : String}
    (h : ∀ line ∈ text.toList.splitOn '\n', ¬ inclusionMark <+: line) : markedLines text = [] :=
  List.eq_nil_iff_forall_not_mem.2 fun line mem =>
    h line (mem_markedLines.1 mem).1 (mem_markedLines.1 mem).2

/-- Only marked lines include anything. -/
theorem inclusionTargets_eq (text : String) :
    inclusionTargets text = (markedLines text).filterMap inclusionTarget? := by
  rw [inclusionTargets, markedLines, List.filterMap_filter]
  refine List.filterMap_congr fun line _ => ?_
  split
  · rfl
  · rename_i unmarked
    exact inclusionTarget?_eq_none fun marked => unmarked (List.isPrefixOf_iff_prefix.2 marked)

/-- If the marked lines are those of some files, then these are the files that are included. -/
theorem inclusionTargets_of_markedLines {text : String} {files : List String}
    (h : markedLines text = files.map inclusionLine) : inclusionTargets text = files := by
  have back : (inclusionTarget? ∘ inclusionLine) = some := funext inclusionTarget?_line
  rw [inclusionTargets_eq, h, List.filterMap_map, back, List.filterMap_some]

/-! ## Texts without the mark -/

/-- A text that does not hold the mark of inclusion lines. -/
def IsUnmarked (cs : List Char) : Prop := ¬ inclusionMark <:+: cs

instance (cs : List Char) : Decidable (IsUnmarked cs) := inferInstanceAs (Decidable (¬ _))

/-- What stands in a text of two parts with a separator between them, and does not hold the
separator, stands in one of the parts. -/
theorem infix_append_cons {pattern xs ys : List Char} {c : Char} (hc : c ∉ pattern)
    (h : pattern <:+: xs ++ c :: ys) : pattern <:+: xs ∨ pattern <:+: ys := by
  rcases List.infix_append_iff.1 h with inFront | inBack | ⟨front, back, rfl, hf, hb⟩
  · exact .inl inFront
  · rcases List.infix_cons_iff.1 inBack with atStart | behind
    · cases pattern with
      | nil => exact .inr ⟨[], ys, rfl⟩
      | cons p rest =>
        obtain ⟨rfl, -⟩ := List.cons_prefix_cons.1 atStart
        exact absurd (List.mem_cons_self ..) hc
    · exact .inr behind
  · cases back with
    | nil =>
      rw [List.append_nil]
      exact .inl hf.isInfix
    | cons b rest =>
      obtain ⟨rfl, -⟩ := List.cons_prefix_cons.1 hb
      exact absurd (List.mem_append_right _ (List.mem_cons_self ..)) hc

/-- A text that can be shown behind something else on a line: none of its own lines but the first
one starts with the mark. -/
def IsInert (cs : List Char) : Prop := ¬ '\n' :: inclusionMark <:+: cs

instance (cs : List Char) : Decidable (IsInert cs) := inferInstanceAs (Decidable (¬ _))

namespace IsInert

/-- Inert texts, with something between them that stands neither in the mark nor in front of a
line. -/
theorem append_cons {xs ys : List Char} {c : Char} (hx : IsInert xs) (hy : IsInert ys)
    (hc : c ∉ '\n' :: inclusionMark) : IsInert (xs ++ c :: ys) := fun h =>
  (infix_append_cons hc h).elim hx hy

theorem cons {ys : List Char} {c : Char} (hy : IsInert ys) (hc : c ∉ '\n' :: inclusionMark) :
    IsInert (c :: ys) := (by decide : IsInert []).append_cons hy hc

/-- What is inert behind something is inert. -/
theorem of_cons {ys : List Char} {c : Char} (h : IsInert (c :: ys)) : IsInert ys := fun marked =>
  h (marked.trans (List.suffix_cons c ys).isInfix)

/-- Behind a line feed there has to be a text none of whose lines starts with the mark. -/
theorem append_line {xs ys : List Char} (hx : IsInert xs) (hy : IsInert ('\n' :: ys)) :
    IsInert (xs ++ '\n' :: ys) := by
  intro marked
  rcases List.infix_append_iff.1 marked with inFront | inBack | ⟨front, back, cut, hf, hb⟩
  · exact hx inFront
  · exact hy inBack
  · cases front with
    | nil =>
      rw [List.nil_append] at cut
      exact hy (cut ▸ hb.isInfix)
    | cons f rest =>
      -- The mark is on one line, so that none of it is left for the text in the back.
      cases back with
      | nil =>
        rw [List.append_nil] at cut
        exact hx (cut ▸ hf.isInfix)
      | cons b more =>
        obtain ⟨rfl, -⟩ := List.cons_prefix_cons.1 hb
        have inMark : '\n' ∈ inclusionMark := by
          rw [(List.cons.inj cut).2]
          exact List.mem_append_right _ (List.mem_cons_self ..)
        exact absurd inMark (by decide)

end IsInert

namespace IsUnmarked

theorem isInert {cs : List Char} (h : IsUnmarked cs) : IsInert cs := fun marked =>
  h ((List.suffix_cons '\n' inclusionMark).isInfix.trans marked)

/-- A text without the mark has no line that starts with it, not even the first one. -/
theorem isInert_cons {cs : List Char} (h : IsUnmarked cs) : IsInert ('\n' :: cs) := by
  intro marked
  rcases List.infix_cons_iff.1 marked with atStart | behind
  · exact h (List.cons_prefix_cons.1 atStart).2.isInfix
  · exact h.isInert behind

end IsUnmarked

/-! ## Lines of texts -/

/-- A text that is made up of whole lines. -/
def IsWholeLines (cs : List Char) : Prop := cs = [] ∨ ∃ front, cs = front ++ ['\n']

theorem IsWholeLines.append {xs ys : List Char} (hx : IsWholeLines xs) (hy : IsWholeLines ys) :
    IsWholeLines (xs ++ ys) := by
  rcases hy with rfl | ⟨front, rfl⟩
  · rwa [List.append_nil]
  · exact .inr ⟨xs ++ front, by rw [List.append_assoc]⟩

theorem infix_intercalate (sep : List Char) {lines : List (List Char)} {line : List Char}
    (h : line ∈ lines) : sep ++ line <:+: sep ++ sep.intercalate lines := by
  induction lines with
  | nil => cases h
  | cons l rest ih =>
    cases rest with
    | nil =>
      obtain rfl : line = l := by simpa using h
      rw [List.intercalate_singleton]
    | cons l' more =>
      rw [List.intercalate_cons_cons, List.append_assoc]
      rcases List.mem_cons.1 h with rfl | h
      · rw [← List.append_assoc]
        exact (List.prefix_append ..).isInfix
      · have behind : sep ++ sep.intercalate (l' :: more) <:+
            sep ++ (l ++ (sep ++ sep.intercalate (l' :: more))) :=
          (List.suffix_append l _).trans (List.suffix_append sep _)
        exact (ih h).trans behind.isInfix

/-- A line is a part of its text, and stands behind a line feed. -/
theorem infix_of_mem_splitOn {cs line : List Char} (h : line ∈ cs.splitOn '\n') :
    '\n' :: line <:+: '\n' :: cs := by
  have joined := infix_intercalate ['\n'] h
  rwa [List.intercalate_splitOn] at joined

/-- No line of an inert text behind a line feed starts with the mark. -/
theorem IsInert.not_marked {cs line : List Char} (h : IsInert ('\n' :: cs))
    (mem : line ∈ cs.splitOn '\n') : ¬ inclusionMark <+: line := fun marked =>
  h ((List.cons_prefix_cons.2 ⟨rfl, marked⟩).isInfix.trans (infix_of_mem_splitOn mem))

theorem IsInert.markedLines {text : String} (h : IsInert ('\n' :: text.toList)) :
    markedLines text = [] :=
  markedLines_eq_nil fun _ mem => h.not_marked mem

/-- Behind whole lines the lines of another text start afresh. -/
theorem markedLines_append {a : String} (h : IsWholeLines a.toList) (b : String) :
    markedLines (a ++ b) = markedLines a ++ markedLines b := by
  have blank : [[]].filter inclusionMark.isPrefixOf = [] := by decide
  unfold markedLines
  rw [String.toList_append]
  rcases h with empty | ⟨front, whole⟩
  · rw [empty, List.nil_append, List.splitOn_nil, blank, List.nil_append]
  · rw [whole, List.append_assoc, List.singleton_append, List.splitOn_append_cons_self,
      List.splitOn_append_cons_self, List.splitOn_nil, List.filter_append, List.filter_append,
      blank, List.append_nil]

/-! ## Blocks -/

/-- A row of blocks is written in whole lines, and those of them that start with the mark are the
lines which include some files. -/
structure Includes (blocks : List Block) (files : List String) : Prop where
  wholeLines : IsWholeLines (render blocks).toList
  lines : markedLines (render blocks) = files.map inclusionLine

namespace Includes

/-- The files are those that the text includes. -/
theorem targets {blocks : List Block} {files : List String} (h : Includes blocks files) :
    inclusionTargets (render blocks) = files := inclusionTargets_of_markedLines h.lines

theorem nil : Includes [] [] where
  wholeLines := .inl rfl
  lines := by decide

/-- **Rows of blocks one behind the other include what each of them includes.** -/
theorem append {a b : List Block} {files more : List String} (ha : Includes a files)
    (hb : Includes b more) : Includes (a ++ b) (files ++ more) where
  wholeLines := by
    rw [render_append, String.toList_append]
    exact ha.wholeLines.append hb.wholeLines
  lines := by
    rw [render_append, markedLines_append ha.wholeLines, ha.lines, hb.lines, List.map_append]

theorem cons {b : Block} {rest : List Block} {files more : List String} (hb : Includes [b] files)
    (h : Includes rest more) : Includes (b :: rest) (files ++ more) := hb.append h

/-- Rows that include nothing, one behind the other. -/
theorem append_nil {a b : List Block} (ha : Includes a []) (hb : Includes b []) :
    Includes (a ++ b) [] := ha.append hb

/-- A row for each item of a list. -/
theorem flatMap {α : Type} {f : α → List Block} {files : α → List String} (xs : List α)
    (h : ∀ x ∈ xs, Includes (f x) (files x)) : Includes (xs.flatMap f) (xs.flatMap files) := by
  induction xs with
  | nil => exact nil
  | cons x rest ih =>
    rw [List.flatMap_cons, List.flatMap_cons]
    exact (h x (List.mem_cons_self ..)).append (ih fun y hy => h y (List.mem_cons_of_mem x hy))

/-- One block for each item of a list, each of which includes nothing. -/
theorem map {α : Type} {f : α → Block} (xs : List α) (h : ∀ x ∈ xs, Includes [f x] []) :
    Includes (xs.map f) [] := by
  induction xs with
  | nil => exact nil
  | cons x rest ih =>
    exact cons (h x (List.mem_cons_self ..)) (ih fun y hy => h y (List.mem_cons_of_mem x hy))

/-- Whole lines none of which starts with the mark. -/
theorem of_isInert {blocks : List Block} (front : List Char)
    (written : (render blocks).toList = front ++ ['\n']) (h : IsInert ('\n' :: front)) :
    Includes blocks [] where
  wholeLines := .inr ⟨front, written⟩
  lines := by
    refine IsInert.markedLines ?_
    rw [written]
    exact h.append_line (by decide)

theorem newLine : Includes [.newLine] [] := of_isInert [] rfl (by decide)

theorem documentTitle {title : String} (h : IsInert title.toList) :
    Includes [.documentTitle title] [] := by
  have sign : IsInert ('\n' :: '=' :: ' ' :: title.toList) :=
    (by decide : IsInert ['\n', '=']).append_cons h (by decide)
  exact of_isInert ('=' :: ' ' :: title.toList ++ ['\n']) (by simp [Block.text])
    (sign.append_line (by decide))

/-- A paragraph stands at the front of a line. -/
theorem paragraph {text : String} (h : IsInert ('\n' :: text.toList)) :
    Includes [.paragraph text] [] :=
  of_isInert (text.toList ++ ['\n']) (by simp [Block.text]) (h.append_line (by decide))

theorem sectionTitle {title : String} (level : Nat) (h : IsInert title.toList) :
    Includes [.sectionTitle title level] [] := by
  have signs (n : Nat) : IsInert ('\n' :: List.replicate n '=') := by
    induction n with
    | zero => decide
    | succ n ih =>
      rw [List.replicate_succ', ← List.cons_append]
      exact ih.append_cons (by decide) (by decide)
  exact of_isInert
    ((List.replicate (level + 1) '=' ++ ' ' :: title.toList) ++ ['\n'])
    (by simp [Block.text]) (((signs (level + 1)).append_cons h (by decide)).append_line (by decide))

theorem blockTitle {title : String} (h : IsInert title.toList) :
    Includes [.blockTitle title] [] :=
  of_isInert ('.' :: title.toList) (by simp [Block.text])
    ((by decide : IsInert ['\n']).append_cons h (by decide))

/-- The colons behind the term are the only ones that a block writes itself. -/
theorem labeled {term value : String} (ht : IsInert ('\n' :: term.toList ++ [':', ':']))
    (hv : IsInert value.toList) : Includes [.labeled term value] [] :=
  of_isInert ((term.toList ++ [':', ':']) ++ ' ' :: value.toList)
    (by simp [Block.text]) (ht.append_cons hv (by decide))

theorem text_inclusion (file : String) : (render [Block.inclusion file]).toList =
    inclusionLine file ++ '\n' :: ['\n'] := by
  have ending : "[]\n\n".toList = inclusionEnd ++ '\n' :: ['\n'] := by simp [inclusionEnd]
  have text : render [Block.inclusion file] = "include::" ++ file ++ "[]\n\n" := by
    rw [render_cons, render_nil, String.append_empty, Block.text]
  rw [text, inclusionLine, String.toList_append, String.toList_append, ending, List.append_assoc,
    List.append_assoc, List.append_assoc]
  rfl

/-- The line of a file whose name is one line. -/
theorem inclusion {file : String} (h : '\n' ∉ file.toList) : Includes [.inclusion file] [file] where
  wholeLines := .inr ⟨_, (text_inclusion file).trans (List.append_cons ..)⟩
  lines := by
    have blank : (List.splitOn '\n' ['\n']).filter inclusionMark.isPrefixOf = [] := by decide
    have marked : inclusionMark.isPrefixOf (inclusionLine file) = true :=
      List.isPrefixOf_iff_prefix.2 (List.prefix_append ..)
    rw [markedLines, text_inclusion,
      List.splitOn_append_cons_self_of_not_mem (newline_notMem_inclusionLine h),
      List.filter_cons_of_pos marked, blank, List.map_singleton]

/-- A source block, in which no line starts with the mark. -/
theorem source {text : String} (language : String) (hl : IsInert language.toList)
    (h : ∀ line ∈ text.toList.splitOn '\n', ¬ inclusionMark <+: line) :
    Includes [.source text language] [] where
  wholeLines := .inr ⟨"[source,".toList ++ language.toList ++ "]\n----\n".toList ++ text.toList ++
    "\n----\n".toList, by simp [Block.text]⟩
  lines := by
    have written : (render [Block.source text language]).toList =
        ('[' :: "source".toList ++ ',' :: (language.toList ++ [']'])) ++ '\n' ::
          ("----".toList ++ '\n' :: (text.toList ++ '\n' :: "----\n\n".toList)) := by
      simp [Block.text]
    have above : IsInert ('\n' :: '[' :: "source".toList ++ ',' :: (language.toList ++ [']'])) :=
      IsInert.append_cons (by decide) (hl.append_cons (by decide) (by decide)) (by decide)
    refine markedLines_eq_nil fun line mem => ?_
    rw [written, List.splitOn_append_cons_self, List.splitOn_append_cons_self,
      List.splitOn_append_cons_self, List.mem_append, List.mem_append, List.mem_append] at mem
    rcases mem with mem | mem | mem | mem
    · exact above.not_marked mem
    · exact (by decide : IsInert ('\n' :: "----".toList)).not_marked mem
    · exact h line mem
    · exact (by decide : IsInert ('\n' :: "----\n\n".toList)).not_marked mem

/-! ### Tables -/

/-- No line of a table starts with the mark. -/
theorem not_prefix_of_mem_tableLines {header : List (List Char)} {rows : List (List (List Char))}
    {line : List Char} (h : line ∈ tableLines header rows) : ¬ inclusionMark <+: line := by
  have row (cells : List (List Char)) : ¬ inclusionMark <+: rowLine cells := by
    rcases cells with _ | ⟨c, _ | ⟨d, more⟩⟩
    · decide
    · intro marked
      exact absurd (List.cons_prefix_cons.1 marked).1 (by decide)
    · intro marked
      exact absurd (List.cons_prefix_cons.1 marked).1 (by decide)
  simp only [tableLines, List.mem_append, List.mem_cons, List.mem_map, List.not_mem_nil,
    or_false] at h
  rcases h with (rfl | rfl | rfl | ⟨cells, -, rfl⟩) | rfl
  · intro marked
    exact absurd (List.cons_prefix_cons.1 marked).1 (by decide)
  · decide
  · exact row header
  · exact row cells
  · decide

/-- A table, which is written line by line. -/
theorem table (header : List String) (rows : List (List String)) :
    Includes [.table header rows] [] := by
  have written : render [Block.table header rows] = tableText header rows := by
    rw [render_cons, render_nil, Block.text, String.append_empty]
  refine ⟨.inr ?ends, markedLines_eq_nil fun line mem => ?unmarked⟩
  case ends =>
    rw [written, toList_tableText]
    exact ⟨_, List.append_cons ..⟩
  case unmarked =>
    rw [written, splitOn_tableText, List.mem_append] at mem
    rcases mem with mem | mem
    · exact not_prefix_of_mem_tableLines mem
    · exact (by decide : ∀ line ∈ [[], []], ¬ inclusionMark <+: line) line mem

end Includes
end Asciidoc
end ApiManual
