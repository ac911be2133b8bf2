import ApiManual.Proofs.Asciidoc.Inclusion

/-!
# Files in the place of inclusion lines

A reader of a document sees the files that it includes in the place of the lines that
include them.  `substitute` puts them there: it goes through a text line by line, and an
inclusion line gives way to the content of its file, together with the empty line behind
it.  `assembled` does so again and again, until nothing is left to be put in; a file that
includes itself, directly or not, has no such text at any depth.

Like the reading of inclusion lines this knows nothing of blocks.  What it does to rows
of blocks is said by two rules: a row that includes nothing stays as it is
(`Includes.substitute`), and the block of an inclusion becomes the content of its file
(`substitute_inclusion`).
-/

namespace ApiManual
namespace Asciidoc

/-- The text of some lines, with contents in the place of inclusion lines.  Right behind an
inclusion line an empty line is left out. -/
def substituteLines (content : String → Option String) :
    (behind : Bool) → List (List Char) → Option (List Char)
  | _, [] => some []
  | behind, line :: rest =>
    if behind && line.isEmpty then substituteLines content false rest
    else match inclusionTarget? line with
      | some file => do return (← content file).toList ++ (← substituteLines content true rest)
      | none =>
        if rest.isEmpty then some line
        else do return line ++ '\n' :: (← substituteLines content false rest)

/-- A text with the contents of the files that it includes. -/
def substitute (content : String → Option String) (text : String) : Option String :=
  (substituteLines content false (text.toList.splitOn '\n')).map String.ofList

/-- The text of a file with all that it includes, as long as the inclusions are not nested more
deeply than given. -/
def assembled (read : String → Option String) : (depth : Nat) → String → Option String
  | 0, _ => none
  | depth + 1, file => (read file).bind (substitute (assembled read depth))

variable {content : String → Option String}

example :
    let read file := [("a", "Up\n\ninclude::b[]\n\nDown\n"), ("b", "In\n\n")].lookup file
    assembled read 2 "a" = some "Up\n\nIn\n\nDown\n" ∧ assembled read 1 "a" = none := by
  decide +kernel

/-! ## Lines -/

theorem substituteLines_of_ne_nil {line : List Char} (h : inclusionTarget? line = none)
    {rest : List (List Char)} (more : rest ≠ []) :
    substituteLines content false (line :: rest) =
      (substituteLines content false rest).map fun text => line ++ '\n' :: text := by
  have behind : rest.isEmpty = false := by simpa using more
  rw [substituteLines, h]
  simp only [Bool.false_and, Bool.false_eq_true, if_false, behind]
  cases substituteLines content false rest <;> rfl

/-- Lines that include nothing stay as they are. -/
theorem substituteLines_append {lines more : List (List Char)}
    (h : ∀ line ∈ lines, inclusionTarget? line = none) (behind : more ≠ []) :
    substituteLines content false (lines ++ more) = (substituteLines content false more).map
      fun text => lines.flatMap (fun line => line ++ ['\n']) ++ text := by
  induction lines with
  | nil => simp
  | cons line rest ih =>
    rw [List.forall_mem_cons] at h
    have some : rest ++ more ≠ [] := List.append_ne_nil_of_right_ne_nil _ behind
    rw [List.cons_append, substituteLines_of_ne_nil h.1 some, ih h.2, Option.map_map]
    simp [Function.comp_def]

/-- The content of a file comes in the place of its line and of the empty line behind it. -/
theorem substituteLines_inclusion {line : List Char} {file : String}
    (h : inclusionTarget? line = some file) (rest : List (List Char)) :
    substituteLines content false (line :: [] :: rest) =
      (content file).bind fun text =>
        (substituteLines content false rest).map fun below => text.toList ++ below := by
  have skipped : substituteLines content true ([] :: rest) = substituteLines content false rest :=
    rfl
  rw [substituteLines, h]
  simp only [Bool.false_and, Bool.false_eq_true, if_false, skipped]
  cases content file with
  | none => rfl
  | some text => cases substituteLines content false rest <;> rfl

/-- Lines with a line feed behind each of them. -/
theorem flatMap_lines {lines : List (List Char)} (h : lines ≠ []) :
    lines.flatMap (fun line => line ++ ['\n']) = ['\n'].intercalate lines ++ ['\n'] := by
  induction lines with
  | nil => exact absurd rfl h
  | cons line rest ih =>
    cases rest with
    | nil => simp
    | cons next more => rw [List.flatMap_cons, ih (List.cons_ne_nil _ _)]; simp

/-! ## Texts -/

@[simp] theorem substitute_empty : substitute content "" = some "" := rfl

/-- Whole lines that include nothing stay as they are, whatever comes behind them. -/
theorem substitute_append {a : String} (whole : IsWholeLines a.toList)
    (none : inclusionTargets a = []) (b : String) :
    substitute content (a ++ b) = (substitute content b).map (a ++ ·) := by
  rcases whole with empty | ⟨front, whole⟩
  · obtain rfl : a = "" := String.toList_inj.1 empty
    simp
  · have lines : a.toList.splitOn '\n' = front.splitOn '\n' ++ [[]] := by
      rw [whole, List.splitOn_append_cons_self]
      rfl
    have quiet : ∀ line ∈ front.splitOn '\n', inclusionTarget? line = Option.none := by
      rw [inclusionTargets, List.filterMap_eq_nil_iff, lines] at none
      exact fun line mem => none line (List.mem_append_left _ mem)
    have kept : (front.splitOn '\n').flatMap (fun line => line ++ ['\n']) = a.toList := by
      rw [flatMap_lines (List.splitOn_ne_nil _ _), List.intercalate_splitOn, whole]
    rw [substitute, substitute, String.toList_append, whole, List.append_assoc,
      List.singleton_append, List.splitOn_append_cons_self,
      substituteLines_append quiet (List.splitOn_ne_nil _ _), kept, Option.map_map, Option.map_map]
    refine congrArg (Option.map · _) (funext fun text => ?_)
    simp [String.ofList_append]

/-! ## Blocks -/

/-- **A row of blocks that includes nothing stays as it is.** -/
theorem Includes.substitute {blocks : List Block} (h : Includes blocks []) (behind : List Block) :
    substitute content (render (blocks ++ behind)) =
      (Asciidoc.substitute content (render behind)).map (render blocks ++ ·) := by
  rw [render_append]
  exact substitute_append h.wholeLines h.targets (render behind)

/-- The text of such a row, without anything behind it. -/
theorem Includes.substitute_self {blocks : List Block} (h : Includes blocks []) :
    Asciidoc.substitute content (render blocks) = some (render blocks) := by
  rw [← List.append_nil blocks, h.substitute, render_nil, substitute_empty, Option.map_some,
    String.append_empty, List.append_nil]

/-- **The content of a file comes in the place of its inclusion.** -/
theorem substitute_inclusion {file : String} (h : '\n' ∉ file.toList) (behind : List Block) :
    substitute content (render (.inclusion file :: behind)) =
      (content file).bind fun text => (substitute content (render behind)).map (text ++ ·) := by
  have text : (render (.inclusion file :: behind)).toList =
      inclusionLine file ++ '\n' :: ([] ++ '\n' :: (render behind).toList) := by
    have alone := Includes.text_inclusion file
    rw [render_cons, render_nil, String.append_empty] at alone
    rw [render_cons, String.toList_append, alone]
    simp
  rw [substitute, text, List.splitOn_append_cons_self_of_not_mem (newline_notMem_inclusionLine h),
    List.splitOn_append_cons_self_of_not_mem List.not_mem_nil,
    substituteLines_inclusion (inclusionTarget?_line file)]
  cases content file with
  | none => rfl
  | some body =>
    rw [Option.bind_some, Option.bind_some, substitute, Option.map_map, Option.map_map]
    refine congrArg (Option.map · _) (funext fun below => ?_)
    simp [String.ofList_append]

end Asciidoc
end ApiManual
