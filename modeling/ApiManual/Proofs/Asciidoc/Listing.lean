import ApiManual.Asciidoc.Block
import Mathlib.Data.List.Basic

/-!
# The text of a source block

A source block stands between two lines of dashes.  A reader of the document takes for its text
what is between the first line that starts with the dashes and the next one (`listing`).  That is
the text that was put in, if no line of it starts with the dashes (`listing_source`).
-/

namespace ApiManual
namespace Asciidoc

/-- What the first and the last line of a source block start with. -/
def listingMark : List Char := ['-', '-', '-', '-']

/-- Whether a line starts or ends a source block. -/
def isMarked (line : List Char) : Bool := listingMark.isPrefixOf line

/-- The lines between the first two marked ones. -/
def listed (lines : List (List Char)) : List (List Char) :=
  ((lines.dropWhile fun line => !isMarked line).drop 1).takeWhile fun line => !isMarked line

/-- The text of the first source block of a document. -/
def listing (text : String) : String :=
  String.ofList (['\n'].intercalate (listed (text.toList.splitOn '\n')))

/-- The lines of a source block. -/
theorem splitOn_source {language : String} (hl : '\n' ∉ language.toList) (text : String) :
    (render [.source text language]).toList.splitOn '\n' =
      ("[source,".toList ++ language.toList ++ [']']) :: listingMark ::
        (text.toList.splitOn '\n' ++ [listingMark, [], []]) := by
  have written : (render [Block.source text language]).toList =
      ("[source,".toList ++ language.toList ++ [']']) ++ '\n' ::
        (listingMark ++ '\n' :: (text.toList ++ '\n' :: "----\n\n".toList)) := by
    simp [Block.text, listingMark]
  have above : '\n' ∉ "[source,".toList ++ language.toList ++ [']'] := by simpa using hl
  have behind : "----\n\n".toList.splitOn '\n' = [listingMark, [], []] := by decide
  rw [written, List.splitOn_append_cons_self_of_not_mem above,
    List.splitOn_append_cons_self_of_not_mem (by decide), List.splitOn_append_cons_self, behind]

/-- The lines between the marks are found again. -/
theorem listed_eq {above body below : List (List Char)} {opening closing : List Char}
    (ha : ∀ line ∈ above, isMarked line = false) (hb : ∀ line ∈ body, isMarked line = false)
    (ho : isMarked opening = true) (hc : isMarked closing = true) :
    listed (above ++ opening :: (body ++ closing :: below)) = body := by
  have before : ∀ line ∈ above, (!isMarked line) = true := fun line mem => by rw [ha line mem]; rfl
  have inside : ∀ line ∈ body, (!isMarked line) = true := fun line mem => by rw [hb line mem]; rfl
  rw [listed, List.dropWhile_append_of_pos before, List.dropWhile_cons_of_neg (by rw [ho]; decide),
    List.drop_one, List.tail_cons, List.takeWhile_append_of_pos inside,
    List.takeWhile_cons_of_neg (by rw [hc]; decide), List.append_nil]

/-- **The text of a source block is read back**, if no line of it starts with the mark. -/
theorem listing_source {text language : String} (hl : '\n' ∉ language.toList)
    (h : ∀ line ∈ text.toList.splitOn '\n', isMarked line = false) :
    listing (render [.source text language]) = text := by
  have marked : isMarked listingMark = true := by decide
  have above : ∀ line ∈ ["[source,".toList ++ language.toList ++ [']']], isMarked line = false :=
    List.forall_mem_singleton.2 rfl
  have found : listed ((render [.source text language]).toList.splitOn '\n') =
      text.toList.splitOn '\n' := by
    rw [splitOn_source hl]
    exact listed_eq above h marked marked
  rw [listing, found, List.intercalate_splitOn, String.ofList_toList]

end Asciidoc
end ApiManual
