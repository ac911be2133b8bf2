import ApiManual.Asciidoc.Block
import Mathlib.Data.List.Chain

/-!
# Outlines

The headings of a document are its outline.  `Outlined level blocks` says that the outline
of some blocks fits below a heading of a level: all of their headings are deeper, none is
deeper than a heading can be, and none is more than one level deeper than the heading
before it, the first being compared with the heading above.

Such rows may follow each other, as what comes behind deeper headings starts no deeper
than what comes right below the heading above (`Outlined.append`).
-/

namespace ApiManual
namespace Asciidoc

/-- The level of a heading; the title of a document stands above all sections. -/
def Block.headingLevel? : Block → Option Nat
  | .documentTitle _ => some 0
  | .sectionTitle _ level => some level
  | _ => none

/-- The levels of the headings among some blocks. -/
def headingLevels (blocks : List Block) : List Nat := blocks.filterMap Block.headingLevel?

@[simp] theorem headingLevels_nil : headingLevels [] = [] := rfl

@[simp] theorem headingLevels_append (a b : List Block) :
    headingLevels (a ++ b) = headingLevels a ++ headingLevels b := List.filterMap_append

@[simp] theorem headingLevels_sectionTitle (title : String) (level : Nat) (rest : List Block) :
    headingLevels (.sectionTitle title level :: rest) = level :: headingLevels rest := rfl

/-- Each level is at most one deeper than the one before it. -/
def IsGradual (levels : List Nat) : Prop := levels.IsChain fun l l' => l' ≤ l + 1

/-- Blocks whose headings fit below a heading of a level. -/
structure Outlined (level : Nat) (blocks : List Block) : Prop where
  deeper : ∀ l ∈ headingLevels blocks, level < l ∧ l ≤ deepestLevel
  gradual : IsGradual (level :: headingLevels blocks)

namespace Outlined

variable {level : Nat} {a b blocks : List Block}

/-- Blocks without headings. -/
theorem of_eq_nil (h : headingLevels blocks = []) : Outlined level blocks := by
  refine ⟨?_, ?_⟩
  · rw [h]
    exact List.forall_mem_nil _
  · rw [h]
    exact List.isChain_singleton level

/-- **Rows that fit below a heading may follow each other there.** -/
theorem append (ha : Outlined level a) (hb : Outlined level b) : Outlined level (a ++ b) := by
  have gradual : IsGradual ((level :: headingLevels a) ++ headingLevels b) := by
    refine List.isChain_append.2 ⟨ha.gradual, hb.gradual.tail, fun l hl l' hl' => ?_⟩
    have here : l' ≤ level + 1 := (List.isChain_cons.1 hb.gradual).1 l' hl'
    have above : level ≤ l := by
      rcases List.mem_cons.1 (List.mem_of_getLast? hl) with rfl | mem
      · exact Nat.le_refl l
      · exact Nat.le_of_lt (ha.deeper l mem).1
    omega
  refine ⟨?_, ?_⟩
  · rw [headingLevels_append]
    exact List.forall_mem_append.2 ⟨ha.deeper, hb.deeper⟩
  · rw [headingLevels_append]
    exact gradual

/-- **A heading one level deeper with what fits below it.** -/
theorem section_cons (title : String) (h : Outlined (level + 1) blocks)
    (bound : level < deepestLevel) : Outlined level (.sectionTitle title (level + 1) :: blocks) where
  deeper := by
    rw [headingLevels_sectionTitle, List.forall_mem_cons]
    exact ⟨⟨Nat.lt_succ_self level, bound⟩, fun l mem =>
      ⟨Nat.lt_of_succ_lt (h.deeper l mem).1, (h.deeper l mem).2⟩⟩
  gradual := by
    rw [headingLevels_sectionTitle]
    exact List.isChain_cons_cons.2 ⟨Nat.le_refl _, h.gradual⟩

end Outlined
end Asciidoc
end ApiManual
