import ApiManual.Namespace
import Mathlib.Data.List.DropRight

/-!
# The form of namespaces

Bringing a part into its normal form is three passes over its characters and a trim,
and what comes out can be said without them: it consists of allowed characters, and it
is *tight*, that is, a single underscore or a text with no underscore at either end.
On texts of this form nothing happens (`normalizePart_eq_self`), so a part can be
brought into its normal form twice.

A namespace is brought into its normal form once more before a segment is put behind
it.  Its characters are allowed already, but it need not be tight, as its first or its
last part may be a single underscore: the document below `api-paths-_` is
`api-paths--resource`.  `words` undoes this.  It cuts a namespace at its dashes and
takes an empty word for an underscore, and then a namespace below another one has the
words of that one and its own (`words_normalizePart_joinParts`).
-/

namespace ApiManual
namespace Namespace

/-! ## Allowed characters -/

theorem toNat_lt_of_isAllowed {c : Char} (h : isAllowed c = true) : c.toNat < 128 := by
  have le_of {a b : Char} (h : a ≤ b) : a.toNat ≤ b.toNat := h
  simp only [isAllowed, Bool.or_eq_true, Bool.and_eq_true, decide_eq_true_eq] at h
  rcases h with (((⟨-, h⟩ | ⟨-, h⟩) | rfl) | rfl) | rfl
  · exact Nat.lt_of_le_of_lt (le_of h) (by decide)
  · exact Nat.lt_of_le_of_lt (le_of h) (by decide)
  · decide
  · decide
  · decide

/-- The allowed characters are in lower case, and none of them is white space. -/
theorem lower_eq_self_of_isAllowed {c : Char} (h : isAllowed c = true) :
    lower c = [c] ∧ Text.isBlank c = false := by
  have table : ∀ n < 128, isAllowed (Char.ofNat n) = true →
      lower (Char.ofNat n) = [Char.ofNat n] ∧ Text.isBlank (Char.ofNat n) = false := by
    decide +kernel
  have at_c := table c.toNat (toNat_lt_of_isAllowed h)
  rw [Char.ofNat_toNat] at at_c
  exact at_c h

theorem isAllowed_of_mem_squeeze {inRun : Bool} {cs : List Char} {c : Char}
    (h : c ∈ squeeze inRun cs) : isAllowed c = true := by
  fun_induction squeeze inRun cs with
  | case1 => cases h
  | case2 inRun x rest allowed ih =>
    rcases List.mem_cons.1 h with rfl | h
    · exact allowed
    · exact ih h
  | case3 x rest _ ih => exact ih h
  | case4 inRun x rest _ _ ih =>
    rcases List.mem_cons.1 h with rfl | h
    · decide
    · exact ih h

/-- Only underscores are new. -/
theorem mem_of_mem_squeeze {inRun : Bool} {cs : List Char} {c : Char} (h : c ∈ squeeze inRun cs)
    (other : c ≠ '_') : c ∈ cs := by
  fun_induction squeeze inRun cs with
  | case1 => exact h
  | case2 inRun x rest _ ih =>
    rcases List.mem_cons.1 h with rfl | h
    · exact List.mem_cons_self
    · exact List.mem_cons_of_mem x (ih h)
  | case3 x rest _ ih => exact List.mem_cons_of_mem x (ih h)
  | case4 inRun x rest _ _ ih =>
    rcases List.mem_cons.1 h with rfl | h
    · exact absurd rfl other
    · exact List.mem_cons_of_mem x (ih h)

theorem squeeze_eq_self {cs : List Char} (h : ∀ c ∈ cs, isAllowed c = true) (inRun : Bool) :
    squeeze inRun cs = cs := by
  induction cs generalizing inRun with
  | nil => rfl
  | cons c rest ih =>
    rw [squeeze, if_pos (h c (List.mem_cons_self ..)),
      ih (fun x hx => h x (List.mem_cons_of_mem c hx))]

theorem mem_of_mem_trim {drop : Char → Bool} {cs : List Char} {c : Char}
    (h : c ∈ Text.trim drop cs) : c ∈ cs := by
  have h' : c ∈ (cs.dropWhile drop).rdropWhile drop := h
  exact (List.dropWhile_suffix drop).subset ((List.rdropWhile_prefix drop _).subset h')

/-- **Only allowed characters remain of a part.** -/
theorem isAllowed_of_mem_normalizePart {cs : List Char} {c : Char} (h : c ∈ normalizePart cs) :
    isAllowed c = true := by
  unfold normalizePart orUnderscore at h
  split at h
  · obtain rfl : c = '_' := by simpa using h
    decide
  · exact isAllowed_of_mem_squeeze (mem_of_mem_trim h)

/-! ## Dashes -/

theorem eq_dash_of_mem_lower {c : Char} (h : '-' ∈ lower c) : c = '-' := by
  unfold lower at h
  split at h
  · rename_i capital
    have table : ∀ n, 65 ≤ n → n ≤ 90 → '-' ≠ Char.ofNat (n + 32) := by decide +kernel
    have bounds : 65 ≤ c.toNat ∧ c.toNat ≤ 90 := by
      simp only [Bool.and_eq_true, decide_eq_true_eq] at capital
      exact capital
    exact absurd (List.mem_singleton.1 h) (table c.toNat bounds.1 bounds.2)
  · split at h
    · simp at h
    · split at h
      · simp at h
      · exact (List.mem_singleton.1 h).symm

/-- **The normal form of a part has no dash that the part had not.** -/
theorem dash_mem_of_mem_normalizePart {cs : List Char} (h : '-' ∈ normalizePart cs) :
    '-' ∈ cs := by
  unfold normalizePart orUnderscore at h
  split at h
  · simp at h
  · have lowered := List.mem_of_mem_filter (mem_of_mem_squeeze (mem_of_mem_trim h) (by decide))
    obtain ⟨c, hc, mem⟩ := List.mem_flatMap.1 lowered
    rwa [← eq_dash_of_mem_lower mem]

/-! ## Tight texts -/

/-- A single underscore, or a text with no underscore at either end. -/
def IsTight (cs : List Char) : Prop :=
  cs = ['_'] ∨ (cs ≠ [] ∧ cs.head? ≠ some '_' ∧ cs.getLast? ≠ some '_')

/-- Nothing is trimmed from the beginning of a text that does not start with an underscore. -/
theorem dropWhile_eq_self {cs : List Char} (h : cs.head? ≠ some '_') :
    cs.dropWhile (· = '_') = cs := by
  cases cs with
  | nil => rfl
  | cons c rest =>
    have hc : ¬ (decide (c = '_') = true) := by simpa using h
    rw [List.dropWhile_cons, if_neg hc]

/-- Nothing is trimmed from the end of a text that does not end with an underscore. -/
theorem rdropWhile_eq_self {cs : List Char} (h : cs.getLast? ≠ some '_') :
    cs.rdropWhile (· = '_') = cs := by
  rw [List.rdropWhile_eq_self_iff]
  intro hne hlast
  rw [List.getLast?_eq_some_getLast hne] at h
  exact h (congrArg some (by simpa using hlast))

theorem trim_eq_rdropWhile (cs : List Char) :
    Text.trim (· = '_') cs = (cs.dropWhile (· = '_')).rdropWhile (· = '_') := rfl

/-- **The normal form of a part is tight.** -/
theorem isTight_normalizePart (cs : List Char) : IsTight (normalizePart cs) := by
  unfold normalizePart
  generalize squeeze false ((cs.flatMap lower).filter fun c => !Text.isBlank c) = squeezed
  rw [trim_eq_rdropWhile]
  generalize hd : squeezed.dropWhile (· = '_') = dropped
  generalize ht : dropped.rdropWhile (· = '_') = trimmed
  unfold orUnderscore
  by_cases empty : trimmed = []
  · left
    rw [empty]
    rfl
  · right
    have shown : trimmed.isEmpty = false := by simpa using empty
    rw [shown, if_neg Bool.false_ne_true]
    refine ⟨empty, fun first => ?_, fun last => ?_⟩
    · have starts : trimmed <+: dropped := ht ▸ List.rdropWhile_prefix _ _
      have : dropped.head? = some '_' := by
        obtain ⟨rest, rfl⟩ := starts
        rw [List.head?_append, first]
        rfl
      rw [← hd] at this
      have kept := List.head?_dropWhile_not (fun c : Char => decide (c = '_')) squeezed
      rw [this] at kept
      simp at kept
    · have kept := List.rdropWhile_last_not (fun c : Char => decide (c = '_')) dropped
        (by rw [ht]; exact empty)
      simp only [ht] at kept
      rw [List.getLast?_eq_some_getLast empty, Option.some.injEq] at last
      simp [last] at kept

/-- Of a text of allowed characters only underscores at its ends are lost. -/
theorem normalizePart_of_isAllowed {cs : List Char} (allowed : ∀ c ∈ cs, isAllowed c = true) :
    normalizePart cs = orUnderscore (Text.trim (· = '_') cs) := by
  have lowered : cs.flatMap lower = cs := by
    induction cs with
    | nil => rfl
    | cons c rest ih =>
      rw [List.flatMap_cons, ih fun x hx => allowed x (List.mem_cons_of_mem c hx),
        (lower_eq_self_of_isAllowed (allowed c (List.mem_cons_self ..))).1]
      rfl
  have kept : cs.filter (fun c => !Text.isBlank c) = cs := by
    refine List.filter_eq_self.2 fun c hc => ?_
    rw [(lower_eq_self_of_isAllowed (allowed c hc)).2]
    rfl
  rw [normalizePart, lowered, kept, squeeze_eq_self allowed]

theorem orUnderscore_eq_self {cs : List Char} (h : cs ≠ []) : orUnderscore cs = cs := by
  have shown : cs.isEmpty = false := by simpa using h
  rw [orUnderscore, shown, if_neg Bool.false_ne_true]

/-- **Tight texts of allowed characters are their own normal form.** -/
theorem normalizePart_eq_self {cs : List Char} (allowed : ∀ c ∈ cs, isAllowed c = true)
    (tight : IsTight cs) : normalizePart cs = cs := by
  rcases tight with rfl | ⟨hne, first, last⟩
  · decide
  · rw [normalizePart_of_isAllowed allowed, trim_eq_rdropWhile, dropWhile_eq_self first,
      rdropWhile_eq_self last, orUnderscore_eq_self hne]

/-- A part that is brought into its normal form twice has it the first time. -/
theorem normalizePart_normalizePart (cs : List Char) :
    normalizePart (normalizePart cs) = normalizePart cs :=
  normalizePart_eq_self (fun _ => isAllowed_of_mem_normalizePart) (isTight_normalizePart cs)

/-! ## Namespaces of several parts -/

@[simp] theorem toList_child_none (segment : String) :
    (child none segment).toList = normalizePart segment.toList := by
  simp [child, normalize]

@[simp] theorem toList_child_some (parent segment : String) :
    (child (some parent) segment).toList =
      normalizePart parent.toList ++ '-' :: normalizePart segment.toList := by
  simp [child, normalize]

/-- The parts of a row of parts are joined like its halves. -/
theorem joinParts_append {ps qs : List (List Char)} (hp : ps ≠ []) (hq : qs ≠ []) :
    joinParts (ps ++ qs) = joinParts ps ++ '-' :: joinParts qs := by
  induction ps with
  | nil => exact absurd rfl hp
  | cons p rest ih =>
    cases rest with
    | nil =>
      obtain ⟨q, more, rfl⟩ := List.exists_cons_of_ne_nil hq
      rfl
    | cons r more =>
      have tail := ih (List.cons_ne_nil r more)
      rw [List.cons_append, List.cons_append, joinParts_cons_cons, ← List.cons_append, tail,
        joinParts_cons_cons, List.append_assoc, List.cons_append]

/-- **Namespaces consist of allowed characters.** -/
theorem isAllowed_of_mem_joinParts {ps : List (List Char)} {c : Char} (h : c ∈ joinParts ps) :
    isAllowed c = true := by
  induction ps with
  | nil => cases h
  | cons p rest ih =>
    cases rest with
    | nil => exact isAllowed_of_mem_normalizePart h
    | cons q more =>
      rw [joinParts_cons_cons, List.mem_append, List.mem_cons] at h
      rcases h with h | rfl | h
      · exact isAllowed_of_mem_normalizePart h
      · decide
      · exact ih h

theorem isAllowed_of_mem_child {parent : Option String} {segment : String} {c : Char}
    (h : c ∈ (child parent segment).toList) : isAllowed c = true := by
  rw [child, normalize, String.toList_ofList] at h
  exact isAllowed_of_mem_joinParts h

/-! ## Words -/

/-- The words between the dashes of a text, an empty word taken for an underscore. -/
def words (cs : List Char) : List (List Char) := (cs.splitOn '-').map orUnderscore

theorem words_ne_nil (cs : List Char) : words cs ≠ [] := by
  rw [words, Ne, List.map_eq_nil_iff]
  exact List.splitOn_ne_nil '-' cs

@[simp] theorem words_append_dash (xs ys : List Char) :
    words (xs ++ '-' :: ys) = words xs ++ words ys := by
  rw [words, List.splitOn_append_cons_self, List.map_append]
  rfl

/-- A text without a dash is one word. -/
theorem words_eq_singleton {cs : List Char} (hne : cs ≠ []) (h : '-' ∉ cs) : words cs = [cs] := by
  rw [words, List.splitOn_eq_singleton h, List.map_singleton, orUnderscore_eq_self hne]

/-- Trimming the beginning of a tight text leaves its words. -/
theorem words_dropWhile {cs : List Char} (h : IsTight cs) :
    words (cs.dropWhile (· = '_')) = words cs := by
  rcases h with rfl | ⟨-, first, -⟩
  · decide
  · rw [dropWhile_eq_self first]

/-- Trimming the end of a tight text leaves its words. -/
theorem words_rdropWhile {cs : List Char} (h : IsTight cs) :
    words (cs.rdropWhile (· = '_')) = words cs := by
  rcases h with rfl | ⟨-, -, last⟩
  · decide
  · rw [rdropWhile_eq_self last]

/-- A dash stops the trimming of the beginning. -/
theorem dropWhile_append_dash (xs ys : List Char) :
    (xs ++ '-' :: ys).dropWhile (· = '_') = xs.dropWhile (· = '_') ++ '-' :: ys := by
  have dash : ¬ (decide ('-' = '_') = true) := by decide
  induction xs with
  | nil => rw [List.nil_append, List.dropWhile_cons, if_neg dash]; rfl
  | cons x xs ih =>
    rw [List.cons_append, List.dropWhile_cons, List.dropWhile_cons, ih]
    split <;> rfl

/-- A dash stops the trimming of the end. -/
theorem rdropWhile_append_dash (xs ys : List Char) :
    (xs ++ '-' :: ys).rdropWhile (· = '_') = xs ++ '-' :: ys.rdropWhile (· = '_') := by
  rw [List.rdropWhile, List.reverse_append, List.reverse_cons, List.append_assoc,
    List.singleton_append, dropWhile_append_dash]
  simp [List.rdropWhile]

/-- A dash stops the trimming from either side. -/
theorem trim_append_dash (xs ys : List Char) :
    Text.trim (· = '_') (xs ++ '-' :: ys) =
      xs.dropWhile (· = '_') ++ '-' :: ys.rdropWhile (· = '_') := by
  rw [trim_eq_rdropWhile, dropWhile_append_dash, rdropWhile_append_dash]

theorem words_rdropWhile_joinParts {ps : List (List Char)} (filled : ps ≠ []) :
    words ((joinParts ps).rdropWhile (· = '_')) = words (joinParts ps) := by
  induction ps with
  | nil => exact absurd rfl filled
  | cons p rest ih =>
    cases rest with
    | nil => exact words_rdropWhile (isTight_normalizePart p)
    | cons q more =>
      rw [joinParts_cons_cons, rdropWhile_append_dash, words_append_dash, words_append_dash,
        ih (List.cons_ne_nil q more)]

/-- **Bringing a namespace into its normal form once more leaves its words.** -/
theorem words_normalizePart_joinParts {ps : List (List Char)} (filled : ps ≠ []) :
    words (normalizePart (joinParts ps)) = words (joinParts ps) := by
  obtain ⟨p, rest, rfl⟩ := List.exists_cons_of_ne_nil filled
  cases rest with
  | nil => rw [joinParts_singleton, normalizePart_normalizePart]
  | cons q more =>
    rw [normalizePart_of_isAllowed fun _ => isAllowed_of_mem_joinParts, joinParts_cons_cons,
      trim_append_dash, orUnderscore_eq_self (by simp), words_append_dash, words_append_dash,
      words_dropWhile (isTight_normalizePart p),
      words_rdropWhile_joinParts (List.cons_ne_nil q more)]

theorem words_normalizePart_child (parent : Option String) (segment : String) :
    words (normalizePart (child parent segment).toList) = words (child parent segment).toList := by
  rw [child, normalize, String.toList_ofList]
  exact words_normalizePart_joinParts (by simp)

end Namespace
end ApiManual
