import ApiManual.Proofs.Namespace
import Mathlib.Logic.Relation

/-!
# Normal forms

The namespace of one part is its normal form.  The texts that occur as one are those of
allowed characters that are tight (`IsNormal`), and such a text is its own normal form.
Which normal form a part has depends only on what its lower case leaves outside white space
(`kept`), so blanks may be put in and taken out anywhere in it, and letters may be written
in either case (`Edit`).

The namespace of several parts is not always normal.  It has an underscore at an end if
nothing remains of the part that stands there, as of the path `/`, and this underscore is
lost when the namespace is taken for a part itself: below `api-_` stands `api--resource`,
while `api`, `/` and `resource` together have the namespace `api-_-resource`.  So a namespace
can be built step by step if the ends of what comes first are kept (`KeepsEnds`), and only
then.  In every case the words stay the same, with an empty one for the underscore.
-/

namespace ApiManual
namespace Namespace

/-! ## The form -/

/-- The form of a namespace of one part: it consists of allowed characters, and it is a single
underscore or a text, not empty, with no underscore at either end. -/
structure IsNormal (cs : List Char) : Prop where
  allowed : ∀ c ∈ cs, isAllowed c = true
  tight : IsTight cs

theorem isNormal_normalizePart (cs : List Char) : IsNormal (normalizePart cs) where
  allowed _ := isAllowed_of_mem_normalizePart
  tight := isTight_normalizePart cs

/-- **The texts that are their own normal form are those of this form.** -/
theorem normalizePart_eq_self_iff {cs : List Char} : normalizePart cs = cs ↔ IsNormal cs :=
  ⟨fun same => same ▸ isNormal_normalizePart cs, fun h => normalizePart_eq_self h.allowed h.tight⟩

/-! ## What does not show -/

/-- What is left of a part when its characters are in lower case and white space is gone. -/
def kept (cs : List Char) : List Char :=
  (cs.flatMap lower).filter fun c => !Text.isBlank c

theorem kept_append (xs ys : List Char) : kept (xs ++ ys) = kept xs ++ kept ys := by
  rw [kept, List.flatMap_append, List.filter_append]
  rfl

theorem kept_cons (c : Char) (cs : List Char) : kept (c :: cs) = kept [c] ++ kept cs :=
  kept_append [c] cs

/-- The normal form is made from what is left. -/
theorem normalizePart_congr {cs ds : List Char} (h : kept cs = kept ds) :
    normalizePart cs = normalizePart ds :=
  congrArg (fun left => orUnderscore (Text.trim (· = '_') (squeeze false left))) h

/-- The letter in the other case. -/
def otherCase (c : Char) : Char := if c.isUpper then c.toLower else c.toUpper

/-- One change to a text: a blank is put in or taken out, or a letter from `a` to `z` is
written in the other case. -/
inductive Edit : List Char → List Char → Prop where
  | insertBlank (before after : List Char) {c : Char} (blank : Text.isBlank c = true) :
      Edit (before ++ after) (before ++ c :: after)
  | removeBlank (before after : List Char) {c : Char} (blank : Text.isBlank c = true) :
      Edit (before ++ c :: after) (before ++ after)
  | switchCase (before after : List Char) {c : Char} (letter : c.isAlpha = true) :
      Edit (before ++ c :: after) (before ++ otherCase c :: after)

/-- No blank has another lower case. -/
theorem lower_of_isBlank {c : Char} (blank : Text.isBlank c = true) : lower c = [c] := by
  have kelvin : c ≠ '\u212a' := by rintro rfl; exact absurd blank (by decide)
  have dotted : c ≠ '\u0130' := by rintro rfl; exact absurd blank (by decide)
  have capital : ('A' ≤ c && c ≤ 'Z') = false := by
    rw [Bool.eq_false_iff, Ne, Bool.and_eq_true, decide_eq_true_eq, decide_eq_true_eq]
    rintro ⟨low, high⟩
    have low : 65 ≤ c.toNat := low
    have high : c.toNat ≤ 90 := high
    simp only [Text.isBlank, Bool.or_eq_true, Bool.and_eq_true, decide_eq_true_eq,
      beq_iff_eq] at blank
    omega
  rw [lower, capital, if_neg Bool.false_ne_true, if_neg kelvin, if_neg dotted]

theorem kept_blank {c : Char} (blank : Text.isBlank c = true) : kept [c] = [] := by
  rw [kept, List.flatMap_singleton, lower_of_isBlank blank]
  simp [blank]

theorem toNat_lt_of_isAlpha {c : Char} (letter : c.isAlpha = true) : c.toNat < 128 := by
  have le_of {d : Char} (h : c.val ≤ d.val) : c.toNat ≤ d.toNat := h
  rcases Bool.or_eq_true_iff.1 letter with capital | small
  · have bounds : 'A'.val ≤ c.val ∧ c.val ≤ 'Z'.val := of_decide_eq_true capital
    exact Nat.lt_of_le_of_lt (le_of bounds.2) (by decide)
  · have bound : c.val ≤ 'z'.val := of_decide_eq_true (Bool.and_eq_true_iff.1 small).2
    exact Nat.lt_of_le_of_lt (le_of bound) (by decide)

/-- A letter is the same in lower case, whichever case it is written in. -/
theorem lower_otherCase {c : Char} (letter : c.isAlpha = true) : lower (otherCase c) = lower c := by
  have table : ∀ n < 128, (Char.ofNat n).isAlpha = true →
      lower (otherCase (Char.ofNat n)) = lower (Char.ofNat n) := by decide +kernel
  have at_c := table c.toNat (toNat_lt_of_isAlpha letter)
  rw [Char.ofNat_toNat] at at_c
  exact at_c letter

theorem kept_switched {c : Char} (letter : c.isAlpha = true) : kept [otherCase c] = kept [c] := by
  rw [kept, kept, List.flatMap_singleton, List.flatMap_singleton, lower_otherCase letter]

/-- One change leaves the same. -/
theorem Edit.kept_eq {cs ds : List Char} (h : Edit cs ds) : kept ds = kept cs := by
  cases h with
  | insertBlank before after blank =>
    rw [kept_append, kept_append, kept_cons, kept_blank blank, List.nil_append]
  | removeBlank before after blank =>
    rw [kept_append, kept_append, kept_cons, kept_blank blank, List.nil_append]
  | switchCase before after letter =>
    rw [kept_append, kept_append, kept_cons, kept_cons _ after, kept_switched letter]

/-- Any number of changes leave the same. -/
theorem kept_of_edits {cs ds : List Char} (h : Relation.ReflTransGen Edit cs ds) :
    kept ds = kept cs := by
  induction h with
  | refl => rfl
  | tail _ last ih => exact last.kept_eq.trans ih

/-! ## One part -/

/-- The characters of the parts that are given. -/
def given (parts : List (Option String)) : List (List Char) :=
  (parts.filterMap id).map String.toList

theorem toList_ofParts (parts : List (Option String)) :
    (ofParts parts).toList = joinParts (given parts) := by
  rw [ofParts, normalize, String.toList_ofList, given]

theorem ofParts_single (part : String) :
    (ofParts [some part]).toList = normalizePart part.toList := toList_ofParts [some part]

/-- **The namespace of one part is its normal form**: it is of this form, a text is its own
namespace exactly if it is of this form, hence nothing changes a second time, and neither
blanks nor the case of a letter make a difference. -/
theorem namespace_of_one_part (part : String) :
    IsNormal (ofParts [some part]).toList ∧
      ofParts [some (ofParts [some part])] = ofParts [some part] ∧
      (ofParts [some part] = part ↔ IsNormal part.toList) ∧
      ∀ other : String, Relation.ReflTransGen Edit part.toList other.toList →
        ofParts [some other] = ofParts [some part] := by
  refine ⟨?form, ?again, ?fixed, ?edits⟩
  case form =>
    rw [ofParts_single]
    exact isNormal_normalizePart _
  case again =>
    rw [← String.toList_inj, ofParts_single, ofParts_single]
    exact normalizePart_normalizePart _
  case fixed =>
    rw [← String.toList_inj, ofParts_single]
    exact normalizePart_eq_self_iff
  case edits =>
    intro other edits
    rw [← String.toList_inj, ofParts_single, ofParts_single]
    exact normalizePart_congr (kept_of_edits edits)

/-- The path `/Pets` and its spelling in small letters, with a blank in it. -/
theorem namespace_of_respelled_path :
    Relation.ReflTransGen Edit "/Pets".toList "/ pets".toList ∧
      ofParts [some "/ pets"] = ofParts [some "/Pets"] := by
  have small : Edit "/Pets".toList "/pets".toList :=
    .switchCase ['/'] ['e', 't', 's'] (c := 'P') (by decide)
  have spaced : Edit "/pets".toList "/ pets".toList :=
    .insertBlank ['/'] ['p', 'e', 't', 's'] (c := ' ') (by decide)
  have edits : Relation.ReflTransGen Edit "/Pets".toList "/ pets".toList :=
    (Relation.ReflTransGen.single small).tail spaced
  exact ⟨edits, (namespace_of_one_part "/Pets").2.2.2 "/ pets" edits⟩

/-! ## Parts of which nothing remains -/

/-- Something remains of a part: an allowed character that is no underscore. -/
def Remains (cs : List Char) : Prop := ∃ c ∈ cs.flatMap lower, isAllowed c = true ∧ c ≠ '_'

-- The characters of the part are gone through, not all characters there are.
instance : DecidablePred Remains := fun cs => List.decidableBEx _ (cs.flatMap lower)

theorem mem_squeeze_of_isAllowed {cs : List Char} {c : Char} (allowed : isAllowed c = true)
    (h : c ∈ cs) (inRun : Bool) : c ∈ squeeze inRun cs := by
  fun_induction squeeze inRun cs with
  | case1 => exact h
  | case2 inRun x rest _ ih =>
    rcases List.mem_cons.1 h with rfl | h
    · exact List.mem_cons_self
    · exact List.mem_cons_of_mem x (ih h)
  | case3 x rest other ih =>
    rcases List.mem_cons.1 h with rfl | h
    · exact absurd allowed other
    · exact ih h
  | case4 inRun x rest other _ ih =>
    rcases List.mem_cons.1 h with rfl | h
    · exact absurd allowed other
    · exact List.mem_cons_of_mem _ (ih h)

theorem mem_trim_of_ne {cs : List Char} {c : Char} (h : c ∈ cs) (other : c ≠ '_') :
    c ∈ Text.trim (· = '_') cs := by
  have front {xs : List Char} (h : c ∈ xs) : c ∈ xs.dropWhile (· = '_') := by
    rw [← List.takeWhile_append_dropWhile (p := fun x => decide (x = '_')) (l := xs),
      List.mem_append] at h
    rcases h with h | h
    · exact absurd (by simpa using List.mem_takeWhile_imp h) other
    · exact h
  rw [Text.trim, List.mem_reverse]
  exact front (List.mem_reverse.2 (front h))

/-- What remains of a part stands in its normal form. -/
theorem remains_iff {cs : List Char} : Remains cs ↔ ∃ c ∈ normalizePart cs, c ≠ '_' := by
  rw [normalizePart]
  generalize hs : squeeze false ((cs.flatMap lower).filter fun c => !Text.isBlank c) = squeezed
  constructor
  · rintro ⟨c, mem, allowed, other⟩
    have visible : (!Text.isBlank c) = true := by
      rw [(lower_eq_self_of_isAllowed allowed).2]
      rfl
    have trimmed : c ∈ Text.trim (· = '_') squeezed := mem_trim_of_ne
      (hs ▸ mem_squeeze_of_isAllowed allowed (List.mem_filter.2 ⟨mem, visible⟩) false) other
    rw [orUnderscore_eq_self (List.ne_nil_of_mem trimmed)]
    exact ⟨c, trimmed, other⟩
  · rintro ⟨c, mem, other⟩
    have trimmed : c ∈ Text.trim (· = '_') squeezed := by
      unfold orUnderscore at mem
      split at mem
      · exact absurd (List.mem_singleton.1 mem) other
      · exact mem
    have left : c ∈ squeeze false ((cs.flatMap lower).filter fun c => !Text.isBlank c) :=
      hs ▸ mem_of_mem_trim trimmed
    exact ⟨c, List.mem_of_mem_filter (mem_of_mem_squeeze left other), isAllowed_of_mem_squeeze left,
      other⟩

/-- The normal form of a part is a single underscore if nothing remains of the part, and
otherwise has no underscore at either end. -/
theorem normalizePart_cases (cs : List Char) :
    (¬ Remains cs ∧ normalizePart cs = ['_']) ∨
      (Remains cs ∧ (normalizePart cs).head? ≠ some '_' ∧
        (normalizePart cs).getLast? ≠ some '_') := by
  rcases isTight_normalizePart cs with single | ⟨filled, first, last⟩
  · refine .inl ⟨fun remains => ?_, single⟩
    obtain ⟨c, mem, other⟩ := remains_iff.1 remains
    exact other (List.mem_singleton.1 (single ▸ mem))
  · refine .inr ⟨remains_iff.2 ⟨_, List.head_mem filled, fun eq => first ?_⟩, first, last⟩
    rw [List.head?_eq_some_head filled, eq]

theorem head?_normalizePart {cs : List Char} :
    (normalizePart cs).head? ≠ some '_' ↔ Remains cs := by
  rcases normalizePart_cases cs with ⟨lost, single⟩ | ⟨remains, first, -⟩
  · exact iff_of_false (fun first => first (by rw [single]; rfl)) lost
  · exact iff_of_true first remains

theorem getLast?_normalizePart {cs : List Char} :
    (normalizePart cs).getLast? ≠ some '_' ↔ Remains cs := by
  rcases normalizePart_cases cs with ⟨lost, single⟩ | ⟨remains, -, last⟩
  · exact iff_of_false (fun last => last (by rw [single]; rfl)) lost
  · exact iff_of_true last remains

/-! ## Several parts, step by step -/

/-- The namespace of some parts keeps its ends when it is taken for a part itself: it is that of
a single part, or something remains of the first part and of the last one. -/
def KeepsEnds (parts : List (List Char)) : Prop :=
  parts.length = 1 ∨
    (∀ p ∈ parts.head?, Remains p) ∧ ∀ p ∈ parts.getLast?, Remains p

instance : DecidablePred KeepsEnds := fun parts =>
  inferInstanceAs (Decidable (parts.length = 1 ∨
    (∀ p ∈ parts.head?, Remains p) ∧ ∀ p ∈ parts.getLast?, Remains p))

theorem head?_joinParts (p : List Char) (rest : List (List Char)) :
    (joinParts (p :: rest)).head? = (normalizePart p).head? := by
  cases rest with
  | nil => rfl
  | cons q more =>
    rw [joinParts_cons_cons, List.head?_append_of_ne_nil _ (normalizePart_ne_nil p)]

theorem getLast?_joinParts (rest : List (List Char)) (p : List Char) :
    (joinParts (rest ++ [p])).getLast? = (normalizePart p).getLast? := by
  cases rest with
  | nil => rfl
  | cons q more =>
    rw [joinParts_append (List.cons_ne_nil q more) (List.cons_ne_nil p []), joinParts_singleton,
      List.append_cons, List.getLast?_append_of_ne_nil _ (normalizePart_ne_nil p)]

/-- A joined text is tight if its ends are kept. -/
theorem isTight_joinParts_iff {parts : List (List Char)} (filled : parts ≠ []) :
    IsTight (joinParts parts) ↔ KeepsEnds parts := by
  have first : (joinParts parts).head? ≠ some '_' ↔ ∀ p ∈ parts.head?, Remains p := by
    obtain ⟨p, rest, rfl⟩ := List.exists_cons_of_ne_nil filled
    rw [head?_joinParts, head?_normalizePart, List.head?_cons]
    simp only [Option.mem_some_iff, forall_eq']
  have last : (joinParts parts).getLast? ≠ some '_' ↔ ∀ p ∈ parts.getLast?, Remains p := by
    rw [← List.dropLast_append_getLast filled, getLast?_joinParts, getLast?_normalizePart,
      List.getLast?_concat]
    simp only [Option.mem_some_iff, forall_eq']
  obtain ⟨p, rest, rfl⟩ := List.exists_cons_of_ne_nil filled
  cases rest with
  | nil => exact iff_of_true (isTight_normalizePart p) (.inl rfl)
  | cons q more =>
    have dashed : '-' ∈ joinParts (p :: q :: more) :=
      List.mem_append_right _ List.mem_cons_self
    have several : (p :: q :: more).length ≠ 1 := by simp
    have unlike : joinParts (p :: q :: more) ≠ ['_'] := fun single =>
      absurd (single ▸ dashed) (by decide)
    rw [IsTight, KeepsEnds, or_iff_right unlike, or_iff_right several,
      and_iff_right (List.ne_nil_of_mem dashed), first, last]

/-- A namespace is its own normal form if its ends are kept. -/
theorem normalizePart_joinParts_iff {parts : List (List Char)} (filled : parts ≠ []) :
    normalizePart (joinParts parts) = joinParts parts ↔ KeepsEnds parts := by
  rw [normalizePart_eq_self_iff, ← isTight_joinParts_iff filled]
  exact ⟨fun h => h.tight, fun tight => ⟨fun _ => isAllowed_of_mem_joinParts, tight⟩⟩

/-- Parts can be joined before they are joined to more, if their ends are kept, and only then. -/
theorem joinParts_cons_eq_append_iff {parts more : List (List Char)} (filled : parts ≠ []) :
    joinParts (joinParts parts :: more) = joinParts (parts ++ more) ↔ KeepsEnds parts := by
  rw [← normalizePart_joinParts_iff filled]
  cases more with
  | nil => rw [joinParts_singleton, List.append_nil]
  | cons q rest =>
    rw [joinParts_cons_cons, joinParts_append filled (List.cons_ne_nil q rest),
      List.append_left_inj]

theorem words_joinParts_cons {parts more : List (List Char)} (filled : parts ≠ []) :
    words (joinParts (joinParts parts :: more)) = words (joinParts (parts ++ more)) := by
  cases more with
  | nil => rw [joinParts_singleton, List.append_nil, words_normalizePart_joinParts filled]
  | cons q rest =>
    rw [joinParts_cons_cons, joinParts_append filled (List.cons_ne_nil q rest),
      words_append_dash, words_append_dash, words_normalizePart_joinParts filled]

theorem given_ne_nil {parts : List (Option String)} (h : ∃ part, some part ∈ parts) :
    given parts ≠ [] := by
  obtain ⟨part, mem⟩ := h
  exact List.ne_nil_of_mem (List.mem_map_of_mem (List.mem_filterMap.2 ⟨some part, mem, rfl⟩))

theorem given_ofParts_cons (parts more : List (Option String)) :
    given (some (ofParts parts) :: more) = joinParts (given parts) :: given more := by
  rw [← toList_ofParts]
  rfl

theorem given_append (parts more : List (Option String)) :
    given (parts ++ more) = given parts ++ given more := by
  rw [given, List.filterMap_append, List.map_append]
  rfl

/-- **Namespaces can be built step by step exactly if their ends are kept.**  Of some parts, at
least one of them given, and more parts, the namespace is that of the first namespace and the
more parts, if the first ones keep their ends, and otherwise differs from it; the words are the
same in either case.  Hence a child has the namespace of its parent, a dash and the normal form
of its segment, if and only if the namespace of the parent keeps its ends. -/
theorem namespace_in_steps {parts : List (Option String)} (filled : ∃ part, some part ∈ parts) :
    (∀ more, ofParts (some (ofParts parts) :: more) = ofParts (parts ++ more) ↔
        KeepsEnds (given parts)) ∧
      (∀ more, words (ofParts (some (ofParts parts) :: more)).toList =
        words (ofParts (parts ++ more)).toList) ∧
      ∀ segment, child (some (ofParts parts)) segment =
        ofParts parts ++ "-" ++ ofParts [some segment] ↔ KeepsEnds (given parts) := by
  have steps (more : List (Option String)) :
      ofParts (some (ofParts parts) :: more) = ofParts (parts ++ more) ↔
        KeepsEnds (given parts) := by
    rw [← String.toList_inj, toList_ofParts, toList_ofParts, given_ofParts_cons, given_append]
    exact joinParts_cons_eq_append_iff (given_ne_nil filled)
  refine ⟨steps, fun more => ?words, fun segment => ?child⟩
  case words =>
    rw [toList_ofParts, toList_ofParts, given_ofParts_cons, given_append]
    exact words_joinParts_cons (given_ne_nil filled)
  case child =>
    have below : ofParts (parts ++ [some segment]) =
        ofParts parts ++ "-" ++ ofParts [some segment] := by
      rw [← String.toList_inj, String.toList_append, String.toList_append, toList_ofParts,
        toList_ofParts, toList_ofParts, given_append,
        joinParts_append (given_ne_nil filled) (given_ne_nil ⟨segment, List.mem_cons_self⟩),
        List.append_assoc]
      rfl
    rw [child_eq_ofParts, ← below]
    exact steps [some segment]

/-- The namespace of the path `/pets` keeps its ends. -/
theorem namespace_of_pets_in_steps :
    (∃ part, some part ∈ [some "api", none, some "/pets"]) ∧
      ofParts [some (ofParts [some "api", none, some "/pets"]), some "resource"] =
        ofParts [some "api", none, some "/pets", some "resource"] := by
  have filled : ∃ part, some part ∈ [some "api", none, some "/pets"] :=
    ⟨"api", List.mem_cons_self⟩
  exact ⟨filled, ((namespace_in_steps filled).1 [some "resource"]).2 (by decide)⟩

/-- The namespace of the path `/` does not: what stands below it has lost the underscore. -/
theorem namespace_of_slash_in_steps :
    ¬ ∀ parts more : List (Option String), (∃ part, some part ∈ parts) →
      ofParts (some (ofParts parts) :: more) = ofParts (parts ++ more) := by
  intro steps
  have same := steps [some "api", some "/"] [some "resource"] ⟨"api", List.mem_cons_self⟩
  exact absurd same (by decide)

end Namespace
end ApiManual
