import ApiManual.Proofs.Json.AsYaml.Strings
import ApiManual.Descriptor

/-!
# White space between tokens

Once the ends of lines are line feeds, the white space of a JSON text without tabs is
spaces and line feeds.  The scanner goes over it in two ways: before a token, and
behind a plain scalar, which takes the gap after it along because it might go on in the
next line.  Either way it comes to the next token, so what is left of a text matters
only from its first token on (`front`).
-/

namespace ApiManual
namespace Yaml

open Descriptor (unifiedLines)

/-- A space or a line feed. -/
def isFiller (c : Char) : Bool := c = ' ' || c = '\n'

/-- What is left of a text from its first token on. -/
def front (r : List Char) : List Char := (unifiedLines r).dropWhile isFiller

theorem unifiedLines_cons {c : Char} (h : c ≠ '\r') (r : List Char) :
    unifiedLines (c :: r) = c :: unifiedLines r := by
  simp [unifiedLines, h]

theorem unifiedLines_append {w : List Char} (h : ∀ c ∈ w, c ≠ '\r') (r : List Char) :
    unifiedLines (w ++ r) = w ++ unifiedLines r := by
  induction w with
  | nil => rfl
  | cons c rest ih =>
    rw [List.cons_append, unifiedLines_cons (h c (by simp)), ih fun x mem => h x (by simp [mem])]
    rfl

/-- Carriage returns and line feeds end lines in whatever order they come. -/
theorem front_cons_filler {c : Char} (h : Json.isSpace c = true) (noTab : c ≠ '\t')
    (r : List Char) : front (c :: r) = front r := by
  simp only [Json.isSpace, Bool.or_eq_true, decide_eq_true_eq, noTab, or_false] at h
  obtain (rfl | rfl) | rfl := h
  · simp [front, unifiedLines, isFiller]
  · simp [front, unifiedLines, isFiller]
  · cases r with
    | nil => simp [front, unifiedLines, isFiller]
    | cons d rest =>
      by_cases feed : d = '\n'
      · subst feed
        simp [front, unifiedLines, isFiller]
      · simp [front, unifiedLines, isFiller, feed]

theorem front_gap {g : Json.Gap} (h : g.isYaml = true) (r : List Char) :
    front (g.chars ++ r) = front r := by
  obtain ⟨chars, areSpaces⟩ := g
  simp only [Json.Gap.isYaml, List.all_eq_true, decide_eq_true_eq] at h
  induction chars with
  | nil => rfl
  | cons c rest ih =>
    rw [List.cons_append, front_cons_filler (areSpaces c (by simp)) (h c (by simp))]
    exact ih (fun x mem => areSpaces x (by simp [mem])) fun x mem => h x (by simp [mem])

theorem front_cons {c : Char} (noSpace : Json.isSpace c = false) (r : List Char) :
    front (c :: r) = c :: unifiedLines r := by
  simp only [Json.isSpace, Bool.or_eq_false_iff, decide_eq_false_iff_not] at noSpace
  obtain ⟨⟨⟨space, feed⟩, ret⟩, -⟩ := noSpace
  rw [front, unifiedLines_cons ret]
  exact List.dropWhile_cons_of_neg (by simp [isFiller, space, feed])

/-! ## Going over white space -/

/-- Whether neither white space nor a comment starts at a character; the end of the text
is none of them either. -/
structure EndsGap (x : Char) : Prop where
  noSpace : x ≠ ' '
  noComment : x ≠ '#'
  noBreak : isBreak x = false

namespace Cursor

theorem skipWhile_space {c : Cursor} {r : List Char} (left : c.rest = ' ' :: r) :
    c.skipWhile (· = ' ') = c.next.skipWhile (· = ' ') := by
  simp [skipWhile, span, left]

theorem skipWhile_of_ne {c : Cursor} (h : c.peek ≠ ' ') : c.skipWhile (· = ' ') = c := by
  unfold peek at h
  cases left : c.rest with
  | nil => simp [skipWhile, span, left]
  | cons x r => simp [skipWhile, span, left, show x ≠ ' ' by simpa [left] using h]

/-- Every character counts, and without a line end the line stays the same. -/
theorem skip_place {c : Cursor} {w r : List Char} (left : c.rest = w ++ r)
    (noBreak : ∀ y ∈ w, isBreak y = false) :
    (c.skip w.length).index = c.index + w.length ∧ (c.skip w.length).mark.line = c.mark.line := by
  induction w generalizing c with
  | nil => exact ⟨rfl, rfl⟩
  | cons y w ih =>
    obtain ⟨index, line⟩ := ih (c := c.next) (by simp [left]) fun z mem => noBreak z (by simp [mem])
    have one : c.next.index = c.index + 1 ∧ c.next.mark.line = c.mark.line := by
      have same := noBreak y (by simp)
      unfold next
      rw [left]
      simp only [List.cons_append, same]
      by_cases mark : y = '\ufeff' <;> simp [mark]
    rw [List.length_cons, skip_succ, index, line, one.1, one.2]
    exact ⟨by omega, rfl⟩

theorem skipComment_of_ne {c : Cursor} (h : c.peek ≠ '#') : c.skipComment = c := if_neg h

end Cursor

/-- Going over a gap changes nothing but the place, and a key that may start before it may
start behind it. -/
theorem skipGaps_eq {g r : List Char} (filler : ∀ x ∈ g, isFiller x = true)
    (stop : EndsGap (r.headD endChar)) {fuel : Nat} (enough : g.length < fuel) {s : Scan}
    (left : s.cursor.rest = g ++ r) :
    ∃ allowed, s.skipGaps fuel =
        { s with cursor := s.cursor.skip g.length, keyAllowed := allowed } ∧
      (s.keyAllowed = true → allowed = true) := by
  obtain ⟨fuel, rfl⟩ : ∃ n, fuel = n + 1 := ⟨fuel - 1, by omega⟩
  induction g generalizing s fuel with
  | nil =>
    have peek : s.cursor.peek = r.headD endChar := by simp [Cursor.peek, left]
    rw [← peek] at stop
    refine ⟨s.keyAllowed, ?_, id⟩
    simp [Scan.skipGaps, Cursor.skipWhile_of_ne stop.noSpace,
      Cursor.skipComment_of_ne stop.noComment, stop.noBreak]
  | cons c g ih =>
    have behind : s.cursor.next.rest = g ++ r := by simp [left]
    have rest : ∀ x ∈ g, isFiller x = true := fun x mem => filler x (by simp [mem])
    have short : g.length < fuel := by simpa using enough
    obtain rfl | rfl : c = ' ' ∨ c = '\n' := by simpa [isFiller] using filler c (by simp)
    · obtain ⟨allowed, skipped, kept⟩ :=
        ih rest (s := { s with cursor := s.cursor.next }) behind fuel (by omega)
      have same : s.skipGaps (fuel + 1) =
          { s with cursor := s.cursor.next }.skipGaps (fuel + 1) := by
        rw [Scan.skipGaps, Scan.skipGaps, Cursor.skipWhile_space left]
        rfl
      exact ⟨allowed, same.trans skipped, kept⟩
    · obtain ⟨n, rfl⟩ : ∃ n, fuel = n + 1 := ⟨fuel - 1, by omega⟩
      obtain ⟨allowed, skipped, kept⟩ := ih rest
        (s := { s with cursor := s.cursor.next, keyAllowed := s.keyAllowed || !s.inFlow }) behind n
        (by omega)
      have peek : s.cursor.peek = '\n' := Cursor.peek_cons left
      refine ⟨allowed, ?_, fun h => kept (by simp [h])⟩
      rw [Scan.skipGaps, Cursor.skipWhile_of_ne (by rw [peek]; decide),
        Cursor.skipComment_of_ne (by rw [peek]; decide), peek]
      exact skipped

/-! ## Plain scalars inside brackets -/

/-- A character of a plain scalar that ends it under no circumstances. -/
structure IsBare (y : Char) : Prop where
  noGap : isGap y = false
  noColon : y ≠ ':'
  noBracket : Plain.endsInBrackets y = false
  noComment : y ≠ '#'

/-- A character that ends an item inside brackets. -/
def EndsItem (x : Char) : Prop := x = ',' ∨ x = ']' ∨ x = '\x7d'

theorem EndsItem.endsGap {x : Char} (h : EndsItem x) : EndsGap x := by
  obtain rfl | rfl | rfl := h <;> exact ⟨by decide, by decide, by decide⟩

theorem EndsItem.endsInBrackets {x : Char} (h : EndsItem x) :
    Plain.endsInBrackets x = true := by
  obtain rfl | rfl | rfl := h <;> decide

/-- No line between two documents starts at white space or at the end of an item. -/
theorem Cursor.atSeparator_eq_false {c : Cursor} {y : Char} {r : List Char} (left : c.rest = y :: r)
    (noDash : y ≠ '-') (noPoint : y ≠ '.') : c.atSeparator = false := by
  have dash : '-' ≠ y := noDash.symm
  have point : '.' ≠ y := noPoint.symm
  simp [atSeparator, left, dash, point]

theorem atSeparator_of_filler {c : Cursor} {g r : List Char} {x : Char}
    (filler : ∀ y ∈ g, isFiller y = true) (ends : EndsItem x) (left : c.rest = g ++ x :: r) :
    c.atSeparator = false := by
  cases g with
  | nil =>
    obtain rfl | rfl | rfl := ends <;>
      exact c.atSeparator_eq_false left (by decide) (by decide)
  | cons y g =>
    obtain rfl | rfl : y = ' ' ∨ y = '\n' := by simpa [isFiller] using filler y (by simp)
    · exact c.atSeparator_eq_false left (by decide) (by decide)
    · exact c.atSeparator_eq_false left (by decide) (by decide)

namespace Plain

/-- A word ends where a gap or a bracket starts. -/
theorem word_append {w r : List Char} (bare : ∀ y ∈ w, IsBare y)
    (stop : ∀ x ∈ r.head?, isGap x = true ∨ endsInBrackets x = true) : word true (w ++ r) = w := by
  induction w with
  | nil =>
    cases r with
    | nil => rfl
    | cons x rest => obtain gap | bracket := stop x rfl <;> simp [word, *]
  | cons y w ih =>
    have one := bare y (by simp)
    simp [word, one.noGap, one.noColon, one.noBracket, ih fun z mem => bare z (by simp [mem])]

/-- The gap behind the first line end of a gap is read up to the next character. -/
theorem breaks_filler {g r : List Char} {x : Char} (filler : ∀ y ∈ g, isFiller y = true)
    (ends : EndsItem x) {fuel : Nat} (enough : g.length < fuel) (taken : List Char) {c : Cursor}
    (left : c.rest = g ++ x :: r) :
    ∃ others, breaks fuel taken c = (some others, c.skip g.length) := by
  induction g generalizing fuel taken c with
  | nil =>
    obtain ⟨n, rfl⟩ : ∃ n, fuel = n + 1 := ⟨fuel - 1, by omega⟩
    have peek : c.peek = x := Cursor.peek_cons left
    exact ⟨taken.reverse, by simp [breaks, peek, ends.endsGap.noSpace, ends.endsGap.noBreak]⟩
  | cons y g ih =>
    obtain ⟨n, rfl⟩ : ∃ n, fuel = n + 1 := ⟨fuel - 1, by omega⟩
    have behind : c.next.rest = g ++ x :: r := by simp [left]
    have rest : ∀ y ∈ g, isFiller y = true := fun y mem => filler y (by simp [mem])
    have short : g.length < n := by simpa using enough
    have peek : c.peek = y := Cursor.peek_cons left
    obtain rfl | rfl : y = ' ' ∨ y = '\n' := by simpa [isFiller] using filler y (by simp)
    · obtain ⟨others, read⟩ := ih rest short taken behind
      exact ⟨others, by simp [breaks, peek, read]⟩
    · obtain ⟨others, read⟩ := ih rest short ('\n' :: taken) behind
      have noSeparator := atSeparator_of_filler rest ends behind
      exact ⟨others, by simp [breaks, peek, isBreak, noSeparator, breakText, read]⟩

theorem folded_ne_nil (first : Char) (others : List Char) : folded first others ≠ [] := by
  unfold folded
  split
  · simp
  · split
    · simp
    · rename_i some
      simpa using some

/-- The gap behind a word is read up to the next character. -/
theorem gap_filler {g r : List Char} {x : Char} (filler : ∀ y ∈ g, isFiller y = true)
    (ends : EndsItem x) {c : Cursor} (left : c.rest = g ++ x :: r) :
    (gap c).after = c.skip g.length ∧ ((gap c).text = [] → g = []) := by
  obtain ⟨spaces, behind, rfl, areSpaces, stop⟩ := exists_cut (fun y => y = ' ') g
  rw [List.append_assoc] at left
  have noSpace : ∀ y ∈ (behind ++ x :: r).head?, decide (y = ' ') = false := by
    cases behind with
    | nil => simpa using ends.endsGap.noSpace
    | cons y more => simpa using stop
  have span := Cursor.span_append (fun y => y = ' ') left areSpaces noSpace
  have left := Cursor.rest_skip_append left
  cases behind with
  | nil =>
    have peek : (c.skip spaces.length).peek = x := Cursor.peek_cons left
    simp [gap, span, peek, ends.endsGap.noBreak]
  | cons y more =>
    obtain rfl : y = '\n' := by
      have := filler y (by simp)
      simpa [isFiller, show y ≠ ' ' by simpa using stop] using this
    have peek : (c.skip spaces.length).peek = '\n' := Cursor.peek_cons left
    have behind : (c.skip spaces.length).next.rest = more ++ x :: r := by
      rw [Cursor.rest_next, left]
      rfl
    have rest : ∀ y ∈ more, isFiller y = true := fun y mem => filler y (by simp [mem])
    have noSeparator := atSeparator_of_filler rest ends behind
    have enough : more.length < (c.skip spaces.length).next.rest.length + 1 := by
      rw [behind]
      simp only [List.length_append, List.length_cons]
      omega
    obtain ⟨others, read⟩ := breaks_filler rest ends enough [] behind
    simp only [gap, span, peek, show isBreak '\n' = true by decide, noSeparator, read, if_true,
      Bool.false_eq_true, if_false]
    exact ⟨by simp [Cursor.next_skip, Cursor.skip_add],
      fun empty => absurd empty (folded_ne_nil _ _)⟩

/-- A plain scalar of one word is read with the gap behind it. -/
theorem read_word {w g r : List Char} {x : Char} (some : w ≠ []) (bare : ∀ y ∈ w, IsBare y)
    (filler : ∀ y ∈ g, isFiller y = true) (ends : EndsItem x) {c : Cursor}
    (left : c.rest = w ++ (g ++ x :: r)) (indent : Int) :
    (read true indent c).text = w ∧
      (read true indent c).after = c.skip (w.length + g.length) := by
  obtain ⟨y, w', eq⟩ := List.exists_cons_of_ne_nil some
  have noComment : c.peek ≠ '#' := by
    rw [Cursor.peek_cons (x := y) (r := w' ++ (g ++ x :: r)) (by simp [left, eq])]
    exact (bare y (by simp [eq])).noComment
  have stop : ∀ z ∈ (g ++ x :: r).head?, isGap z = true ∨ endsInBrackets z = true := by
    cases g with
    | nil => simpa using .inr ends.endsInBrackets
    | cons z g =>
      obtain rfl | rfl : z = ' ' ∨ z = '\n' := by simpa [isFiller] using filler z (by simp)
      · simp; decide
      · simp; decide
  have word : word true c.rest = w := by rw [left]; exact word_append bare stop
  obtain ⟨after, text⟩ := gap_filler filler ends (Cursor.rest_skip_append left)
  have behind : (gap (c.skip w.length)).after.rest = x :: r := by
    rw [after]
    exact Cursor.rest_skip_append (Cursor.rest_skip_append left)
  have peek : (gap (c.skip w.length)).after.peek = x := Cursor.peek_cons behind
  have finished (fuel : Nat) (before : List Char) (broke : Bool) :
      words fuel true (indent + 1) w before broke (gap (c.skip w.length)).after =
        ⟨w, (gap (c.skip w.length)).after, broke⟩ := by
    cases fuel with
    | zero => rfl
    | succ fuel =>
      have none : Plain.word true (gap (c.skip w.length)).after.rest = [] := by
        rw [behind]
        exact word_append (w := []) (by simp) (by simpa using .inr ends.endsInBrackets)
      simp [words, peek, ends.endsGap.noComment, none]
  rw [Cursor.skip_add, ← after]
  simp only [read, words, noComment, word, peek, ends.endsGap.noComment, if_false]
  have notEmpty : w.isEmpty = false := by simpa using some
  simp only [notEmpty, Bool.false_eq_true, if_false]
  split
  · simp
  · rw [show [] ++ [] ++ w = w from rfl, finished]
    exact ⟨rfl, rfl⟩

end Plain
end Yaml
end ApiManual
