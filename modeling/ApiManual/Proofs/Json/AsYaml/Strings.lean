import ApiManual.Proofs.Json.AsYaml.Fragment
import ApiManual.Proofs.Json.Reading
import ApiManual.Yaml.Quoted

/-!
# Strings as quoted scalars

A string of JSON whose lines are kept and that has no surrogate pair is a scalar between
double quotes, and says the same (`read_pieces`).

The scalar is read in turns: a row of what is neither space nor line end, then the gap
behind it, which is a row of spaces or one of separators, as no two of these meet.  So the
pieces of the string are cut into such turns, and the induction is on how many pieces are
left.
-/

namespace ApiManual
namespace Yaml

open Json (Piece Pieces)

namespace Cursor

theorem skip_add (c : Cursor) (m n : Nat) : c.skip (m + n) = (c.skip m).skip n := by
  induction m generalizing c with
  | zero => simp
  | succ m ih => rw [Nat.succ_add, skip_succ, skip_succ, ih]

theorem next_skip (c : Cursor) (n : Nat) : (c.skip n).next = c.skip (n + 1) :=
  (skip_add c n 1).symm

/-- The characters that are kept at the front of a text. -/
theorem span_append {c : Cursor} {kept r : List Char} (keep : Char → Bool)
    (left : c.rest = kept ++ r) (all : ∀ x ∈ kept, keep x = true)
    (stop : ∀ x ∈ r.head?, keep x = false) : c.span keep = (kept, c.skip kept.length) := by
  have row : c.rest.takeWhile keep = kept := by
    rw [left, List.takeWhile_append_of_pos all]
    cases r with
    | nil => simp
    | cons x rest => simp [stop x rfl]
  simp [span, row]

theorem peek_cons {c : Cursor} {x : Char} {r : List Char} (left : c.rest = x :: r) :
    c.peek = x := by simp [peek, left]

theorem rest_skip_append {c : Cursor} {front r : List Char} (left : c.rest = front ++ r) :
    (c.skip front.length).rest = r := by simp [left]

end Cursor

/-- A list is cut where something stops to hold. -/
theorem exists_cut (holds : α → Bool) (xs : List α) : ∃ front behind, xs = front ++ behind ∧
    (∀ x ∈ front, holds x = true) ∧ ∀ x ∈ behind.head?, holds x = false := by
  refine ⟨xs.takeWhile holds, xs.dropWhile holds, List.takeWhile_append_dropWhile.symm,
    fun x mem => List.mem_takeWhile_imp mem, fun x mem => ?_⟩
  have := List.head?_dropWhile_not holds xs
  rw [Option.mem_def.mp mem] at this
  exact this

/-- What is no gap is none of the characters that make one. -/
theorem isGap_eq_false {x : Char} :
    isGap x = false ↔ x ≠ '\t' ∧ x ≠ ' ' ∧ isBreak x = false ∧ x ≠ endChar := by
  simp [isGap, isSpaceOrEnd, isBreakOrEnd]

/-! ## One piece -/

/-- The character that a piece stands for between double quotes. -/
def pieceChar (p : Piece) : Char :=
  if Json.isLead p.codeUnit || Json.isTrail p.codeUnit then '\ufffd' else Char.ofNat p.codeUnit

/-- Without surrogate pairs each code unit stands for itself. -/
theorem joinPairs_of_noPair (us : List Nat) (h : Json.hasPair us = false) :
    Json.joinPairs us =
      us.map fun n => if Json.isLead n || Json.isTrail n then '\ufffd' else Char.ofNat n := by
  fun_induction Json.joinPairs us with
  | case1 => rfl
  | case2 => rfl
  | case3 n m rest pair => simp [Json.hasPair, pair] at h
  | case4 n m rest pair ih =>
    simp only [Json.hasPair, Bool.or_eq_false_iff] at h
    simp [ih h.2]

theorem text_eq_of_isYaml {ps : Pieces} (h : ps.isYaml = true) :
    ps.text = String.ofList (ps.map pieceChar) := by
  simp only [Pieces.isYaml, Bool.and_eq_true, Bool.not_eq_true'] at h
  rw [Pieces.text, joinPairs_of_noPair _ h.2, List.map_map]
  rfl

/-- A character is no half of a surrogate pair. -/
theorem pieceChar_raw (c : Char) (plain : ' ' ≤ c ∧ c ≠ '"' ∧ c ≠ '\\') :
    pieceChar (.raw c plain) = c := by
  have valid : c.toNat < 0xD800 ∨ (0xDFFF < c.toNat ∧ c.toNat < 0x110000) := c.valid
  have noLead : Json.isLead c.toNat = false := by simp [Json.isLead]; omega
  have noTrail : Json.isTrail c.toNat = false := by simp [Json.isTrail]; omega
  simp [pieceChar, Piece.codeUnit, noLead, noTrail]

/-- The escapes of JSON are escapes in quoted scalars too, and spell no surrogates. -/
theorem escape?_of_json {c e : Char} (h : Json.escape? c = some e) : Quoted.escape? c = some e := by
  unfold Json.escape? at h
  split at h <;> first | cases h; rfl | cases h

theorem pieceChar_letter {c e : Char} (known : (Json.escape? c).isSome)
    (h : Json.escape? c = some e) : pieceChar (.letter c known) = e := by
  have valid : e.toNat < 0xD800 ∨ (0xDFFF < e.toNat ∧ e.toNat < 0x110000) := e.valid
  have noLead : Json.isLead e.toNat = false := by simp [Json.isLead]; omega
  have noTrail : Json.isTrail e.toNat = false := by simp [Json.isTrail]; omega
  simp [pieceChar, Piece.codeUnit, h, noLead, noTrail]

/-- Both readers take four hexadecimal digits for the same number. -/
theorem ofDigits?_codeUnit {a b c d : Char} {n : Nat} (h : Json.codeUnit? a b c d = some n) :
    Text.ofDigits? 16 [a, b, c, d] = some n ∧
      (∀ x ∈ [a, b, c, d], (Text.hexValue? x).isSome = true) ∧ n ≤ 0xFFFF := by
  simp only [Json.codeUnit?, Option.bind_eq_bind, Option.bind_eq_some_iff, Option.pure_def,
    Option.some.injEq] at h
  obtain ⟨i, ha, j, hb, k, hc, l, hd, rfl⟩ := h
  have below {x : Char} {m : Nat} (hx : Text.hexValue? x = some m) : m < 16 := by
    simpa using (Option.filter_eq_some_iff.mp hx).2
  refine ⟨?_, ?_, ?_⟩
  · simp only [Text.hexValue?] at ha hb hc hd
    simp [Text.ofDigits?, ha, hb, hc, hd]
  · simp [ha, hb, hc, hd]
  · have := below ha
    have := below hb
    have := below hc
    have := below hd
    omega

namespace Quoted

/-- What a code unit stands for behind a backslash. -/
theorem codePoint_unit {n : Nat} (h : n ≤ 0xFFFF) :
    codePoint n = .ok (if Json.isLead n || Json.isTrail n then '\ufffd' else Char.ofNat n) := by
  have inside : ¬ 0x10FFFF < n := by omega
  have surrogate : (Json.isLead n || Json.isTrail n) = (0xD800 ≤ n && n ≤ 0xDFFF) := by
    rw [Bool.eq_iff_iff]
    simp only [Json.isLead, Json.isTrail, Bool.or_eq_true, Bool.and_eq_true, decide_eq_true_eq]
    omega
  simp only [codePoint, if_neg inside, surrogate]
  split <;> rfl

/-- An escape is read from behind its backslash. -/
theorem escape_piece {p : Piece} {c : Cursor} {cs r : List Char} (written : p.chars = '\\' :: cs)
    (left : c.rest = cs ++ r) : escape c = .ok ([pieceChar p], c.skip cs.length) := by
  cases p with
  | raw x plain => 
    cases written
    exact absurd rfl plain.2.2
  | letter x known =>
    obtain ⟨e, eq⟩ := Option.isSome_iff_exists.mp known
    cases written
    have peek : c.peek = x := Cursor.peek_cons left
    simp [escape, peek, escape?_of_json eq, pieceChar_letter known eq]
  | unit a b x d digits =>
    obtain ⟨n, eq⟩ := Option.isSome_iff_exists.mp digits
    obtain ⟨number, hex, small⟩ := ofDigits?_codeUnit eq
    cases written
    have peek : c.peek = 'u' := Cursor.peek_cons left
    have four : c.next.rest.take 4 = [a, b, x, d] := by simp [left]
    have ok : ([a, b, x, d].length = 4 && [a, b, x, d].all fun d => (Text.hexValue? d).isSome)
        = true := by simpa using hex
    simp only [escape, peek, show escape? 'u' = none from rfl,
      show escapeWidth? 'u' = some 4 from rfl, four, ok, if_true, number, Option.getD_some,
      codePoint_unit small]
    simp [pieceChar, Piece.codeUnit, eq]

/-- Whether a piece is read with others in one row. -/
def isSolid (p : Piece) : Bool := !p.isBlank && !p.isSeparator

theorem exists_of_isBlank {p : Piece} (blank : p.isBlank = true) : ∃ plain, p = .raw ' ' plain := by
  cases p with
  | raw x plain =>
    obtain rfl : x = ' ' := by simpa [Piece.isBlank] using blank
    exact ⟨plain, rfl⟩
  | letter | unit => cases blank

theorem exists_of_isSeparator {p : Piece} (separator : p.isSeparator = true) :
    ∃ x plain, p = .raw x plain ∧ (x = '\u2028' ∨ x = '\u2029') := by
  cases p with
  | raw x plain => exact ⟨x, plain, rfl, by simpa [Piece.isSeparator] using separator⟩
  | letter | unit => cases separator

/-- What is not read in a row is a gap. -/
theorem exists_of_not_isSolid {p : Piece} (h : isSolid p = false) :
    ∃ x plain, p = .raw x plain ∧ isGap x = true := by
  rw [isSolid, Bool.and_eq_false_iff, Bool.not_eq_false', Bool.not_eq_false'] at h
  obtain blank | separator := h
  · obtain ⟨plain, rfl⟩ := exists_of_isBlank blank
    exact ⟨_, _, rfl, rfl⟩
  · obtain ⟨x, plain, rfl, rfl | rfl⟩ := exists_of_isSeparator separator
    · exact ⟨_, _, rfl, rfl⟩
    · exact ⟨_, _, rfl, rfl⟩

/-- Of the characters that stand for themselves only the space and the separators are gaps. -/
theorem isGap_raw {x : Char} {plain : ' ' ≤ x ∧ x ≠ '"' ∧ x ≠ '\\'}
    (isYaml : (Piece.raw x plain).isYaml = true) (solid : isSolid (.raw x plain) = true) :
    isGap x = false := by
  have noNextLine : x ≠ '\x85' := by simpa [Piece.isYaml] using isYaml
  simp only [isSolid, Piece.isBlank, Piece.isSeparator, Bool.and_eq_true, Bool.not_eq_true',
    decide_eq_false_iff_not, Bool.or_eq_false_iff] at solid
  obtain ⟨noSpace, noLine, noParagraph⟩ := solid
  have low {y : Char} (below : ¬ ' ' ≤ y) : x ≠ y := by
    rintro rfl
    exact below plain.1
  have noBreak : isBreak x = false := by
    simp [isBreak, low (y := '\n') (by decide), noNextLine, noLine, noParagraph]
  exact isGap_eq_false.mpr ⟨low (by decide), noSpace, noBreak, low (by decide)⟩

/-- A piece of a row is read at once. -/
theorem solid_piece {p : Piece} {c : Cursor} {r : List Char} (isYaml : p.isYaml = true)
    (isSolid : isSolid p = true) (left : c.rest = p.chars ++ r) (fuel : Nat)
    (taken : List Char) : solid true (fuel + 1) taken c =
      solid true fuel (pieceChar p :: taken) (c.skip p.chars.length) := by
  have escaped {cs : List Char} (written : p.chars = '\\' :: cs) :
      solid true (fuel + 1) taken c =
        solid true fuel (pieceChar p :: taken) (c.skip p.chars.length) := by
    rw [written] at left
    have peek : c.peek = '\\' := Cursor.peek_cons left
    have read := escape_piece (c := c.next) (r := r) written (by simp [left])
    simp only [solid, peek, read, written]
    rfl
  cases p with
  | raw x plain =>
    have peek : c.peek = x := Cursor.peek_cons left
    have noGap : isGap x = false := isGap_raw isYaml isSolid
    simp [solid, peek, noGap, plain.2.1, plain.2.2, pieceChar_raw, Piece.chars]
  | letter x known => exact escaped rfl
  | unit a b x d digits => exact escaped rfl

/-- Whether a row ends before a text. -/
def EndsRow (r : List Char) : Prop := ∃ x rest, r = x :: rest ∧ (isGap x = true ∨ x = '"')

/-- A row of pieces is read at once. -/
theorem solid_row {ps : Pieces} {r : List Char} (isYaml : ∀ p ∈ ps, p.isYaml = true)
    (areSolid : ∀ p ∈ ps, isSolid p = true) (stop : EndsRow r) {fuel : Nat}
    (enough : ps.length < fuel) {c : Cursor} (left : c.rest = ps.inside ++ r) (taken : List Char) :
    solid true fuel taken c =
      .ok ((ps.map pieceChar).reverse ++ taken, c.skip ps.inside.length) := by
  induction ps generalizing fuel c taken with
  | nil =>
    obtain ⟨fuel, rfl⟩ : ∃ n, fuel = n + 1 := ⟨fuel - 1, by simp at enough; omega⟩
    obtain ⟨x, rest, rfl, stop⟩ := stop
    have peek : c.peek = x := Cursor.peek_cons left
    obtain gap | rfl := stop
    · simp [solid, peek, gap]
    · simp [solid, peek, isGap, isSpaceOrEnd, isBreakOrEnd, isBreak, endChar]
  | cons p more ih =>
    obtain ⟨fuel, rfl⟩ : ∃ n, fuel = n + 1 := ⟨fuel - 1, by simp at enough; omega⟩
    rw [Pieces.inside_cons, List.append_assoc] at left
    rw [solid_piece (isYaml p (by simp)) (areSolid p (by simp)) left]
    rw [ih (fun q mem => isYaml q (by simp [mem])) (fun q mem => areSolid q (by simp [mem]))
      (by simpa using enough) (Cursor.rest_skip_append left), Pieces.inside_cons,
      List.length_append, Cursor.skip_add]
    simp

/-! ## Gaps inside a string -/

/-- What is read in a row does not go on with a gap. -/
theorem endsGap_of_isSolid {ps : Pieces} (isYaml : ∀ p ∈ ps, p.isYaml = true)
    (solid : ∀ p ∈ ps.head?, isSolid p = true) (r : List Char) :
    ∃ x rest, ps.inside ++ '"' :: r = x :: rest ∧ isGap x = false := by
  cases ps with
  | nil => exact ⟨'"', r, rfl, by decide⟩
  | cons p more =>
    cases p with
    | raw x plain =>
      exact ⟨x, Pieces.inside more ++ '"' :: r, by simp [Piece.chars],
        isGap_raw (isYaml _ (by simp)) (solid _ rfl)⟩
    | letter x known =>
      exact ⟨'\\', x :: (Pieces.inside more ++ '"' :: r), by simp [Piece.chars], by decide⟩
    | unit a b x d digits =>
      exact ⟨'\\', 'u' :: a :: b :: x :: d :: (Pieces.inside more ++ '"' :: r),
        by simp [Piece.chars], by decide⟩

/-- A row of spaces is its own text. -/
theorem inside_blanks {blanks : Pieces} (areBlanks : ∀ p ∈ blanks, p.isBlank = true) :
    blanks.inside = blanks.map pieceChar ∧ ∀ x ∈ blanks.inside, x = ' ' := by
  induction blanks with
  | nil => simp
  | cons p more ih =>
    obtain ⟨same, all⟩ := ih fun q mem => areBlanks q (by simp [mem])
    obtain ⟨plain, rfl⟩ := exists_of_isBlank (areBlanks p (by simp))
    simpa [same, Piece.chars, pieceChar_raw] using all

/-- A row of spaces is read at once. -/
theorem gap_blanks {blanks more : Pieces} {r : List Char}
    (areBlanks : ∀ p ∈ blanks, p.isBlank = true) (isYaml : ∀ p ∈ more, p.isYaml = true)
    (solid : ∀ p ∈ more.head?, isSolid p = true) {c : Cursor}
    (left : c.rest = blanks.inside ++ (more.inside ++ '"' :: r)) :
    gap c = .ok (blanks.map pieceChar, c.skip blanks.inside.length) := by
  obtain ⟨x, rest, front, noGap⟩ := endsGap_of_isSolid isYaml solid r
  obtain ⟨noTab, noSpace, noBreak, noEnd⟩ := isGap_eq_false.mp noGap
  obtain ⟨same, all⟩ := inside_blanks areBlanks
  have span := Cursor.span_append (fun x => x = ' ' || x = '\t') left
    (fun y mem => by simp [all y mem]) (by simp [front, noSpace, noTab])
  have peek : (c.skip blanks.inside.length).peek = x :=
    Cursor.peek_cons (by rw [Cursor.rest_skip_append left, front])
  simp [gap, span, peek, noBreak, noEnd, ← same]
  rfl

/-- A mark of a document is one, whatever is behind the string. -/
theorem atSeparator_inside {c : Cursor} {cs r : List Char} (left : c.rest = cs ++ '"' :: r) :
    c.atSeparator = Json.isMark cs := by
  rw [Cursor.atSeparator, Json.isMark, Cursor.peekAt, left]
  match cs with
  | [] => simp
  | [a] => simp
  | [a, b] => simp
  | [a, b, d] => simp [isGap, isSpaceOrEnd, isBreakOrEnd, isBreak, endChar]
  | a :: b :: d :: e :: rest => simp [List.isPrefixOf]

/-- What lines that are kept say of a first piece. -/
theorem keepsLines_cons {p : Piece} {more : Pieces} (keeps : Json.keepsLines (p :: more) = true) :
    Json.keepsLines more = true ∧
      (p.isBlank = true → ∀ q ∈ more.head?, q.isSeparator = false) ∧
      (p.isSeparator = true →
        (∀ q ∈ more.head?, q.isBlank = false) ∧ Json.isMark (Pieces.inside more) = false) := by
  cases more with
  | nil => simp [Json.keepsLines, Json.isMark, Pieces.inside]
  | cons q rest =>
    simp only [Json.keepsLines, Bool.and_eq_true, Bool.not_eq_true', Bool.and_eq_false_iff,
      Bool.or_eq_false_iff] at keeps
    obtain ⟨⟨behindBlank, behindSeparator⟩, keepsRest⟩ := keeps
    refine ⟨keepsRest, fun blank => ?_, fun separator => ?_⟩
    · simpa [blank] using behindBlank
    · simpa [separator] using behindSeparator

/-- The lines of what is behind some pieces are kept too. -/
theorem keepsLines_behind {front more : Pieces} (keeps : Json.keepsLines (front ++ more) = true) :
    Json.keepsLines more = true := by
  induction front with
  | nil => exact keeps
  | cons p front ih => exact ih (keepsLines_cons keeps).1

/-- Where lines are kept, no separator is behind a row of spaces. -/
theorem head_behind_blanks {p : Piece} {blanks more : Pieces}
    (areBlanks : ∀ q ∈ p :: blanks, q.isBlank = true)
    (keeps : Json.keepsLines (p :: (blanks ++ more)) = true) :
    ∀ q ∈ more.head?, q.isSeparator = false := by
  induction blanks generalizing p with
  | nil => exact (keepsLines_cons keeps).2.1 (areBlanks p (by simp))
  | cons q blanks ih =>
    exact ih (fun x mem => areBlanks x (by simp [mem])) (keepsLines_cons keeps).1

/-- No spaces are skipped where there is none. -/
theorem skipSpaces {c : Cursor} {x : Char} {rest : List Char} (left : c.rest = x :: rest)
    (noSpace : x ≠ ' ') (noTab : x ≠ '\t') : c.skipWhile (fun x => x = ' ' || x = '\t') = c := by
  simp [Cursor.skipWhile, Cursor.span, left, noSpace, noTab]

/-- Line breaks are read up to what is no gap. -/
theorem breaks_end {c : Cursor} {x : Char} {rest : List Char} (noMark : c.atSeparator = false)
    (left : c.rest = x :: rest) (noGap : isGap x = false) (fuel : Nat) (taken : List Char) :
    breaks (fuel + 1) taken c = .ok (taken.reverse, c) := by
  obtain ⟨noTab, noSpace, noBreak, -⟩ := isGap_eq_false.mp noGap
  simp [breaks, noMark, skipSpaces left noSpace noTab, Cursor.peek_cons left, noBreak]

/-- A separator is a line break that stays what it is. -/
theorem breaks_separator {c : Cursor} {x : Char} {rest : List Char}
    (noMark : c.atSeparator = false) (left : c.rest = x :: rest)
    (isEither : x = '\u2028' ∨ x = '\u2029') (fuel : Nat) (taken : List Char) :
    breaks (fuel + 1) taken c = breaks fuel (x :: taken) c.next := by
  obtain rfl | rfl := isEither
  all_goals
    have stay := skipSpaces left (by decide) (by decide)
    simp [breaks, noMark, stay, Cursor.peek_cons left, isBreak, breakText]

/-- A gap that starts with a separator keeps it, and the line breaks behind it. -/
theorem gap_of_separator {c after : Cursor} {x : Char} {rest others : List Char}
    (left : c.rest = x :: rest) (isEither : x = '\u2028' ∨ x = '\u2029')
    (read : breaks (c.rest.length + 1) [] c.next = .ok (others, after)) :
    gap c = .ok (x :: others, after) := by
  have peek : c.peek = x := Cursor.peek_cons left
  have span : c.span (fun x => x = ' ' || x = '\t') = ([], c) := by
    obtain rfl | rfl := isEither <;> simp [Cursor.span, left]
  obtain rfl | rfl := isEither
  all_goals
    simp only [gap, span, peek, read, bind, Except.bind]
    rfl

theorem length_le_inside (ps : Pieces) : List.length ps ≤ ps.inside.length := by
  induction ps with
  | nil => simp
  | cons p more ih =>
    have one : 1 ≤ p.chars.length := by cases p <;> simp [Piece.chars]
    simp only [List.length_cons, Pieces.inside_cons, List.length_append]
    omega

/-- Separators are kept up to the first other piece, when no line starts with a space or is the
mark of a document. -/
theorem breaks_pieces {ps : Pieces} {r : List Char} (isYaml : ∀ p ∈ ps, p.isYaml = true)
    (keeps : Json.keepsLines ps = true) (noBlank : ∀ p ∈ ps.head?, p.isBlank = false)
    (noMark : Json.isMark ps.inside = false) {fuel : Nat} (enough : ps.length < fuel) {c : Cursor}
    (left : c.rest = ps.inside ++ '"' :: r) (taken : List Char) :
    ∃ separators more, ps = separators ++ more ∧ breaks fuel taken c =
      .ok (taken.reverse ++ separators.map pieceChar,
        c.skip (Pieces.inside separators).length) := by
  induction ps generalizing fuel c taken with
  | nil =>
    obtain ⟨fuel, rfl⟩ : ∃ n, fuel = n + 1 := ⟨fuel - 1, by simp at enough; omega⟩
    refine ⟨[], [], rfl, ?_⟩
    rw [breaks_end (by rw [atSeparator_inside left, noMark]) left (by decide)]
    simp
  | cons p more ih =>
    obtain ⟨fuel, rfl⟩ : ∃ n, fuel = n + 1 := ⟨fuel - 1, by simp at enough; omega⟩
    have stay : c.atSeparator = false := by rw [atSeparator_inside left, noMark]
    obtain ⟨keepsMore, -, behind⟩ := keepsLines_cons keeps
    cases separator : p.isSeparator with
    | true =>
      obtain ⟨noBlankBehind, noMarkBehind⟩ := behind separator
      obtain ⟨x, plain, rfl, isEither⟩ := exists_of_isSeparator separator
      have left : c.rest = x :: (Pieces.inside more ++ '"' :: r) := by simp [left, Piece.chars]
      have enough : more.length < fuel := by simpa using enough
      obtain ⟨separators, others, rfl, read⟩ := ih (fun q mem => isYaml q (by simp [mem])) keepsMore
        noBlankBehind noMarkBehind enough (c := c.next) (by simp [left]) (x :: taken)
      refine ⟨.raw x plain :: separators, others, rfl, ?_⟩
      rw [breaks_separator stay left isEither, read]
      simp [pieceChar_raw, Piece.chars]
    | false =>
      have solid : isSolid p = true := by simp [isSolid, noBlank p rfl, separator]
      refine ⟨[], p :: more, rfl, ?_⟩
      obtain ⟨x, rest, front, noGap⟩ := endsGap_of_isSolid isYaml (by simpa using solid) r
      rw [breaks_end stay (by rw [left, front]) noGap]
      simp

/-- What is no row is a gap, which says what it is. -/
theorem gap_pieces {p : Piece} {others : Pieces} {r : List Char}
    (isYaml : ∀ q ∈ p :: others, q.isYaml = true) (noSolid : isSolid p = false)
    (keeps : Json.keepsLines (p :: others) = true) {c : Cursor}
    (left : c.rest = Pieces.inside (p :: others) ++ '"' :: r) :
    ∃ run more, others = run ++ more ∧ gap c =
      .ok ((p :: run).map pieceChar, c.skip (Pieces.inside (p :: run)).length) := by
  cases separator : p.isSeparator with
  | true =>
    obtain ⟨keepsMore, -, behind⟩ := keepsLines_cons keeps
    obtain ⟨noBlank, noMark⟩ := behind separator
    obtain ⟨x, plain, rfl, isEither⟩ := exists_of_isSeparator separator
    have left : c.rest = x :: (Pieces.inside others ++ '"' :: r) := by simp [left, Piece.chars]
    have enough : List.length others < c.rest.length + 1 := by
      have := length_le_inside others
      simp only [left, List.length_cons, List.length_append]
      omega
    obtain ⟨run, more, rfl, read⟩ := breaks_pieces (fun q mem => isYaml q (by simp [mem])) keepsMore
      noBlank noMark enough (c := c.next) (r := r) (by simp [left]) []
    refine ⟨run, more, rfl, ?_⟩
    rw [gap_of_separator left isEither read]
    simp [pieceChar_raw, Piece.chars]
  | false =>
    have blank : p.isBlank = true := by simpa [isSolid, separator] using noSolid
    obtain ⟨blanks, more, rfl, areBlanks, noBlank⟩ := exists_cut Piece.isBlank others
    have areBlanks : ∀ q ∈ p :: blanks, q.isBlank = true := by simpa [blank] using areBlanks
    have noSeparator := head_behind_blanks areBlanks keeps
    have solid : ∀ q ∈ more.head?, isSolid q = true := fun q mem => by
      simp [isSolid, noBlank q mem, noSeparator q mem]
    exact ⟨blanks, more, rfl, gap_blanks areBlanks (fun q mem => isYaml q (by simp [mem])) solid
      (by rw [left, ← List.cons_append, Pieces.inside_append, List.append_assoc])⟩

theorem upToQuote_of_quote {fuel : Nat} {taken t : List Char} {c after : Cursor}
    (row : solid true (c.rest.length + 1) taken c = .ok (t, after)) (peek : after.peek = '"') :
    upToQuote true (fuel + 1) taken c = .ok (t.reverse, after.next) := by
  simp only [upToQuote, row, bind, Except.bind, peek, if_true]
  rfl

theorem upToQuote_of_gap {fuel : Nat} {taken t spaces : List Char} {c after behind : Cursor}
    (row : solid true (c.rest.length + 1) taken c = .ok (t, after)) (peek : after.peek ≠ '"')
    (blank : gap after = .ok (spaces, behind)) :
    upToQuote true (fuel + 1) taken c = upToQuote true fuel (spaces.reverse ++ t) behind := by
  simp only [upToQuote, row, bind, Except.bind, peek, if_true, if_false, blank]

/-- Pieces are read up to the quote behind them. -/
theorem upToQuote_pieces {ps : Pieces} {r : List Char} (isYaml : ∀ p ∈ ps, p.isYaml = true)
    (keeps : Json.keepsLines ps = true) {fuel : Nat} (enough : ps.length < fuel) {c : Cursor}
    (left : c.rest = ps.inside ++ '"' :: r) (taken : List Char) :
    upToQuote true fuel taken c =
      .ok (taken.reverse ++ ps.map pieceChar, c.skip (ps.inside.length + 1)) := by
  induction count : ps.length using Nat.strong_induction_on generalizing ps fuel c taken with
  | _ n ih =>
    obtain ⟨fuel, rfl⟩ : ∃ n, fuel = n + 1 := ⟨fuel - 1, by omega⟩
    -- a row, and what is behind it
    obtain ⟨row, behind, rfl, rowSolid, behindHead⟩ := exists_cut isSolid ps
    rw [Pieces.inside_append, List.append_assoc] at left
    have short : List.length row < c.rest.length + 1 := by
      have := length_le_inside row
      simp only [left, List.length_append]
      omega
    have read (stop : EndsRow (Pieces.inside behind ++ '"' :: r)) :=
      solid_row (fun p mem => isYaml p (by simp [mem])) rowSolid stop short left taken
    have behindRow := Cursor.rest_skip_append left
    cases behind with
    | nil =>
      have peek : (c.skip (Pieces.inside row).length).peek = '"' := Cursor.peek_cons behindRow
      rw [upToQuote_of_quote (read ⟨'"', r, rfl, .inr rfl⟩) peek, Cursor.next_skip]
      simp only [List.append_nil, List.reverse_append, List.reverse_reverse]
    | cons p others =>
      -- the gap behind the row, which is one piece at least
      have noSolid := behindHead p rfl
      have keeps := keepsLines_behind keeps
      obtain ⟨x, plain, rfl, firstIsGap⟩ := exists_of_not_isSolid noSolid
      obtain ⟨run, more, rfl, blank⟩ :=
        gap_pieces (fun q mem => isYaml q (by simp [mem])) noSolid keeps behindRow
      have keepsMore : Json.keepsLines more = true := keepsLines_behind (keepsLines_cons keeps).1
      rw [← List.cons_append, Pieces.inside_append, List.append_assoc] at behindRow
      have peek : (c.skip (Pieces.inside row).length).peek = x := Cursor.peek_cons behindRow
      have fewer : more.length < n ∧ more.length < fuel := by
        simp only [List.length_append, List.length_cons] at count enough
        omega
      rw [upToQuote_of_gap (read ⟨x, _, rfl, .inl firstIsGap⟩) (by simp [peek, plain.2.1]) blank,
        ih more.length fewer.1 (fun q mem => isYaml q (by simp [mem])) keepsMore fewer.2
          (Cursor.rest_skip_append behindRow) _ rfl]
      simp only [List.reverse_append, List.reverse_reverse, List.map_append, List.append_assoc,
        ← List.cons_append, Pieces.inside_append, List.length_append, Cursor.skip_add]

/-- A string of JSON is read as a quoted scalar that says the same. -/
theorem read_pieces {ps : Pieces} {r : List Char} (isYaml : ps.isYaml = true) {c : Cursor}
    (left : c.rest = ps.chars ++ r) :
    (read true c).map (fun (text, after) => (String.ofList text, after)) =
      .ok (ps.text, c.skip ps.chars.length) := by
  have ⟨pieces, keeps⟩ : (∀ p ∈ ps, p.isYaml = true) ∧ Json.keepsLines ps = true := by
    simp only [Pieces.isYaml, Bool.and_eq_true, List.all_eq_true] at isYaml
    exact isYaml.1
  have left : c.rest = '"' :: (ps.inside ++ '"' :: r) := by simp [left, Pieces.chars]
  have enough : List.length ps < c.rest.length + 1 := by
    have := length_le_inside ps
    simp only [left, List.length_cons, List.length_append]
    omega
  have behindQuote : c.next.rest = ps.inside ++ '"' :: r := by simp [left]
  have read := upToQuote_pieces pieces keeps enough behindQuote []
  simp only [Quoted.read, read]
  simp [text_eq_of_isYaml isYaml, Pieces.chars, Except.map]

end Quoted
end Yaml
end ApiManual
