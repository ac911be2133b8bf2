import ApiManual.Proofs.Json.Syntax
import Mathlib.Data.List.TakeWhile

/-!
# What the JSON reader accepts

The reader and the grammar agree: a text is read as a value exactly when it is the text
of a document that spells this value (`parse?_eq_some_iff`).

Each function of the reader is compared with the part of the syntax that it reads, once
in either direction.  That it reads what is written is an induction on the tree, and how
far the fuel reaches is measured by the text itself.  That whatever it reads is written
is an induction on the fuel.  Numbers have no end of their own, so what follows one must
not go on with it (`Stops`).
-/

namespace ApiManual
namespace Json

/-! ## White space -/

theorem skipSpace_gap (g : Gap) (cs : List Char) :
    skipSpace (g.chars ++ cs) = skipSpace cs :=
  List.dropWhile_append_of_pos g.areSpaces

theorem skipSpace_cons {c : Char} (h : isSpace c = false) (cs : List Char) :
    skipSpace (c :: cs) = c :: cs := List.dropWhile_cons_of_neg (by simp [h])

theorem skipSpace_skipSpace (cs : List Char) : skipSpace (skipSpace cs) = skipSpace cs := by
  induction cs with
  | nil => rfl
  | cons c rest ih =>
    cases h : isSpace c with
    | true => simpa [skipSpace, h] using ih
    | false => rw [skipSpace_cons h, skipSpace_cons h]

/-- What is skipped is white space. -/
theorem exists_gap (cs : List Char) : ∃ g : Gap, cs = g.chars ++ skipSpace cs :=
  ⟨⟨cs.takeWhile isSpace, fun _ mem => List.mem_takeWhile_imp mem⟩,
    List.takeWhile_append_dropWhile.symm⟩

/-- What is skipped before a character is white space. -/
theorem exists_gap_of_skipSpace {cs r : List Char} (h : skipSpace cs = r) :
    ∃ g : Gap, cs = g.chars ++ r := h ▸ exists_gap cs

/-! ## Strings -/

theorem units_piece (p : Piece) (taken : List Nat) (r : List Char) :
    units taken (p.chars ++ r) = units (p.codeUnit :: taken) r := by
  cases p with
  | raw c plain =>
    obtain ⟨low, quote, slash⟩ := plain
    have high : ¬ c < ' ' := Char.not_lt.mpr low
    simp [Piece.chars, Piece.codeUnit, units, slash, high]
  | letter c known =>
    obtain ⟨e, known⟩ := Option.isSome_iff_exists.mp known
    have noUnit : c ≠ 'u' := by rintro rfl; simp [escape?] at known
    simp [Piece.chars, Piece.codeUnit, units, noUnit, known]
  | unit a b c d digits =>
    obtain ⟨n, digits⟩ := Option.isSome_iff_exists.mp digits
    simp [Piece.chars, Piece.codeUnit, units, digits]

theorem units_pieces (ps : Pieces) (taken : List Nat) (r : List Char) :
    units taken (ps.inside ++ '"' :: r) =
      some (taken.reverse ++ ps.map Piece.codeUnit, r) := by
  induction ps generalizing taken with
  | nil => simp [Pieces.inside, units]
  | cons p rest ih =>
    simpa [Pieces.inside, List.append_assoc, units_piece] using ih (p.codeUnit :: taken)

/-- What is read as a string is written as one. -/
theorem exists_pieces {cs r : List Char} {taken us : List Nat}
    (h : units taken cs = some (us, r)) :
    ∃ ps : Pieces, cs = ps.inside ++ '"' :: r ∧ us = taken.reverse ++ ps.map Piece.codeUnit := by
  fun_induction units taken cs with
  | case1 => simp at h
  | case2 taken rest =>
    obtain ⟨rfl, rfl⟩ : taken.reverse = us ∧ rest = r := by simpa using h
    exact ⟨[], by simp [Pieces.inside]⟩
  | case3 taken a b c d rest n digits ih =>
    obtain ⟨ps, rfl, rfl⟩ := ih h
    exact ⟨.unit a b c d (by simp [digits]) :: ps,
      by simp [Pieces.inside, Piece.chars], by simp [Piece.codeUnit, digits]⟩
  | case4 => simp at h
  | case5 taken c rest noUnit e known ih =>
    obtain ⟨ps, rfl, rfl⟩ := ih h
    exact ⟨.letter c (by simp [known]) :: ps,
      by simp [Pieces.inside, Piece.chars], by simp [Piece.codeUnit, known]⟩
  | case6 => simp at h
  | case7 => simp at h
  | case8 taken c rest quote _ slash high ih =>
    obtain ⟨ps, rfl, rfl⟩ := ih h
    have noSlash : c ≠ '\\' := by
      rintro rfl
      cases ps with
      | nil => exact slash _ _ rfl rfl
      | cons p more => cases p <;> exact slash _ _ rfl rfl
    exact ⟨.raw c ⟨Char.not_lt.mp high, quote, noSlash⟩ :: ps,
      by simp [Pieces.inside, Piece.chars], by simp [Piece.codeUnit]⟩

/-! ## Numbers -/

/-- Whether a character may stand in a number behind its first digit. -/
def goesOn (c : Char) : Bool := Text.isAsciiDigit c || c = '.' || c = 'e' || c = 'E'

/-- Whether a number ends before a text. -/
def Stops (r : List Char) : Prop := ∀ c ∈ r.head?, goesOn c = false

theorem Stops.nil : Stops [] := by simp [Stops]

theorem Stops.cons {c : Char} (h : goesOn c = false) (r : List Char) : Stops (c :: r) := by
  simpa [Stops] using h

theorem goesOn_of_isSpace {c : Char} (h : isSpace c = true) : goesOn c = false := by
  simp only [isSpace, Bool.or_eq_true, decide_eq_true_eq] at h
  obtain ((rfl | rfl) | rfl) | rfl := h <;> decide

theorem Stops.gap (g : Gap) {r : List Char} (h : Stops r) : Stops (g.chars ++ r) := by
  obtain ⟨chars, areSpaces⟩ := g
  cases chars with
  | nil => exact h
  | cons c rest => exact .cons (goesOn_of_isSpace (areSpaces c (by simp))) _

/-- Digits are read up to the first character that is none. -/
theorem digits_append {ds r : List Char} (h : ∀ c ∈ ds, Text.isAsciiDigit c = true)
    (stop : ∀ c ∈ r.head?, Text.isAsciiDigit c = false) : digits (ds ++ r) = (ds, r) := by
  have rest : r.takeWhile Text.isAsciiDigit = [] ∧ r.dropWhile Text.isAsciiDigit = r := by
    cases r with
    | nil => simp
    | cons c rest => simp [stop c (by simp)]
  simp [digits, List.takeWhile_append_of_pos h, List.dropWhile_append_of_pos h, rest]

/-- What is read as digits is written as digits. -/
theorem exists_digits {cs ds r : List Char} (h : digits cs = (ds, r)) (some : ds ≠ []) :
    ∃ row : Digits, row.chars = ds ∧ cs = row.chars ++ r := by
  obtain ⟨rfl, rfl⟩ : cs.takeWhile Text.isAsciiDigit = ds ∧ _ = r := by simpa [digits] using h
  exact ⟨⟨_, some, fun _ mem => List.mem_takeWhile_imp mem⟩, rfl,
    List.takeWhile_append_dropWhile.symm⟩

theorem Stops.noDigit {r : List Char} (h : Stops r) :
    ∀ c ∈ r.head?, Text.isAsciiDigit c = false := by
  intro c mem
  have := h c mem
  simp only [goesOn, Bool.or_eq_false_iff] at this
  exact this.1.1.1

theorem Digits.exists_cons (ds : Digits) :
    ∃ d rest, ds.chars = d :: rest ∧ Text.isAsciiDigit d = true := by
  obtain ⟨d, rest, eq⟩ := List.exists_cons_of_ne_nil ds.notEmpty
  exact ⟨d, rest, eq, ds.areDigits d (by simp [eq])⟩

theorem exponent?_append (e : Exponent) {r : List Char}
    (stop : ∀ c ∈ r.head?, Text.isAsciiDigit c = false) :
    exponent? (e.sign.toList ++ (e.digits.chars ++ r)) = some (e.value, r) := by
  obtain ⟨letter, isLetter, sign, isSign, ds⟩ := e
  have read := digits_append ds.areDigits stop
  cases sign with
  | none =>
    obtain ⟨d, rest, eq, isDigit⟩ := ds.exists_cons
    have noSign : d ≠ '-' ∧ d ≠ '+' := by
      constructor <;> rintro rfl <;> exact absurd isDigit (by decide)
    rw [eq, List.cons_append] at read
    simp [exponent?, eq, read, noSign, Exponent.value]
  | some s =>
    obtain rfl | rfl := isSign s rfl
    · simp [exponent?, read, ds.notEmpty, Exponent.value]
    · simp [exponent?, read, ds.notEmpty, Exponent.value]

/-- What is read as an exponent behind its letter is written as one. -/
theorem exists_exponent {cs r : List Char} {k : Int} {letter : Char}
    (h : exponent? cs = some (k, r)) (isLetter : letter = 'e' ∨ letter = 'E') :
    ∃ e : Exponent, letter :: cs = e.chars ++ r ∧ e.value = k := by
  have unsigned {negative : Bool} {cs : List Char}
      (read : (if (digits cs).1.isEmpty then none else some
        (if negative then -(Text.ofAsciiDigits (digits cs).1 : Int)
          else (Text.ofAsciiDigits (digits cs).1 : Int), (digits cs).2)) = some (k, r)) :
      ∃ ds : Digits, cs = ds.chars ++ r ∧
        (if negative then -(Text.ofAsciiDigits ds.chars : Int)
          else Text.ofAsciiDigits ds.chars) = k := by
    split at read
    · cases read
    · rename_i notEmpty
      obtain ⟨ds, eq, written⟩ :=
        exists_digits (Prod.eta (digits cs)).symm (by simpa using notEmpty)
      simp only [Option.some.injEq, Prod.mk.injEq] at read
      exact ⟨ds, by rw [← read.2]; exact written, by rw [eq]; exact read.1⟩
  unfold exponent? at h
  split at h
  rename_i negative cs' sign
  split at sign
  · obtain ⟨rfl, rfl⟩ : true = negative ∧ _ = cs' := by simpa using sign
    obtain ⟨ds, rfl, value⟩ := unsigned h
    exact ⟨⟨letter, isLetter, some '-', by simp, ds⟩, by simp [Exponent.chars],
      by simpa [Exponent.value] using value⟩
  · obtain ⟨rfl, rfl⟩ : false = negative ∧ _ = cs' := by simpa using sign
    obtain ⟨ds, rfl, value⟩ := unsigned h
    exact ⟨⟨letter, isLetter, some '+', by simp, ds⟩, by simp [Exponent.chars],
      by simpa [Exponent.value] using value⟩
  · obtain ⟨rfl, rfl⟩ : false = negative ∧ _ = cs' := by simpa using sign
    obtain ⟨ds, rfl, value⟩ := unsigned h
    exact ⟨⟨letter, isLetter, none, by simp, ds⟩, by simp [Exponent.chars],
      by simpa [Exponent.value] using value⟩

/-- Reads the fraction of a number; without a point there is none. -/
def fraction? (cs : List Char) : Option (List Char × List Char × Bool) :=
  match cs with
  | '.' :: r =>
    let (ds, r) := digits r
    if ds.isEmpty then none else some (ds, r, false)
  | r => some ([], r, true)

/-- Reads the exponent of a number and makes a numeral of it; without a letter there is
none. -/
def withExponent? (whole fraction : List Char) (isWhole : Bool) (cs : List Char) :
    Option (Numeral × List Char) :=
  match cs with
  | c :: r =>
    if c = 'e' || c = 'E' then
      (exponent? r).map fun (e, r) => (⟨whole, fraction, e, false⟩, r)
    else some (⟨whole, fraction, 0, isWhole⟩, cs)
  | [] => some (⟨whole, fraction, 0, isWhole⟩, [])

/-- Behind its first digits a numeral is read part by part. -/
theorem numeral?_of_digits {cs whole rest : List Char} (read : digits cs = (whole, rest)) :
    numeral? cs =
      if whole.isEmpty || (whole.length ≠ 1 && whole.head? = some '0') then none
      else match fraction? rest with
        | none => none
        | some (fraction, rest, isWhole) => withExponent? whole fraction isWhole rest := by
  unfold numeral?
  simp only [read]
  split <;> rfl

/-- A numeral is read part by part. -/
theorem numeral?_eq (cs : List Char) :
    numeral? cs =
      if (digits cs).1.isEmpty || ((digits cs).1.length ≠ 1 && (digits cs).1.head? = some '0') then
        none
      else (fraction? (digits cs).2).bind fun (fraction, rest, isWhole) =>
        withExponent? (digits cs).1 fraction isWhole rest := by
  cases read : digits cs with
  | mk whole rest =>
    rw [numeral?_of_digits read]
    cases fraction? rest <;> rfl

theorem withExponent?_append (n : Number) {r : List Char} (h : Stops r) (whole fraction : List Char)
    (isWhole : Bool) :
    withExponent? whole fraction isWhole (n.exponentChars ++ r) =
      some (⟨whole, fraction, (n.exponent.map Exponent.value).getD 0,
        isWhole && n.exponent.isNone⟩, r) := by
  cases exponent : n.exponent with
  | none =>
    cases r with
    | nil => simp [withExponent?, Number.exponentChars, exponent]
    | cons c rest =>
      have stop := h c (by simp)
      simp only [goesOn, Bool.or_eq_false_iff, decide_eq_false_iff_not] at stop
      simp [withExponent?, Number.exponentChars, exponent, stop]
  | some e =>
    have read := exponent?_append e h.noDigit
    simp [withExponent?, Number.exponentChars, exponent, Exponent.chars, e.isLetter, read]

theorem fraction?_append (n : Number) {r : List Char}
    (stop : ∀ c ∈ r.head?, Text.isAsciiDigit c = false ∧ c ≠ '.') :
    fraction? (n.fractionChars ++ r) = some (n.fractionDigits, r, n.fraction.isNone) := by
  cases fraction : n.fraction with
  | none =>
    cases r with
    | nil => simp [fraction?, Number.fractionChars, Number.fractionDigits, fraction]
    | cons c rest =>
      have noPoint := (stop c (by simp)).2
      simp [fraction?, Number.fractionChars, Number.fractionDigits, fraction, noPoint]
  | some ds =>
    have read := digits_append ds.areDigits fun c mem => (stop c mem).1
    simp [fraction?, Number.fractionChars, Number.fractionDigits, fraction, read, ds.notEmpty]

theorem stop_exponentChars (n : Number) {r : List Char} (h : Stops r) :
    ∀ c ∈ (n.exponentChars ++ r).head?, Text.isAsciiDigit c = false ∧ c ≠ '.' := by
  cases exponent : n.exponent with
  | none =>
    intro c mem
    have stop := h c (by simpa [Number.exponentChars, exponent] using mem)
    simp only [goesOn, Bool.or_eq_false_iff, decide_eq_false_iff_not] at stop
    exact ⟨stop.1.1.1, stop.1.1.2⟩
  | some e =>
    intro c mem
    obtain rfl : e.letter = c := by
      simpa [Number.exponentChars, exponent, Exponent.chars] using mem
    obtain eq | eq := e.isLetter <;> rw [eq] <;> decide

theorem stop_fractionChars (n : Number) {r : List Char} (h : Stops r) :
    ∀ c ∈ (n.fractionChars ++ (n.exponentChars ++ r)).head?, Text.isAsciiDigit c = false := by
  cases fraction : n.fraction with
  | none =>
    simpa [Number.fractionChars, fraction] using fun c mem => (stop_exponentChars n h c mem).1
  | some ds => simp [Number.fractionChars, fraction]; decide

theorem numeral?_append (n : Number) {r : List Char} (h : Stops r) :
    numeral? (n.unsigned ++ r) = some (n.numeral, r) := by
  have read : digits (n.unsigned ++ r) =
      (n.whole.chars, n.fractionChars ++ (n.exponentChars ++ r)) := by
    simpa [Number.unsigned] using digits_append n.whole.areDigits (stop_fractionChars n h)
  have allowed : ¬ (n.whole.chars = [] ∨
      n.whole.chars.length ≠ 1 ∧ n.whole.chars.head? = some '0') := by
    rintro (empty | ⟨long, zero⟩)
    · exact n.whole.notEmpty empty
    · exact long (by simp [n.noZero zero])
  rw [numeral?_eq, read, if_neg (by simpa using allowed),
    fraction?_append n (stop_exponentChars n h), Option.bind_some]
  exact withExponent?_append n h _ _ _

theorem number?_append (n : Number) {r : List Char} (h : Stops r) :
    number? (n.chars ++ r) = some (n.scalar, r) := by
  have read := numeral?_append n h
  cases sign : n.negative with
  | true => simp [number?, Number.chars, Number.scalar, sign, read]
  | false =>
    obtain ⟨d, rest, eq, isDigit⟩ := n.whole.exists_cons
    have noSign : d ≠ '-' := by rintro rfl; exact absurd isDigit (by decide)
    simp only [Number.unsigned, eq, List.cons_append, List.append_assoc] at read
    simp [number?, Number.chars, Number.unsigned, Number.scalar, sign, eq, noSign, read]

/-- What is read as a fraction is written as one. -/
theorem exists_fraction {cs f r : List Char} {isWhole : Bool}
    (h : fraction? cs = some (f, r, isWhole)) :
    ∃ fraction : Option Digits, cs = (fraction.map fun ds => '.' :: ds.chars).getD [] ++ r ∧
      (fraction.map Digits.chars).getD [] = f ∧ fraction.isNone = isWhole := by
  unfold fraction? at h
  split at h
  · split at h
    rename_i ds rest read
    split at h
    · cases h
    · rename_i notEmpty
      obtain ⟨row, rfl, rfl⟩ := exists_digits read (by simpa using notEmpty)
      cases h
      exact ⟨some row, by simp, rfl, rfl⟩
  · cases h
    exact ⟨none, by simp, rfl, rfl⟩

/-- What is read behind the fraction is an exponent or nothing. -/
theorem exists_withExponent {whole fraction cs r : List Char} {isWhole : Bool} {k : Numeral}
    (h : withExponent? whole fraction isWhole cs = some (k, r)) :
    ∃ e : Option Exponent, cs = (e.map Exponent.chars).getD [] ++ r ∧
      ⟨whole, fraction, (e.map Exponent.value).getD 0, isWhole && e.isNone⟩ = k := by
  unfold withExponent? at h
  split at h
  · rename_i c rest
    split at h
    · rename_i isLetter
      obtain ⟨⟨n, r'⟩, read, eq⟩ := Option.map_eq_some_iff.mp h
      obtain ⟨rfl, rfl⟩ : _ = k ∧ r' = r := by simpa using eq
      obtain ⟨e, written, rfl⟩ := exists_exponent read (by simpa using isLetter)
      exact ⟨some e, by simpa using written, by simp⟩
    · cases h
      exact ⟨none, by simp, by simp⟩
  · cases h
    exact ⟨none, by simp, by simp⟩

/-- What is read as a numeral is written as a number. -/
theorem exists_number_unsigned {cs r : List Char} {k : Numeral} (h : numeral? cs = some (k, r))
    (negative : Bool) :
    ∃ n : Number, n.negative = negative ∧ cs = n.unsigned ++ r ∧ n.numeral = k := by
  rw [numeral?_eq] at h
  split at h
  · cases h
  rename_i allowed
  obtain ⟨notEmpty, noZero⟩ : (digits cs).1 ≠ [] ∧
      ¬ ((digits cs).1.length ≠ 1 ∧ (digits cs).1.head? = some '0') := by
    simpa [not_or] using allowed
  obtain ⟨⟨f, rest, isWhole⟩, readFraction, readExponent⟩ := Option.bind_eq_some_iff.mp h
  obtain ⟨whole, eq, written⟩ := exists_digits (Prod.eta (digits cs)).symm notEmpty
  obtain ⟨fraction, behindWhole, fractionDigits, noFraction⟩ := exists_fraction readFraction
  obtain ⟨exponent, behindFraction, value⟩ := exists_withExponent readExponent
  rw [← eq] at noZero value
  refine ⟨⟨negative, whole, fun zero => ?_, fraction, exponent⟩, rfl, ?_, ?_⟩
  · have one : whole.chars.length = 1 := by
      by_contra long
      exact noZero ⟨long, zero⟩
    obtain ⟨d, single⟩ := List.length_eq_one_iff.mp one
    simpa [single] using zero
  · rw [written, behindWhole, behindFraction]
    simp [Number.unsigned, Number.fractionChars, Number.exponentChars]
  · rw [← value, ← fractionDigits, ← noFraction]
    rfl

/-- What is read as a number is written as one. -/
theorem exists_number {cs r : List Char} {s : Scalar} (h : number? cs = some (s, r)) :
    ∃ n : Number, cs = n.chars ++ r ∧ n.scalar = s := by
  unfold number? at h
  split at h
  · obtain ⟨⟨k, r'⟩, read, eq⟩ := Option.map_eq_some_iff.mp h
    obtain ⟨rfl, rfl⟩ : k.value true = s ∧ r' = r := by simpa using eq
    obtain ⟨n, sign, rfl, rfl⟩ := exists_number_unsigned read true
    exact ⟨n, by simp [Number.chars, sign], by simp [Number.scalar, sign]⟩
  · obtain ⟨⟨k, r'⟩, read, eq⟩ := Option.map_eq_some_iff.mp h
    obtain ⟨rfl, rfl⟩ : k.value false = s ∧ r' = r := by simpa using eq
    obtain ⟨n, sign, rfl, rfl⟩ := exists_number_unsigned read false
    exact ⟨n, by simp [Number.chars, sign], by simp [Number.scalar, sign]⟩

/-! ## Atoms -/

/-- The first character of a number. -/
theorem Number.exists_cons (n : Number) :
    ∃ c rest, n.chars = c :: rest ∧ (c = '-' ∨ Text.isAsciiDigit c = true) := by
  cases sign : n.negative with
  | true => exact ⟨'-', n.unsigned, by simp [Number.chars, sign], .inl rfl⟩
  | false =>
    obtain ⟨d, rest, eq, isDigit⟩ := n.whole.exists_cons
    exact ⟨d, rest ++ (n.fractionChars ++ n.exponentChars),
      by simp [Number.chars, Number.unsigned, sign, eq], .inr isDigit⟩

theorem afterWord?_eq_some {word cs r : List Char} (h : afterWord? word cs = some r) :
    cs = word ++ r := by
  unfold afterWord? at h
  split at h
  · rename_i isPrefix
    obtain ⟨rest, rfl⟩ := List.isPrefixOf_iff_prefix.mp isPrefix
    simpa using h
  · cases h

theorem afterWord?_eq_none {word : List Char} {c : Char} (differs : ∀ d ∈ word.head?, d ≠ c)
    (some : word ≠ []) (cs : List Char) : afterWord? word (c :: cs) = none := by
  obtain ⟨d, rest, rfl⟩ := List.exists_cons_of_ne_nil some
  have : d ≠ c := differs d rfl
  simp [afterWord?, this]

theorem bare?_word (w : Word) (r : List Char) : bare? (w.chars ++ r) = some (w.scalar, r) := by
  cases w <;> rfl

theorem bare?_number (n : Number) {r : List Char} (h : Stops r) :
    bare? (n.chars ++ r) = some (n.scalar, r) := by
  have read := number?_append n h
  obtain ⟨c, rest, eq, first⟩ := n.exists_cons
  have noLetter : ∀ d ∈ ['n', 't', 'f'], d ≠ c := by
    rintro d mem rfl
    simp only [List.mem_cons, List.not_mem_nil, or_false] at mem
    obtain rfl | rfl | rfl := mem <;> exact absurd first (by decide)
  rw [eq, List.cons_append] at read ⊢
  rw [bare?, afterWord?_eq_none (by simpa using noLetter 'n' (by simp)) (by decide),
    afterWord?_eq_none (by simpa using noLetter 't' (by simp)) (by decide),
    afterWord?_eq_none (by simpa using noLetter 'f' (by simp)) (by decide)]
  exact read

/-- What is read as a scalar without quotes is written as a word or a number. -/
theorem exists_bare {cs r : List Char} {s : Scalar} (h : bare? cs = some (s, r)) :
    ∃ a : Atom, cs = a.chars ++ r ∧ a.scalar = s := by
  unfold bare? at h
  split at h
  · rename_i rest read
    cases h
    exact ⟨.word .null, afterWord?_eq_some read, rfl⟩
  split at h
  · rename_i rest read
    cases h
    exact ⟨.word .yes, afterWord?_eq_some read, rfl⟩
  split at h
  · rename_i rest read
    cases h
    exact ⟨.word .no, afterWord?_eq_some read, rfl⟩
  · obtain ⟨n, rfl, rfl⟩ := exists_number h
    exact ⟨.number n, rfl, rfl⟩

/-! ## Values -/

@[simp] theorem value_skipSpace (fuel : Nat) (cs : List Char) :
    value fuel (skipSpace cs) = value fuel cs := by
  cases fuel with
  | zero => rfl
  | succ fuel => simp only [value, skipSpace_skipSpace]

@[simp] theorem items_skipSpace (fuel : Nat) (cs : List Char) :
    items fuel (skipSpace cs) = items fuel cs := by
  cases fuel with
  | zero => rfl
  | succ fuel => simp only [items, value_skipSpace]

@[simp] theorem members_skipSpace (fuel : Nat) (cs : List Char) :
    members fuel (skipSpace cs) = members fuel cs := by
  cases fuel with
  | zero => rfl
  | succ fuel => simp only [members, skipSpace_skipSpace]

theorem value_gap (fuel : Nat) (g : Gap) (cs : List Char) :
    value fuel (g.chars ++ cs) = value fuel cs := by
  rw [← value_skipSpace, skipSpace_gap, value_skipSpace]

theorem members_gap (fuel : Nat) (g : Gap) (cs : List Char) :
    members fuel (g.chars ++ cs) = members fuel cs := by
  rw [← members_skipSpace, skipSpace_gap, members_skipSpace]

/-- A character at which neither white space nor the end of brackets starts. -/
def Opens (c : Char) : Prop := isSpace c = false ∧ c ≠ ']' ∧ c ≠ '\x7d'

theorem opens_of_number {c : Char} (h : c = '-' ∨ Text.isAsciiDigit c = true) : Opens c := by
  refine ⟨?_, ?_, ?_⟩
  · by_contra space
    simp only [isSpace, Bool.not_eq_false, Bool.or_eq_true, decide_eq_true_eq] at space
    obtain ((rfl | rfl) | rfl) | rfl := space <;> exact absurd h (by decide)
  · rintro rfl
    exact absurd h (by decide)
  · rintro rfl
    exact absurd h (by decide)

/-- The first character of a tree. -/
theorem Tree.exists_cons (t : Tree) : ∃ c rest, t.chars = c :: rest ∧ Opens c := by
  cases t with
  | atom a =>
    cases a with
    | text ps => exact ⟨'"', _, rfl, by simp [Opens, isSpace]⟩
    | number n =>
      obtain ⟨c, rest, eq, first⟩ := n.exists_cons
      exact ⟨c, rest, eq, opens_of_number first⟩
    | word w => cases w <;> exact ⟨_, _, rfl, by simp [Opens, isSpace]⟩
  | emptyList => exact ⟨'[', _, rfl, by simp [Opens, isSpace]⟩
  | list => exact ⟨'[', _, rfl, by simp [Opens, isSpace]⟩
  | emptyObject => exact ⟨'\x7b', _, rfl, by simp [Opens, isSpace]⟩
  | object => exact ⟨'\x7b', _, rfl, by simp [Opens, isSpace]⟩

theorem value_of_bare {c : Char} {rest r : List Char} {s : Scalar} (fuel : Nat)
    (space : isSpace c = false) (bare : c ≠ '"' ∧ c ≠ '[' ∧ c ≠ '\x7b')
    (read : bare? (c :: rest) = some (s, r)) :
    value (fuel + 1) (c :: rest) = some (.scalar s, r) := by
  obtain ⟨noQuote, noBracket, noBrace⟩ := bare
  simp [value, skipSpace_cons space, noQuote, noBracket, noBrace, read]

theorem value_atom (a : Atom) (fuel : Nat) {r : List Char} (h : Stops r) :
    value (fuel + 1) (a.chars ++ r) = some (.scalar a.scalar, r) := by
  cases a with
  | text ps =>
    have read := units_pieces ps [] r
    simp [value, Atom.chars, Pieces.chars, skipSpace, isSpace, string, read, Pieces.text,
      Value.text, Atom.scalar]
  | number n =>
    have read := bare?_number n h
    obtain ⟨c, rest, eq, first⟩ := n.exists_cons
    have bare : c ≠ '"' ∧ c ≠ '[' ∧ c ≠ '\x7b' := by
      refine ⟨?_, ?_, ?_⟩ <;> rintro rfl <;> exact absurd first (by decide)
    simp only [eq, List.cons_append] at read
    simpa only [Atom.chars, Atom.scalar, eq, List.cons_append] using
      value_of_bare fuel (opens_of_number first).1 bare read
  | word w =>
    have read := bare?_word w r
    cases w with
    | null => exact value_of_bare fuel (by decide) (by decide) read
    | yes => exact value_of_bare fuel (by decide) (by decide) read
    | no => exact value_of_bare fuel (by decide) (by decide) read

theorem items_gap (fuel : Nat) (g : Gap) (cs : List Char) :
    items fuel (g.chars ++ cs) = items fuel cs := by
  rw [← items_skipSpace, skipSpace_gap, items_skipSpace]

/-- Behind a bracket that is not closed at once, items are read. -/
theorem value_list {fuel : Nat} {g : Gap} {c : Char} {rest r : List Char} {vs : List Value}
    (opens : Opens c) (read : items fuel (g.chars ++ c :: rest) = some (vs, r)) :
    value (fuel + 1) ('[' :: (g.chars ++ c :: rest)) = some (.list vs, r) := by
  obtain ⟨noSpace, noEnd, -⟩ := opens
  rw [items_gap] at read
  simp [value, skipSpace_cons (c := '[') (by decide), skipSpace_gap, skipSpace_cons noSpace, noEnd,
    read]

/-- Behind a brace that is not closed at once, members are read. -/
theorem value_object {fuel : Nat} {g : Gap} {c : Char} {rest r : List Char}
    {es : List (Scalar × Value)} (opens : Opens c)
    (read : members fuel (g.chars ++ c :: rest) = some (es, r)) :
    value (fuel + 1) ('\x7b' :: (g.chars ++ c :: rest)) = some (.map es, r) := by
  obtain ⟨noSpace, -, noEnd⟩ := opens
  rw [members_gap] at read
  simp [value, skipSpace_cons (c := '\x7b') (by decide), skipSpace_gap, skipSpace_cons noSpace,
    noEnd, read]

theorem quote_opens : Opens '"' := by simp [Opens, isSpace]

/-- The first character of items. -/
theorem Items.exists_cons (is : Items) :
    ∃ (g : Gap) (c : Char) (rest : List Char), is.chars = g.chars ++ c :: rest ∧ Opens c := by
  cases is with
  | last before item after =>
    obtain ⟨c, rest, eq, opens⟩ := item.exists_cons
    exact ⟨before, c, rest ++ (after.chars ++ [']']), by simp [Items.chars, eq], opens⟩
  | more before item after more =>
    obtain ⟨c, rest, eq, opens⟩ := item.exists_cons
    exact ⟨before, c, rest ++ (after.chars ++ ',' :: more.chars), by simp [Items.chars, eq], opens⟩

/-- The first character of members. -/
theorem Members.exists_cons (ms : Members) :
    ∃ (g : Gap) (rest : List Char), ms.chars = g.chars ++ '"' :: rest := by
  cases ms with
  | last before key behindKey behindColon value after =>
    refine ⟨before, key.inside ++ '"' :: (behindKey.chars ++ ':' :: (behindColon.chars ++
      (value.chars ++ (after.chars ++ ['\x7d'])))), ?_⟩
    simp [Members.chars, Pieces.chars]
  | more before key behindKey behindColon value after more =>
    refine ⟨before, key.inside ++ '"' :: (behindKey.chars ++ ':' :: (behindColon.chars ++
      (value.chars ++ (after.chars ++ ',' :: more.chars)))), ?_⟩
    simp [Members.chars, Pieces.chars]

theorem stops_bracket (r : List Char) : Stops (']' :: r) := .cons (by decide) r
theorem stops_brace (r : List Char) : Stops ('\x7d' :: r) := .cons (by decide) r
theorem stops_comma (r : List Char) : Stops (',' :: r) := .cons (by decide) r

mutual

/-- What a tree spells is read from its text. -/
theorem value_chars (t : Tree) (fuel : Nat) {r : List Char} (enough : 2 * t.chars.length ≤ fuel)
    (stops : Stops r) : value fuel (t.chars ++ r) = some (t.value, r) := by
  cases fuel with
  | zero =>
    obtain ⟨c, rest, eq, -⟩ := t.exists_cons
    simp [eq] at enough
  | succ fuel =>
    cases t with
    | atom a => exact value_atom a fuel stops
    | emptyList inside =>
      simp [Tree.chars, Tree.value, value, skipSpace_cons (c := '[') (by decide), skipSpace_gap,
        skipSpace_cons (c := ']') (by decide)]
    | list is =>
      simp only [Tree.chars, List.length_cons] at enough
      have read := items_chars is fuel (r := r) (show 2 * is.chars.length ≤ fuel by omega)
      obtain ⟨g, c, rest, eq, opens⟩ := is.exists_cons
      simp only [eq, List.append_assoc, List.cons_append] at read
      simpa only [Tree.chars, Tree.value, eq, List.append_assoc, List.cons_append] using
        value_list opens read
    | emptyObject inside =>
      simp [Tree.chars, Tree.value, value, skipSpace_cons (c := '\x7b') (by decide), skipSpace_gap,
        skipSpace_cons (c := '\x7d') (by decide)]
    | object ms =>
      simp only [Tree.chars, List.length_cons] at enough
      have read := members_chars ms fuel (r := r) (show 2 * ms.chars.length ≤ fuel by omega)
      obtain ⟨g, rest, eq⟩ := ms.exists_cons
      simp only [eq, List.append_assoc, List.cons_append] at read
      simpa only [Tree.chars, Tree.value, eq, List.append_assoc, List.cons_append] using
        value_object quote_opens read

/-- What items spell is read from their text. -/
theorem items_chars (is : Items) (fuel : Nat) {r : List Char}
    (enough : 2 * is.chars.length ≤ fuel) : items fuel (is.chars ++ r) = some (is.values, r) := by
  cases is with
  | last before item after =>
    simp only [Items.chars, List.length_append, List.length_cons] at enough
    obtain ⟨fuel, rfl⟩ : ∃ n, fuel = n + 1 := ⟨fuel - 1, by omega⟩
    have read := value_chars item fuel (by omega) ((stops_bracket r).gap after)
    simp [Items.chars, Items.values, items, value_gap, read, skipSpace_gap,
      skipSpace_cons (c := ']') (by decide)]
  | more before item after rest =>
    simp only [Items.chars, List.length_append, List.length_cons] at enough
    obtain ⟨fuel, rfl⟩ : ∃ n, fuel = n + 1 := ⟨fuel - 1, by omega⟩
    have read := value_chars item fuel (by omega)
      ((stops_comma (rest.chars ++ r)).gap after)
    have more := items_chars rest fuel (r := r) (by omega)
    simp [Items.chars, Items.values, items, value_gap, read, more, skipSpace_gap,
      skipSpace_cons (c := ',') (by decide)]

/-- What members spell is read from their text. -/
theorem members_chars (ms : Members) (fuel : Nat) {r : List Char}
    (enough : 2 * ms.chars.length ≤ fuel) :
    members fuel (ms.chars ++ r) = some (ms.entries, r) := by
  cases ms with
  | last before key behindKey behindColon item after =>
    simp only [Members.chars, List.length_append, List.length_cons] at enough
    obtain ⟨fuel, rfl⟩ : ∃ n, fuel = n + 1 := ⟨fuel - 1, by omega⟩
    have read := value_chars item fuel (by omega) ((stops_brace r).gap after)
    simp [Members.chars, Members.entries, members, Pieces.chars, string, units_pieces, Pieces.text,
      value_gap, read, skipSpace_gap, skipSpace_cons (c := '"') (by decide),
      skipSpace_cons (c := ':') (by decide), skipSpace_cons (c := '\x7d') (by decide)]
  | more before key behindKey behindColon item after rest =>
    simp only [Members.chars, List.length_append, List.length_cons] at enough
    obtain ⟨fuel, rfl⟩ : ∃ n, fuel = n + 1 := ⟨fuel - 1, by omega⟩
    have read := value_chars item fuel (by omega)
      ((stops_comma (rest.chars ++ r)).gap after)
    have more := members_chars rest fuel (r := r) (by omega)
    simp [Members.chars, Members.entries, members, Pieces.chars, string, units_pieces, Pieces.text,
      value_gap, read, more, skipSpace_gap, skipSpace_cons (c := '"') (by decide),
      skipSpace_cons (c := ':') (by decide), skipSpace_cons (c := ',') (by decide)]

end

/-- What is read as a string is written between quotes. -/
theorem exists_string {cs r : List Char} {taken : List Char}
    (h : string cs = some (taken, r)) :
    ∃ ps : Pieces, '"' :: cs = ps.chars ++ r ∧ ps.text = String.ofList taken := by
  obtain ⟨⟨us, r'⟩, read, eq⟩ := Option.map_eq_some_iff.mp h
  obtain ⟨rfl, rfl⟩ : joinPairs us = taken ∧ r' = r := by simpa using eq
  obtain ⟨ps, rfl, rfl⟩ := exists_pieces read
  exact ⟨ps, by simp [Pieces.chars], rfl⟩

/-- With so much fuel, whatever is read as a value, as items or as members is written as
such. -/
structure ReadsSyntax (fuel : Nat) : Prop where
  value {cs r : List Char} {v : Value} : value fuel cs = some (v, r) →
    ∃ (g : Gap) (t : Tree), cs = g.chars ++ (t.chars ++ r) ∧ t.value = v
  items {cs r : List Char} {vs : List Value} : items fuel cs = some (vs, r) →
    ∃ is : Items, cs = is.chars ++ r ∧ is.values = vs
  members {cs r : List Char} {es : List (Scalar × Value)} : members fuel cs = some (es, r) →
    ∃ ms : Members, cs = ms.chars ++ r ∧ ms.entries = es

namespace ReadsSyntax

variable {fuel : Nat} {cs r : List Char}

theorem exists_tree (ih : ReadsSyntax fuel) {v : Value}
    (h : Json.value (fuel + 1) cs = some (v, r)) :
    ∃ (g : Gap) (t : Tree), cs = g.chars ++ (t.chars ++ r) ∧ t.value = v := by
  obtain ⟨g, written⟩ := exists_gap cs
  unfold Json.value at h
  split at h
  · rename_i r₁ front
    obtain ⟨⟨s, r₂⟩, read, eq⟩ := Option.map_eq_some_iff.mp h
    obtain ⟨ps, inside, text⟩ := exists_string read
    cases eq
    exact ⟨g, .atom (.text ps), by rw [written, front, inside]; rfl,
      by rw [← text]; rfl⟩
  · rename_i r₁ front
    split at h
    · rename_i r₂ close
      cases h
      obtain ⟨inside, rfl⟩ := exists_gap_of_skipSpace close
      exact ⟨g, .emptyList inside, by rw [written, front]; simp [Tree.chars], rfl⟩
    · obtain ⟨⟨vs, r₂⟩, read, eq⟩ := Option.map_eq_some_iff.mp h
      cases eq
      rw [items_skipSpace] at read
      obtain ⟨is, rfl, rfl⟩ := ih.items read
      exact ⟨g, .list is, by rw [written, front]; rfl, rfl⟩
  · rename_i r₁ front
    split at h
    · rename_i r₂ close
      cases h
      obtain ⟨inside, rfl⟩ := exists_gap_of_skipSpace close
      exact ⟨g, .emptyObject inside, by rw [written, front]; simp [Tree.chars], rfl⟩
    · obtain ⟨⟨es, r₂⟩, read, eq⟩ := Option.map_eq_some_iff.mp h
      cases eq
      rw [members_skipSpace] at read
      obtain ⟨ms, rfl, rfl⟩ := ih.members read
      exact ⟨g, .object ms, by rw [written, front]; rfl, rfl⟩
  · obtain ⟨⟨s, r₂⟩, read, eq⟩ := Option.map_eq_some_iff.mp h
    cases eq
    obtain ⟨a, bare, rfl⟩ := exists_bare read
    exact ⟨g, .atom a, by rw [written, bare]; rfl, rfl⟩

theorem exists_items (ih : ReadsSyntax fuel) {vs : List Value}
    (h : Json.items (fuel + 1) cs = some (vs, r)) :
    ∃ is : Items, cs = is.chars ++ r ∧ is.values = vs := by
  unfold Json.items at h
  split at h
  · cases h
  rename_i v r₁ read
  obtain ⟨before, t, rfl, rfl⟩ := ih.value read
  split at h
  · rename_i r₂ close
    cases h
    obtain ⟨after, rfl⟩ := exists_gap_of_skipSpace close
    exact ⟨.last before t after, by simp [Items.chars], rfl⟩
  · rename_i r₂ comma
    obtain ⟨after, rfl⟩ := exists_gap_of_skipSpace comma
    obtain ⟨⟨vs, r₃⟩, read, eq⟩ := Option.map_eq_some_iff.mp h
    cases eq
    obtain ⟨is, rfl, rfl⟩ := ih.items read
    exact ⟨.more before t after is, by simp [Items.chars], rfl⟩
  · cases h

theorem exists_members (ih : ReadsSyntax fuel) {es : List (Scalar × Value)}
    (h : Json.members (fuel + 1) cs = some (es, r)) :
    ∃ ms : Members, cs = ms.chars ++ r ∧ ms.entries = es := by
  unfold Json.members at h
  split at h
  · rename_i r₀ quote
    obtain ⟨before, rfl⟩ := exists_gap_of_skipSpace quote
    split at h
    · cases h
    rename_i k r₁ readKey
    obtain ⟨key, inside, text⟩ := exists_string readKey
    rw [inside]
    split at h
    · rename_i r₂ colon
      obtain ⟨behindKey, rfl⟩ := exists_gap_of_skipSpace colon
      split at h
      · cases h
      rename_i v r₃ read
      obtain ⟨behindColon, t, rfl, rfl⟩ := ih.value read
      simp only [← text] at h
      split at h
      · rename_i r₄ close
        cases h
        obtain ⟨after, rfl⟩ := exists_gap_of_skipSpace close
        exact ⟨.last before key behindKey behindColon t after, by simp [Members.chars], rfl⟩
      · rename_i r₄ comma
        obtain ⟨after, rfl⟩ := exists_gap_of_skipSpace comma
        obtain ⟨⟨es, r₅⟩, read, eq⟩ := Option.map_eq_some_iff.mp h
        cases eq
        obtain ⟨ms, rfl, rfl⟩ := ih.members read
        exact ⟨.more before key behindKey behindColon t after ms, by simp [Members.chars], rfl⟩
      · cases h
    · cases h
  · cases h

end ReadsSyntax

/-- Whatever is read is written. -/
theorem readsSyntax (fuel : Nat) : ReadsSyntax fuel := by
  induction fuel with
  | zero => constructor <;> intro _ _ _ h <;> cases h
  | succ fuel ih => exact ⟨ih.exists_tree, ih.exists_items, ih.exists_members⟩

/-- The reader and the grammar agree. -/
theorem parse?_eq_some_iff (text : String) (v : Value) :
    parse? text = some v ↔ ∃ d : Document, d.chars = text.toList ∧ d.value = v := by
  constructor
  · intro h
    unfold parse? read? at h
    split at h
    · rename_i w r read
      split at h
      · rename_i finished
        cases h
        obtain ⟨before, root, written, rfl⟩ := (readsSyntax _).value read
        obtain ⟨after, rfl⟩ := exists_gap_of_skipSpace (List.isEmpty_iff.mp finished)
        exact ⟨⟨before, root, after⟩, by simp [Document.chars, written], rfl⟩
      · cases h
    · cases h
  · rintro ⟨d, written, rfl⟩
    have stops : Stops d.after.chars := by simpa using Stops.nil.gap d.after
    have read := value_chars d.root (2 * text.toList.length + 2) (r := d.after.chars)
      (by simp only [← written, Document.chars, List.length_append]; omega) stops
    have skipped : skipSpace d.after.chars = [] := by
      simpa [skipSpace] using skipSpace_gap d.after []
    have read : value (2 * text.toList.length + 2) text.toList = some (d.value, d.after.chars) := by
      rw [← value_gap _ d.before, ← List.append_assoc] at read
      rwa [show d.before.chars ++ d.root.chars ++ d.after.chars = text.toList from written] at read
    simp [parse?, read?, read, skipped]

end Json
end ApiManual
