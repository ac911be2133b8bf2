import ApiManual.Proofs.Json.AsYaml.Fragment
import ApiManual.Proofs.Json.Reading
import ApiManual.Yaml.Load
import Mathlib.Data.Bool.AllAny
import Mathlib.Tactic.IntervalCases

/-!
# Numbers and words as plain scalars

A number of JSON is taken for a number of YAML, and for the same one; so are the three
words.  What a plain scalar is taken for is decided by its text alone, and only then is
the number read, by other rules; so there are two facts about each kind of number, which
tag it has (`tag_number`) and what is read (`whole_number`, `fractional_number`).
-/

namespace ApiManual

/-! ## Digits -/

/-- There are ten digits. -/
theorem Text.mem_of_isAsciiDigit {d : Char} (h : isAsciiDigit d = true) :
    d ∈ ['0', '1', '2', '3', '4', '5', '6', '7', '8', '9'] := by
  simp only [isAsciiDigit, Bool.and_eq_true, decide_eq_true_eq] at h
  have low : 48 ≤ d.toNat := h.1
  have high : d.toNat ≤ 57 := h.2
  rw [← Char.ofNat_toNat d]
  generalize d.toNat = n at low high
  interval_cases n <;> decide

/-- What can be checked of ten digits holds of every digit. -/
theorem Text.forall_digit {P : Char → Prop} [DecidablePred P] {d : Char}
    (h : isAsciiDigit d = true)
    (all : ['0', '1', '2', '3', '4', '5', '6', '7', '8', '9'].all fun d => P d) : P d :=
  List.all_iff_forall_prop.1 all d (mem_of_isAsciiDigit h)

/-- A row of digits spells the same number for every reader. -/
theorem Text.ofDigits?_ten {ds : List Char} (h : ∀ d ∈ ds, isAsciiDigit d = true) :
    ofDigits? 10 ds = some (ofAsciiDigits ds) := by
  have step (n : Nat) : ds.foldl (fun acc c => acc.bind fun n =>
      ((alnumValue? c).filter (· < 10)).map (n * 10 + ·)) (some n) =
      some (ds.foldl (fun n c => n * 10 + (c.toNat - 48)) n) := by
    induction ds generalizing n with
    | nil => rfl
    | cons d rest ih =>
      have digit : ((alnumValue? d).filter (· < 10)) = some (d.toNat - 48) :=
        forall_digit (P := fun d => ((alnumValue? d).filter (· < 10)) = some (d.toNat - 48))
          (h d (by simp)) (by decide)
      simp only [List.foldl_cons, Option.bind_some, digit, Option.map_some]
      exact ih (fun c mem => h c (by simp [mem])) _
  exact step 0

namespace Binary64

/-- The sign of a decimal is the sign of its number. -/
theorem ofDecimal_true (digits : Nat) (exponent : Int) :
    ofDecimal true digits exponent = (ofDecimal false digits exponent).neg := by
  have ratio (num den : Nat) : ofRatio true num den = (ofRatio false num den).neg := by
    by_cases zero : num = 0
    · subst zero
      rfl
    -- mantissa and exponent come from the quotient alone
    obtain ⟨m, e, eq⟩ : ∃ m e, ∀ negative, ofRatio negative num den =
        if greatestExponent < e then .infinite negative else .finite negative m e :=
      ⟨_, _, fun negative => by rw [ofRatio, if_neg zero]⟩
    rw [eq, eq]
    split <;> rfl
  unfold ofDecimal
  split
  · rfl
  simp only
  split
  · rfl
  split
  · rfl
  split
  · exact ratio _ _
  · exact ratio _ _

end Binary64

namespace Json

/-! ## The texts of numbers -/

/-- The characters of numbers. -/
def isNumberChar (c : Char) : Bool :=
  Text.isAsciiDigit c || ['-', '+', '.', 'e', 'E'].contains c

/-- What can be checked of fifteen characters holds of every character of a number. -/
theorem forall_numberChar {P : Char → Prop} [DecidablePred P] {c : Char}
    (h : isNumberChar c = true)
    (digits : ['0', '1', '2', '3', '4', '5', '6', '7', '8', '9'].all fun d => P d)
    (signs : ['-', '+', '.', 'e', 'E'].all fun d => P d) : P c := by
  simp only [isNumberChar, Bool.or_eq_true, List.contains_iff_mem] at h
  obtain isDigit | sign := h
  · exact Text.forall_digit isDigit digits
  · exact List.all_iff_forall_prop.1 signs c sign

theorem Digits.areNumberChars (ds : Digits) : ∀ c ∈ ds.chars, isNumberChar c = true :=
  fun c mem => by simp [isNumberChar, ds.areDigits c mem]

theorem Exponent.areNumberChars (e : Exponent) : ∀ c ∈ e.chars, isNumberChar c = true := by
  intro c mem
  simp only [chars, List.mem_cons, List.mem_append, Option.mem_toList] at mem
  obtain rfl | sign | digit := mem
  · obtain eq | eq := e.isLetter <;> rw [eq] <;> decide
  · obtain rfl | rfl := e.isSign c sign <;> decide
  · exact e.digits.areNumberChars c digit

theorem Number.areNumberChars (n : Number) : ∀ c ∈ n.chars, isNumberChar c = true := by
  have unsigned : ∀ c ∈ n.unsigned, isNumberChar c = true := by
    intro c mem
    simp only [Number.unsigned, List.mem_append] at mem
    obtain whole | fraction | exponent := mem
    · exact n.whole.areNumberChars c whole
    · cases eq : n.fraction with
      | none => simp [fractionChars, eq] at fraction
      | some ds =>
        obtain rfl | digit : c = '.' ∨ c ∈ ds.chars := by simpa [fractionChars, eq] using fraction
        · decide
        · exact ds.areNumberChars c digit
    · cases eq : n.exponent with
      | none => simp [exponentChars, eq] at exponent
      | some e => exact e.areNumberChars c (by simpa [exponentChars, eq] using exponent)
  intro c mem
  unfold Number.chars at mem
  split at mem
  · obtain rfl | behind := List.mem_cons.mp mem
    · decide
    · exact unsigned c behind
  · exact unsigned c mem

end Json

namespace Yaml

open Json (Number isNumberChar forall_numberChar)

namespace Number

/-- What is behind the sign of a number. -/
theorem unsigned_chars (n : Json.Number) : unsigned n.chars = n.unsigned := by
  cases sign : n.negative with
  | true => simp [Json.Number.chars, sign, unsigned]
  | false =>
    obtain ⟨d, rest, eq, isDigit⟩ := n.whole.exists_cons
    have noSign : d ≠ '-' ∧ d ≠ '+' := by
      constructor <;> rintro rfl <;> exact absurd isDigit (by decide)
    simp [Json.Number.chars, sign, Json.Number.unsigned, eq, unsigned, noSign]

theorem isNegative_chars (n : Json.Number) : isNegative n.chars = n.negative := by
  cases sign : n.negative with
  | true => simp [Json.Number.chars, sign, isNegative]
  | false =>
    obtain ⟨d, rest, eq, isDigit⟩ := n.whole.exists_cons
    have noSign : d ≠ '-' := by rintro rfl; exact absurd isDigit (by decide)
    simp [Json.Number.chars, sign, Json.Number.unsigned, eq, isNegative, noSign]

/-- Without colons there is one place. -/
theorem places_of_noColon {cs : List Char} (some : cs ≠ []) (h : ∀ c ∈ cs, c ≠ ':') :
    places cs = [cs] := by
  induction cs with
  | nil => exact absurd rfl some
  | cons c rest ih =>
    have noColon := h c (by simp)
    cases rest with
    | nil => simp [places, noColon]
    | cons d more =>
      have ih := ih (by simp) fun x mem => h x (by simp [mem])
      simp only [places, List.foldr_cons] at ih ⊢
      rw [ih]
      simp [noColon]

theorem isGroup_digits (ds : Json.Digits) : isGroup ds.chars = true := by
  obtain ⟨d, rest, eq, isDigit⟩ := ds.exists_cons
  have all : ds.chars.all isGrouped = true := by
    simp only [List.all_eq_true]
    exact fun c mem => by simp [isGrouped, ds.areDigits c mem]
  rw [isGroup, all, eq]
  simp [isDigit]

theorem isExponent_chars {e : Json.Exponent} (h : e.sign.isSome = true) :
    isExponent e.chars = true := by
  obtain ⟨letter, isLetter, sign, isSign, ds⟩ := e
  obtain ⟨s, rfl⟩ := Option.isSome_iff_exists.mp h
  have signed : s = '-' ∨ s = '+' := (isSign s rfl).symm
  have digits : ∀ d ∈ ds.chars, Text.isAsciiDigit d = true := ds.areDigits
  simpa [Json.Exponent.chars, isExponent, isLetter, signed, ds.notEmpty] using digits

/-! ## What numbers are taken for -/

theorem no_colon {c : Char} (h : isNumberChar c = true) : c ≠ ':' := by
  rintro rfl
  exact absurd h (by decide)

/-- Digits are taken for a whole number unless a zero stands in front of others. -/
theorem looksWholeUnsigned_digits {ds : Json.Digits}
    (noZero : ds.chars.head? = some '0' → ds.chars = ['0']) :
    looksWholeUnsigned ds.chars = true := by
  have one : places ds.chars = [ds.chars] :=
    places_of_noColon ds.notEmpty fun c mem => no_colon (ds.areNumberChars c mem)
  have group := isGroup_digits ds
  unfold looksWholeUnsigned
  split
  · rfl
  · rename_i rest eq
    simp [eq] at noZero
  · rename_i rest eq
    simp [eq] at noZero
  · rename_i rest some _ _ eq
    exact absurd (by simpa [eq] using noZero) some
  · simp [one, group]

/-- A text without a point is taken for no decimal fraction. -/
theorem looksPlaced_of_noPoint {cs : List Char} (h : ∀ c ∈ cs, c ≠ '.') :
    looksPlaced cs = false := by
  have none : cs.dropWhile (· ≠ '.') = [] := by simpa using h
  unfold looksPlaced
  rw [none]
  split <;> simp_all

/-- Digits with a point behind them are taken for a decimal fraction, if what is behind
the point is digits and an exponent. -/
theorem looksPlaced_digits {whole fraction : Json.Digits} {e : List Char}
    (h : isExponent e = true) :
    looksPlaced (whole.chars ++ '.' :: (fraction.chars ++ e)) = true := by
  have noPoint : ∀ c ∈ whole.chars, decide (c ≠ '.') = true := by
    intro c mem
    rw [decide_eq_true_eq]
    rintro rfl
    exact absurd (whole.areDigits '.' mem) (by decide)
  have one : places whole.chars = [whole.chars] :=
    places_of_noColon whole.notEmpty fun c mem => no_colon (whole.areNumberChars c mem)
  have grouped : ∀ c ∈ fraction.chars, isGrouped c = true :=
    fun c mem => by simp [isGrouped, fraction.areDigits c mem]
  have behind : e.dropWhile isGrouped = e := by
    cases e with
    | nil => rfl
    | cons c rest =>
      have letter : c = 'e' ∨ c = 'E' := by
        cases rest with
        | nil => simp [isExponent] at h
        | cons s ds =>
          simp only [isExponent, Bool.and_eq_true, Bool.or_eq_true, decide_eq_true_eq] at h
          exact h.1.1.1
      obtain rfl | rfl := letter <;> exact List.dropWhile_cons_of_neg (by decide)
  rw [looksPlaced, List.takeWhile_append_of_pos noPoint, List.dropWhile_append_of_pos noPoint]
  simp [one, isGroup_digits, isFraction, List.dropWhile_append_of_pos grouped, behind, h]

/-- A number without a point or an exponent is taken for a whole number. -/
theorem looksWhole_chars {n : Json.Number} (h : n.fraction = none ∧ n.exponent = none) :
    looksWhole n.chars = true ∧ looksFractional n.chars = false := by
  have digits : n.unsigned = n.whole.chars := by
    simp [Json.Number.unsigned, Json.Number.fractionChars, Json.Number.exponentChars, h]
  have noPoint : ∀ c ∈ n.whole.chars, c ≠ '.' := by
    rintro c mem rfl
    exact absurd (n.whole.areDigits '.' mem) (by decide)
  obtain ⟨c, rest, eq, first⟩ := n.exists_cons
  constructor
  · rw [looksWhole, unsigned_chars, digits]
    exact looksWholeUnsigned_digits n.noZero
  · have noWord (word : List Char) : '.' :: word ≠ n.whole.chars ∧ '.' :: word ≠ n.chars := by
      constructor
      · intro same
        exact noPoint '.' (by simp [← same]) rfl
      · intro same
        rw [eq] at same
        cases same
        exact absurd first (by decide)
    have infinite :
        [".inf".toList, ".Inf".toList, ".INF".toList].contains n.whole.chars = false := by
      simpa using ⟨fun e => (noWord _).1 e.symm, fun e => (noWord _).1 e.symm,
        fun e => (noWord _).1 e.symm⟩
    have nan : [".nan".toList, ".NaN".toList, ".NAN".toList].contains n.chars = false := by
      simpa using ⟨fun e => (noWord _).2 e.symm, fun e => (noWord _).2 e.symm,
        fun e => (noWord _).2 e.symm⟩
    rw [looksFractional, unsigned_chars, digits, looksPlaced_of_noPoint noPoint, infinite, nan]
    · rfl
    · exact fun word same => (noWord word).2 same.symm

/-- A number with a point is taken for a decimal fraction, if its exponent has a sign. -/
theorem looksFractional_chars {n : Json.Number} (fraction : n.fraction.isSome)
    (h : ∀ e ∈ n.exponent, e.sign.isSome) : looksFractional n.chars = true := by
  obtain ⟨ds, eq⟩ := Option.isSome_iff_exists.mp fraction
  have written : n.unsigned = n.whole.chars ++ '.' :: (ds.chars ++ n.exponentChars) := by
    simp [Json.Number.unsigned, Json.Number.fractionChars, eq]
  have exponent : isExponent n.exponentChars = true := by
    cases eq : n.exponent with
    | none => simp [Json.Number.exponentChars, eq, isExponent]
    | some e => simpa [Json.Number.exponentChars, eq] using isExponent_chars (h e eq)
  simp [looksFractional, unsigned_chars, written, looksPlaced_digits exponent]

/-! ## Which numbers they are -/

theorem ungrouped_chars (n : Json.Number) : ungrouped n.chars = n.chars := by
  refine List.filter_eq_self.mpr fun c mem => ?_
  rw [decide_eq_true_eq]
  rintro rfl
  exact absurd (n.areNumberChars '_' mem) (by decide)

/-- Nothing around a number is padding, and its digits are the digits they are. -/
theorem bare_eq {cs : List Char} (h : ∀ c ∈ cs, isNumberChar c = true) : bare cs = cs := by
  have kept : ∀ c ∈ cs, isPadding c = false ∧ asciiDigit c = c := fun c mem =>
    forall_numberChar (P := fun c => isPadding c = false ∧ asciiDigit c = c) (h c mem) (by decide)
      (by decide)
  have noFront {ds : List Char} (all : ∀ c ∈ ds, isPadding c = false) :
      ds.dropWhile isPadding = ds := by
    cases ds with
    | nil => rfl
    | cons c rest => exact List.dropWhile_cons_of_neg (by simp [all c (by simp)])
  have trimmed : Text.trim isPadding cs = cs := by
    rw [Text.trim, noFront fun c mem => (kept c mem).1,
      noFront fun c mem => (kept c (by simpa using mem)).1, List.reverse_reverse]
  rw [bare, trimmed]
  exact (List.map_congr_left fun c mem => (kept c mem).2).trans (List.map_id cs)

theorem unsigned_digit {d : Char} (h : Text.isAsciiDigit d = true) (rest : List Char) :
    unsigned (d :: rest) = d :: rest ∧ isNegative (d :: rest) = false := by
  have noSign : d ≠ '-' ∧ d ≠ '+' := by
    constructor <;> rintro rfl <;> exact absurd h (by decide)
  simp [unsigned, isNegative, noSign]

theorem inBase_digits {ds : Json.Digits} (short : ds.chars.length ≤ longest) :
    inBase 10 ds.chars = .ok (Text.ofAsciiDigits ds.chars) := by
  obtain ⟨d, rest, eq, isDigit⟩ := ds.exists_cons
  obtain ⟨noSign, positive⟩ := unsigned_digit isDigit rest
  rw [← eq] at noSign positive
  have noBase : withoutBase 10 ds.chars = ds.chars := by
    unfold withoutBase
    simp only
    split <;> rfl
  simp [inBase, bare_eq ds.areNumberChars, noSign, noBase, ds.notEmpty, Nat.not_lt.mpr short,
    Text.ofDigits?_ten ds.areDigits, positive]

/-- A whole number that is not too long is read as what it is. -/
theorem whole_chars {n : Json.Number} (h : n.fraction = none ∧ n.exponent = none)
    (short : n.whole.chars.length ≤ longest) :
    ∃ k, whole (String.ofList n.chars) = .ok k ∧ .int k = n.scalar := by
  have digits : n.unsigned = n.whole.chars := by
    simp [Json.Number.unsigned, Json.Number.fractionChars, Json.Number.exponentChars, h]
  obtain ⟨c, rest, eq, -⟩ := n.exists_cons
  have some : n.chars.isEmpty = false := by simp [eq]
  have noColon : n.whole.chars.contains ':' = false := by
    simpa using fun mem => no_colon (n.whole.areNumberChars _ mem) rfl
  refine ⟨if n.negative then -(Text.ofAsciiDigits n.whole.chars : Int)
    else Text.ofAsciiDigits n.whole.chars, ?_, ?_⟩
  case refine_2 => simp [Json.Number.scalar, Json.Number.numeral, Json.Numeral.value, h]
  have body := inBase_digits short
  simp only [whole, String.toList_ofList, ungrouped_chars, some, unsigned_chars, digits,
    isNegative_chars, Bool.false_eq_true, if_false]
  have noZero := n.noZero
  have notEmpty := n.whole.notEmpty
  generalize n.whole.chars = ds at *
  split
  · exact absurd rfl notEmpty
  · split <;> rfl
  · simp at noZero
  · simp at noZero
  · rename_i alone _ _
    exact absurd (by simpa using noZero) alone
  · rw [noColon, body]
    rfl

/-! ## Fractions -/

theorem toLower_digits {ds : List Char} (h : ∀ d ∈ ds, Text.isAsciiDigit d = true) :
    ds.map Char.toLower = ds :=
  (List.map_congr_left fun d mem =>
    Text.forall_digit (P := fun d => d.toLower = d) (h d mem) (by decide)).trans (List.map_id ds)

/-- The text of a number behind its point, with a small letter before the exponent. -/
def lowered (e : Json.Exponent) : List Char := 'e' :: (e.sign.toList ++ e.digits.chars)

theorem toLower_exponent (e : Json.Exponent) : e.chars.map Char.toLower = lowered e := by
  have sign : e.sign.toList.map Char.toLower = e.sign.toList := by
    cases eq : e.sign with
    | none => rfl
    | some s => obtain rfl | rfl := e.isSign s eq <;> decide
  have letter : e.letter.toLower = 'e' := by obtain eq | eq := e.isLetter <;> rw [eq] <;> decide
  simp [Json.Exponent.chars, lowered, letter, sign, toLower_digits e.digits.areDigits]

theorem exponent?_lowered (e : Json.Exponent) : exponent? (lowered e) = some e.value := by
  have digits : ∀ d ∈ e.digits.chars, Text.isAsciiDigit d = true := e.digits.areDigits
  cases sign : e.sign with
  | none =>
    obtain ⟨d, rest, eq, isDigit⟩ := e.digits.exists_cons
    obtain ⟨noSign, positive⟩ := unsigned_digit isDigit rest
    rw [← eq] at noSign positive
    simpa [lowered, exponent?, sign, noSign, positive, e.digits.notEmpty, Json.Exponent.value]
      using digits
  | some s =>
    obtain rfl | rfl := e.isSign s sign
    · simpa [lowered, exponent?, sign, unsigned, isNegative, e.digits.notEmpty,
        Json.Exponent.value] using digits
    · simpa [lowered, exponent?, sign, unsigned, isNegative, e.digits.notEmpty,
        Json.Exponent.value] using digits

theorem areNumberChars_lowered (e : Json.Exponent) : ∀ c ∈ lowered e, isNumberChar c = true := by
  intro c mem
  obtain rfl | behind := List.mem_cons.mp mem
  · decide
  · exact e.areNumberChars c (by simp only [Json.Exponent.chars, List.mem_cons, behind, or_true])

theorem areNumberChars_fraction (whole fraction : Json.Digits) (e : Option Json.Exponent) :
    ∀ c ∈ whole.chars ++ '.' :: (fraction.chars ++ (e.map lowered).getD []),
      isNumberChar c = true := by
  intro c mem
  simp only [List.mem_append, List.mem_cons] at mem
  obtain digit | rfl | digit | behind := mem
  · exact whole.areNumberChars c digit
  · decide
  · exact fraction.areNumberChars c digit
  · cases e with
    | none => simp at behind
    | some e => exact areNumberChars_lowered e c (by simpa using behind)

/-- The text of a decimal fraction in small letters. -/
theorem toLower_unsigned {n : Json.Number} {ds : Json.Digits} (fraction : n.fraction = some ds) :
    n.unsigned.map Char.toLower =
      n.whole.chars ++ '.' :: (ds.chars ++ (n.exponent.map lowered).getD []) := by
  have exponent : n.exponentChars.map Char.toLower = (n.exponent.map lowered).getD [] := by
    cases eq : n.exponent with
    | none => simp [Json.Number.exponentChars, eq]
    | some e => simp [Json.Number.exponentChars, eq, toLower_exponent]
  simp [Json.Number.unsigned, Json.Number.fractionChars, fraction, exponent,
    toLower_digits n.whole.areDigits, toLower_digits ds.areDigits, show '.'.toLower = '.' by decide]

/-- Digits, a point, digits and an exponent are read as a decimal number. -/
theorem decimal_digits (whole fraction : Json.Digits) (e : Option Json.Exponent) :
    decimal (whole.chars ++ '.' :: (fraction.chars ++ (e.map lowered).getD [])) =
      .ok (.ofDecimal false (Text.ofAsciiDigits (whole.chars ++ fraction.chars))
        ((e.map Json.Exponent.value).getD 0 - fraction.chars.length)) := by
  have exponent :
      exponent? ((e.map lowered).getD []) = some ((e.map Json.Exponent.value).getD 0) := by
    cases e with
    | none => rfl
    | some e => exact exponent?_lowered e
  have stop : ∀ c ∈ ((e.map lowered).getD []).head?, Text.isAsciiDigit c = false := by
    cases e with
    | none => simp
    | some e => simp [lowered]; decide
  have front := Json.digits_append (r := '.' :: (fraction.chars ++ (e.map lowered).getD []))
    whole.areDigits (by simp; decide)
  have behind := Json.digits_append fraction.areDigits stop
  simp only [Json.digits, Prod.mk.injEq] at front behind
  obtain ⟨d, rest, eq, isDigit⟩ := whole.exists_cons
  obtain ⟨noSign, positive⟩ :=
    unsigned_digit isDigit (rest ++ '.' :: (fraction.chars ++ (e.map lowered).getD []))
  rw [← List.cons_append, ← eq] at noSign positive
  simp [decimal, bare_eq (areNumberChars_fraction whole fraction e), noSign, positive, front,
    behind, whole.notEmpty, exponent]

/-- Small letters change nothing about the sign. -/
theorem toLower_chars (n : Json.Number) :
    (n.chars.map Char.toLower).isEmpty = false ∧
      isNegative (n.chars.map Char.toLower) = n.negative ∧
      unsigned (n.chars.map Char.toLower) = n.unsigned.map Char.toLower := by
  obtain ⟨d, rest, eq, isDigit⟩ := n.whole.exists_cons
  have written : n.unsigned.map Char.toLower =
      d :: (rest ++ (n.fractionChars ++ n.exponentChars)).map Char.toLower := by
    have same : d.toLower = d := Text.forall_digit (P := fun d => d.toLower = d) isDigit (by decide)
    simp [Json.Number.unsigned, eq, same]
  obtain ⟨noSign, positive⟩ := unsigned_digit isDigit _
  cases sign : n.negative with
  | true =>
    have minus : '-'.toLower = '-' := by decide
    simp [Json.Number.chars, sign, minus, isNegative, unsigned]
  | false =>
    have chars : n.chars.map Char.toLower = n.unsigned.map Char.toLower := by
      simp [Json.Number.chars, sign]
    rw [chars, written]
    exact ⟨rfl, positive, noSign⟩

/-- A decimal fraction is read as what it is. -/
theorem fractional_chars {n : Json.Number} (fraction : n.fraction.isSome) :
    ∃ x, fractional (String.ofList n.chars) = .ok x ∧ .float x = n.scalar := by
  obtain ⟨ds, eq⟩ := Option.isSome_iff_exists.mp fraction
  have read := decimal_digits n.whole ds n.exponent
  rw [← toLower_unsigned eq] at read
  refine ⟨.ofDecimal n.negative (Text.ofAsciiDigits (n.whole.chars ++ ds.chars))
    ((n.exponent.map Json.Exponent.value).getD 0 - ds.chars.length), ?_, ?_⟩
  case refine_2 =>
    simp [Json.Number.scalar, Json.Number.numeral, Json.Numeral.value,
      Json.Number.fractionDigits, eq]
  obtain ⟨some, negative, unsigned⟩ := toLower_chars n
  have noColon : (n.unsigned.map Char.toLower).contains ':' = false := by
    rw [toLower_unsigned eq]
    simpa using fun mem => no_colon (areNumberChars_fraction n.whole ds n.exponent _ mem) rfl
  have noWord (word : List Char) : n.unsigned.map Char.toLower ≠ '.' :: word := by
    obtain ⟨d, rest, whole, isDigit⟩ := n.whole.exists_cons
    rw [toLower_unsigned eq, whole]
    rintro ⟨⟩
    exact absurd isDigit (by decide)
  have infinite : n.unsigned.map Char.toLower ≠ ".inf".toList := noWord ['i', 'n', 'f']
  have nan : n.unsigned.map Char.toLower ≠ ".nan".toList := noWord ['n', 'a', 'n']
  simp only [fractional, String.toList_ofList, ungrouped_chars, some, negative, unsigned, read,
    noColon, infinite, nan, Bool.false_eq_true, if_false, Except.map]
  cases n.negative with
  | true => rw [Binary64.ofDecimal_true]; rfl
  | false => rfl

end Number

/-! ## Tags -/

namespace Implicit

theorem withoutLineEnd_chars (n : Json.Number) : withoutLineEnd n.chars = n.chars := by
  refine if_neg ?_
  simp only [Bool.and_eq_true, decide_eq_true_eq, not_and]
  intro _ last
  exact absurd (n.areNumberChars '\n' (List.mem_of_getLast? last)) (by decide)

/-- No word for a truth value starts like a number. -/
theorem chars_notMem_truthTexts (n : Json.Number) : n.chars ∉ truthTexts := by
  obtain ⟨c, rest, eq, first⟩ := n.exists_cons
  have noNumber :
      truthTexts.all (fun word => word.head?.all fun c => !Json.isNumberChar c) = true := by
    decide +kernel
  intro mem
  have isNumberChar := n.areNumberChars c (by simp [eq])
  have first := List.all_eq_true.1 noNumber _ mem
  rw [eq, List.head?_cons, Option.all_some, isNumberChar] at first
  cases first

theorem tag_whole {n : Json.Number} (h : n.fraction = none ∧ n.exponent = none) :
    tag (String.ofList n.chars) = Tag.int := by
  have looks := Number.looksWhole_chars h
  simp [tag, withoutLineEnd_chars, chars_notMem_truthTexts, looks]

theorem tag_fractional {n : Json.Number} (fraction : n.fraction.isSome)
    (h : ∀ e ∈ n.exponent, e.sign.isSome) : tag (String.ofList n.chars) = Tag.float := by
  have looks := Number.looksFractional_chars fraction h
  simp [tag, withoutLineEnd_chars, chars_notMem_truthTexts, looks]

end Implicit

/-! ## Atoms -/

/-- The text of the scalar that an atom is. -/
def atomText : Json.Atom → String
  | .text ps => ps.text
  | .number n => String.ofList n.chars
  | .word w => String.ofList w.chars

/-- Whether the scalar that an atom is has no quotes. -/
def atomIsPlain : Json.Atom → Bool
  | .text _ => false
  | _ => true

/-- The tag of the scalar that an atom is. -/
def atomTag (a : Json.Atom) : String :=
  if atomIsPlain a then Implicit.tag (atomText a) else Tag.text

/-- An atom is made into the scalar that it spells. -/
theorem scalar_atom {a : Json.Atom} (h : a.isYaml = true) :
    ∃ kind, Load.scalarTag? (atomTag a) = some kind ∧
      ∀ node, Load.scalar kind node (atomText a) = pure a.scalar := by
  cases a with
  | text ps => exact ⟨.text, show Load.scalarTag? Tag.text = some .text by decide, fun _ => rfl⟩
  | number n =>
    simp only [Json.Atom.isYaml, Json.Number.isYaml] at h
    by_cases whole : n.fraction = none ∧ n.exponent = none
    · have short : n.whole.chars.length ≤ Number.longest := by simpa [whole] using h
      have tag : atomTag (.number n) = Tag.int := Implicit.tag_whole whole
      refine ⟨.int, by rw [tag]; decide, fun node => ?_⟩
      obtain ⟨k, read, eq⟩ := Number.whole_chars whole short
      simp [Load.scalar, atomText, read, Load.number, Json.Atom.scalar, ← eq]
    · have fraction : n.fraction.isSome = true ∧ ∀ e ∈ n.exponent, e.sign.isSome = true := by
        cases exponent : n.exponent with
        | none => simpa [exponent, Option.isSome_iff_ne_none] using whole
        | some e => simpa [exponent] using h
      have tag : atomTag (.number n) = Tag.float :=
        Implicit.tag_fractional fraction.1 fraction.2
      refine ⟨.float, by rw [tag]; decide, fun node => ?_⟩
      obtain ⟨x, read, eq⟩ := Number.fractional_chars fraction.1
      simp [Load.scalar, atomText, read, Load.number, Json.Atom.scalar, ← eq]
  | word w =>
    cases w with
    | null => exact ⟨.null, by decide, fun _ => rfl⟩
    | yes => exact ⟨.bool, by decide, fun _ => rfl⟩
    | no => exact ⟨.bool, by decide, fun _ => rfl⟩

end Yaml
end ApiManual
