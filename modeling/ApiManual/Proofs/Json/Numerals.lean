import ApiManual.Json.Writer
import ApiManual.Proofs.Json.Syntax
import Mathlib.Data.List.Basic

/-!
# Written numbers

Every number that is written with digits is a number of JSON.  For whole numbers it is the same
number (`exists_number_int`).  For floating-point numbers it is enough that they are finite
(`exists_number_float`): the digits of the shortest decimal start with no zero, wherever the point
stands among them, because the decimals that round to a number other than zero are none of them
zero.
-/

namespace ApiManual

/-! ## Decimal digits -/

namespace Text

theorem isAsciiDigit_of_mem_toDigits {n : Nat} {c : Char} (mem : c ∈ Nat.toDigits 10 n) :
    isAsciiDigit c = true := Nat.isDigit_of_mem_toDigits (by decide) (by decide) mem

theorem isAsciiDigit_of_mem_zeros {n : Nat} {c : Char} (mem : c ∈ List.replicate n '0') :
    isAsciiDigit c = true := by
  rw [List.eq_of_mem_replicate mem]
  rfl

/-- The digits of a number spell it. -/
@[simp] theorem ofAsciiDigits_toDigits (n : Nat) : ofAsciiDigits (Nat.toDigits 10 n) = n := by
  have read := Nat.ofDigitChars_ten_toDigits (n := n)
  rw [Nat.ofDigitChars_eq_foldl] at read
  simp only [Nat.mul_comm 10] at read
  exact read

/-- Only zero has a zero for its first digit. -/
theorem head?_toDigits_ne {n : Nat} (positive : n ≠ 0) :
    (Nat.toDigits 10 n).head? ≠ some '0' := by
  have digit : ∀ n < 10, n ≠ 0 → [n.digitChar].head? ≠ some '0' := by decide
  induction n using Nat.strongRecOn with
  | ind n ih =>
    rw [Nat.toDigits_eq_if (by decide : 1 < 10)]
    split
    · rename_i small
      exact digit n small positive
    · rw [List.head?_append_of_ne_nil _ Nat.toDigits_ne_nil]
      exact ih (n / 10) (by omega) (by omega)

end Text

namespace Json

/-- The decimal digits of a number. -/
def Digits.ofNat (n : Nat) : Digits where
  chars := Nat.toDigits 10 n
  notEmpty := Nat.toDigits_ne_nil
  areDigits _ := Text.isAsciiDigit_of_mem_toDigits

/-- Zeros in front of digits. -/
def Digits.padded (zeros : Nat) (ds : Digits) : Digits where
  chars := List.replicate zeros '0' ++ ds.chars
  notEmpty := List.append_ne_nil_of_right_ne_nil _ ds.notEmpty
  areDigits :=
    List.forall_mem_append.2 ⟨fun _ => Text.isAsciiDigit_of_mem_zeros, ds.areDigits⟩

/-! ## Whole numbers -/

theorem noZero_ofNat (n : Nat) :
    (Digits.ofNat n).chars.head? = some '0' → (Digits.ofNat n).chars = ['0'] := by
  intro zero
  by_cases positive : n = 0
  · rw [positive]
    rfl
  · exact absurd zero (Text.head?_toDigits_ne positive)

/-- **A whole number is written as a number of JSON, and as no other one.** -/
theorem exists_number_int (k : Int) :
    ∃ n : Number, n.chars = (Text.intText k).toList ∧ n.scalar = .int k := by
  refine ⟨⟨decide (k < 0), .ofNat k.natAbs, noZero_ofNat _, none, none⟩, ?_, ?_⟩
  · rw [Number.chars, Text.intText, Number.unsigned, Number.fractionChars, Number.exponentChars]
    by_cases negative : k < 0
    · simp [negative, Digits.ofNat, Text.natDigits]
    · simp [negative, Digits.ofNat, Text.natDigits]
  · have size : Text.ofAsciiDigits (Digits.ofNat k.natAbs).chars = k.natAbs :=
      Text.ofAsciiDigits_toDigits _
    rw [Number.scalar, Numeral.value, Number.numeral]
    simp only [Option.isNone_none, Bool.and_self, if_true, size, decide_eq_true_eq]
    split <;> congr 1 <;> omega

/-! ## Decimals -/

/-- A text that is a number of JSON but for its sign. -/
def IsUnsigned (cs : List Char) : Prop := ∃ n : Number, n.unsigned = cs

/-- A sign may be put in front. -/
theorem IsUnsigned.exists_number {cs : List Char} (h : IsUnsigned cs) (negative : Bool) :
    ∃ n : Number, n.chars = (if negative then ['-'] else []) ++ cs := by
  obtain ⟨n, rfl⟩ := h
  refine ⟨{ n with negative := negative }, ?_⟩
  cases negative <;> rfl

/-- Digits, the point, and further digits. -/
theorem isUnsigned_point (whole fraction : Digits)
    (noZero : whole.chars.head? = some '0' → whole.chars = ['0']) :
    IsUnsigned (whole.chars ++ '.' :: fraction.chars) :=
  ⟨⟨false, whole, noZero, some fraction, none⟩, by
    simp [Number.unsigned, Number.fractionChars, Number.exponentChars]⟩

/-- One digit, perhaps the point and further digits, and an exponent. -/
theorem isUnsigned_exponent {c : Char} (digit : Text.isAsciiDigit c = true)
    (fraction : Option Digits) (e : Exponent) :
    IsUnsigned (c :: ((fraction.map fun ds => '.' :: ds.chars).getD [] ++ e.chars)) :=
  ⟨⟨false, ⟨[c], List.cons_ne_nil _ _, List.forall_mem_singleton.2 digit⟩,
    fun zero => congrArg (fun c => [c]) (Option.some.inj zero), fraction, some e⟩, rfl⟩

end Json

namespace Decimal

open Json

/-- A decimal that no more zeros can be dropped from the front of: its digits are those of a
positive number, or it is zero. -/
def IsProper (d : Decimal) : Prop := d.digits ≠ 0 ∨ d = ⟨0, 0⟩

theorem isUnsigned_inPlace {d : Decimal} (proper : d.IsProper) : IsUnsigned d.inPlace := by
  rcases proper with positive | rfl
  case inr => exact isUnsigned_point (.ofNat 0) (.ofNat 0) fun _ => rfl
  have first : (Nat.toDigits 10 d.digits).head? ≠ some '0' := Text.head?_toDigits_ne positive
  have digits (c : Char) (mem : c ∈ Nat.toDigits 10 d.digits) : Text.isAsciiDigit c = true :=
    Text.isAsciiDigit_of_mem_toDigits mem
  have notEmpty : Nat.toDigits 10 d.digits ≠ [] := Nat.toDigits_ne_nil
  unfold inPlace
  simp only
  generalize Nat.toDigits 10 d.digits = ds at *
  generalize d.leading + 1 = point
  split
  · exact isUnsigned_point (.ofNat 0) (Digits.padded _ ⟨ds, notEmpty, digits⟩) fun _ => rfl
  split
  · let whole : Digits :=
      ⟨ds ++ List.replicate (point.toNat - ds.length) '0',
        List.append_ne_nil_of_left_ne_nil notEmpty _,
        List.forall_mem_append.2 ⟨digits, fun _ => Text.isAsciiDigit_of_mem_zeros⟩⟩
    refine isUnsigned_point whole (.ofNat 0) fun zero => absurd zero ?_
    rwa [List.head?_append_of_ne_nil _ notEmpty]
  · rename_i inside short
    have before : ds.take point.toNat ≠ [] := by
      rw [ne_eq, List.take_eq_nil_iff, not_or]
      exact ⟨by omega, notEmpty⟩
    have behind : ds.drop point.toNat ≠ [] := by
      rw [ne_eq, List.drop_eq_nil_iff]
      omega
    refine isUnsigned_point ⟨_, before, fun c mem => digits c (List.mem_of_mem_take mem)⟩
      ⟨_, behind, fun c mem => digits c (List.mem_of_mem_drop mem)⟩ fun zero => absurd zero ?_
    rwa [List.head?_take, if_neg (by omega)]

theorem isUnsigned_withExponent (k : Nat) (d : Decimal) : IsUnsigned (d.withExponent k) := by
  let es : Digits :=
    (Digits.ofNat d.leading.natAbs).padded (k - (Nat.toDigits 10 d.leading.natAbs).length)
  let e : Exponent :=
    ⟨'e', .inl rfl, some (if d.leading < 0 then '-' else '+'), by
      rintro c ⟨⟩
      split
      · exact .inr rfl
      · exact .inl rfl, es⟩
  have digits (c : Char) (mem : c ∈ Nat.toDigits 10 d.digits) : Text.isAsciiDigit c = true :=
    Text.isAsciiDigit_of_mem_toDigits mem
  unfold withExponent
  simp only
  split
  · exact isUnsigned_exponent (by rfl) none e
  · rename_i c one
    rw [one] at digits
    exact isUnsigned_exponent (digits c List.mem_cons_self) none e
  · rename_i c rest more ds
    rw [ds] at digits
    let fraction : Digits := ⟨rest, more, fun c mem => digits c (List.mem_cons_of_mem _ mem)⟩
    exact isUnsigned_exponent (digits c List.mem_cons_self) (some fraction) e

theorem isUnsigned_write {d : Decimal} (proper : d.IsProper) (style : Style) :
    IsUnsigned (d.write style) := by
  rw [write]
  split
  · exact isUnsigned_inPlace proper
  · exact isUnsigned_withExponent _ d

/-! ## Shortest decimals -/

/-- Zero is outside of an interval that starts above it. -/
theorem Interval.holds_zero {i : Interval} (above : 0 < i.lower) {times : Nat}
    (positive : 0 < times) : i.holds times 0 = false := by
  have product : 0 < i.lower * times := Nat.mul_pos above positive
  rw [holds]
  split
  · rw [decide_eq_false (Nat.not_le_of_lt product), Bool.false_and]
  · rw [decide_eq_false (Nat.not_lt_zero _), Bool.false_and]

theorem Interval.ne_zero_of_onGrid? {i : Interval} (above : 0 < i.lower) {power : Int} {d : Nat}
    (h : i.onGrid? power = some d) : d ≠ 0 := by
  rintro rfl
  have times : 0 < Nat.pow 10 (-power).toNat := Nat.pow_pos (by decide)
  -- the only candidate that may be zero is the lower one, and then it is outside
  have low (down step : Nat) (inside : i.holds (Nat.pow 10 (-power).toNat) (down * step) = true) :
      down ≠ 0 := by
    rintro rfl
    rw [Nat.zero_mul, holds_zero above times] at inside
    cases inside
  unfold onGrid? at h
  simp only [Bool.and_eq_true] at h
  split at h
  · rename_i both
    split at h
    · exact low _ _ both.1 (Option.some.inj h)
    split at h
    · cases h
    split at h
    · exact low _ _ both.1 (Option.some.inj h)
    · cases h
  split at h
  · rename_i inside
    exact low _ _ inside (Option.some.inj h)
  split at h
  · cases h
  · cases h

theorem Interval.lower_around_pos {mantissa : Nat} (positive : mantissa ≠ 0) (exponent : Int) :
    0 < (around mantissa exponent).lower := by
  have scale : 0 < Nat.pow 2 (exponent - 2).toNat := Nat.pow_pos (by decide)
  refine Nat.mul_pos ?_ scale
  split <;> omega

theorem isProper_search {i : Interval} (above : 0 < i.lower) (lead : Int) (tries count : Nat) :
    (search i lead tries count).IsProper := by
  induction tries generalizing count with
  | zero => exact .inr rfl
  | succ tries ih =>
    rw [search]
    split
    · rename_i d found
      exact .inl (Interval.ne_zero_of_onGrid? above found)
    · exact ih (count + 1)

theorem IsProper.dropZeros {d : Decimal} (proper : d.IsProper) (fuel : Nat) :
    (d.dropZeros fuel).IsProper := by
  induction fuel generalizing d with
  | zero => exact proper
  | succ fuel ih =>
    rw [Decimal.dropZeros]
    split
    · rename_i zeros
      refine ih (.inl ?_)
      simp only
      omega
    · exact proper

theorem isProper_shortest {mantissa : Nat} (positive : mantissa ≠ 0) (exponent : Int) :
    (shortest mantissa exponent).IsProper :=
  (isProper_search (Interval.lower_around_pos positive exponent) _ _ _).dropZeros _

end Decimal

namespace Json

/-- **A floating-point number that is finite is written as a number of JSON.** -/
theorem exists_number_float {x : Binary64} (finite : x.isFinite = true) (style : Decimal.Style) :
    ∃ n : Number, n.chars = x.write style := by
  cases x with
  | nan => cases finite
  | infinite s => cases finite
  | finite s m e =>
    refine IsUnsigned.exists_number ?_ s
    split
    · exact isUnsigned_point (.ofNat 0) (.ofNat 0) fun _ => rfl
    · rename_i positive
      exact Decimal.isUnsigned_write (Decimal.isProper_shortest positive e) style

end Json
end ApiManual
