import Mathlib.Algebra.Group.Int.Defs
import Mathlib.Algebra.GroupWithZero.Nat
import ApiManual.Text.Digit

/-!
# Texts of whole numbers

A whole number is written in full, if it is written at all.  Which numbers have a text depends on
their size alone (`hasIntText_iff`).
-/

namespace ApiManual
namespace Text

theorem intText_eq_toString (n : Int) : intText n = toString n := by
  cases n with
  | ofNat n => rfl
  | negSucc n =>
    rw [intText, if_pos (Int.negSucc_lt_zero n)]
    rfl

/-- A whole number has a text exactly when it is small enough. -/
theorem hasIntText_iff {n : Int} : hasIntText n = true ↔ n.natAbs < 10 ^ mostDigits := by
  rw [hasIntText, decide_eq_true_eq, natDigits]
  exact Nat.length_toDigits_le_iff (by decide) (by decide)

/-- The least number that has too many digits. -/
theorem hasIntText_pow : hasIntText (10 ^ mostDigits) = false := by
  have ten : (10 : Int).natAbs = 10 := rfl
  rw [Bool.eq_false_iff, Ne, hasIntText_iff, Int.natAbs_pow, ten]
  exact Nat.lt_irrefl _

end Text
end ApiManual
