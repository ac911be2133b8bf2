/-!
# Sorted names

Names are sorted by code point, character by character, a beginning before what
continues it.  The sort is stable and works on any list with a name for each item.
-/

namespace ApiManual
namespace Text

/-- Whether one text comes no later than another, by code points. -/
def notAfter : List Char → List Char → Bool
  | [], _ => true
  | _ :: _, [] => false
  | a :: as, b :: bs => a.toNat < b.toNat || (a.toNat == b.toNat && notAfter as bs)

/-- The items in the order of their names. -/
def sortByName (name : α → String) (items : List α) : List α :=
  items.mergeSort fun a b => notAfter (name a).toList (name b).toList

/-- The names in order. -/
def sortNames (names : List String) : List String :=
  sortByName id names

@[simp] theorem notAfter_nil (bs : List Char) : notAfter [] bs = true := rfl

/-- Of two texts one comes no later than the other. -/
theorem notAfter_total (as bs : List Char) : (notAfter as bs || notAfter bs as) = true := by
  induction as generalizing bs with
  | nil => simp
  | cons a as ih =>
    cases bs with
    | nil => simp [notAfter]
    | cons b bs =>
      have tails := ih bs
      simp only [notAfter, Bool.or_eq_true, Bool.and_eq_true, beq_iff_eq, decide_eq_true_eq] at *
      rcases Nat.lt_trichotomy a.toNat b.toNat with h | h | h
      · exact .inl (.inl h)
      · rcases tails with t | t
        · exact .inl (.inr ⟨h, t⟩)
        · exact .inr (.inr ⟨h.symm, t⟩)
      · exact .inr (.inl h)

/-- The order can be followed from text to text. -/
theorem notAfter_trans {as bs cs : List Char} (h₁ : notAfter as bs = true)
    (h₂ : notAfter bs cs = true) : notAfter as cs = true := by
  induction as generalizing bs cs with
  | nil => rfl
  | cons a as ih =>
    cases bs with
    | nil => simp [notAfter] at h₁
    | cons b bs =>
      cases cs with
      | nil => simp [notAfter] at h₂
      | cons c cs =>
        simp only [notAfter, Bool.or_eq_true, Bool.and_eq_true, beq_iff_eq,
          decide_eq_true_eq] at *
        rcases h₁ with h₁ | ⟨h₁, h₁'⟩ <;> rcases h₂ with h₂ | ⟨h₂, h₂'⟩
        · left; omega
        · left; omega
        · left; omega
        · right; exact ⟨by omega, ih h₁' h₂'⟩

/-- Items that are in order stay as they are. -/
theorem sortByName_of_pairwise {α : Type} {name : α → String} {items : List α}
    (h : items.Pairwise fun a b => notAfter (name a).toList (name b).toList = true) :
    sortByName name items = items := List.mergeSort_of_pairwise h

end Text
end ApiManual
