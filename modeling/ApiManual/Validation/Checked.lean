import ApiManual.Validation.Issue

/-!
# Checked values

A check either gives a value or the list of everything that is wrong.  Checks of
several parts are combined so that the issues of all of them are reported, in the
order of the parts.
-/

namespace ApiManual
namespace Validation

/-- The outcome of a check. -/
inductive Checked (α : Type) where
  | good (value : α)
  | bad (issues : List Issue)

namespace Checked

/-- A single issue at the value itself. -/
def refuse (cause : Cause) : Checked α := .bad [⟨[], cause⟩]

/-- The outcome with its value changed. -/
def map (f : α → β) : Checked α → Checked β
  | .good a => .good (f a)
  | .bad issues => .bad issues

/-- Both outcomes together. -/
def both (f : α → β → γ) : Checked α → Checked β → Checked γ
  | .good a, .good b => .good (f a b)
  | .good _, .bad ys => .bad ys
  | .bad xs, .good _ => .bad xs
  | .bad xs, .bad ys => .bad (xs ++ ys)

instance : Functor Checked where
  map := map

instance : Seq Checked where
  seq f a := both (· ·) f (a ())

/-- A part seen from the whole: issues are one step further away. -/
def under (step : Step) : Checked α → Checked α
  | .good a => .good a
  | .bad issues => .bad (issues.map fun i => ⟨step :: i.place, i.cause⟩)

/-- The outcome with more issues after its own. -/
def adding (extra : List Issue) : Checked α → Checked α
  | .good a => if extra.isEmpty then .good a else .bad extra
  | .bad issues => .bad (issues ++ extra)

/-- A rule for the value as a whole, which is looked at only when its parts are
good. -/
def obeying (broken? : α → Option Rule) : Checked α → Checked α
  | .good a => match broken? a with
    | none => .good a
    | some r => refuse (.rule r)
  | .bad issues => .bad issues

/-- What is wrong. -/
def issues : Checked α → List Issue
  | .good _ => []
  | .bad issues => issues

/-- The value, if the outcome is good. -/
def toOption : Checked α → Option α
  | .good a => some a
  | .bad _ => none

/-- The outcomes of the parts of a list. -/
def all : List (Checked α) → Checked (List α)
  | [] => .good []
  | c :: rest => both List.cons c (all rest)

@[simp] theorem map_eq (f : α → β) (c : Checked α) : f <$> c = c.map f := rfl

@[simp] theorem seq_eq (f : Checked (α → β)) (c : Checked α) :
    f <*> c = both (· ·) f c := rfl

/-- Both are good exactly when each of them is. -/
theorem both_eq_good_iff {f : α → β → γ} {x : Checked α} {y : Checked β} {c : γ} :
    both f x y = .good c ↔ ∃ a b, x = .good a ∧ y = .good b ∧ c = f a b := by
  cases x <;> cases y <;> simp [both, eq_comm]

/-- A part is good exactly when it is good by itself. -/
@[simp] theorem under_eq_good_iff {step : Step} {x : Checked α} {a : α} :
    x.under step = .good a ↔ x = .good a := by
  cases x <;> simp [under]

/-- A value obeys a rule exactly when it is good and does not break it. -/
theorem obeying_eq_good_iff {broken? : α → Option Rule} {x : Checked α} {a : α} :
    x.obeying broken? = .good a ↔ x = .good a ∧ broken? a = none := by
  cases x with
  | bad => simp [obeying]
  | good b =>
    cases h : broken? b <;> simp only [obeying, h, refuse, good.injEq]
    · constructor
      · rintro rfl; exact ⟨rfl, h⟩
      · exact fun p => p.1
    · constructor
      · intro p; cases p
      · rintro ⟨rfl, p⟩; simp [h] at p

end Checked
end Validation
end ApiManual
