import ApiManual.Validation.Record
import Mathlib.Data.List.Forall2
import Mathlib.Data.List.Nodup
import Mathlib.Data.List.Perm.Basic

/-!
# Checks that agree

Two checks agree if both are good, with values that are related in some way, or both are
bad; which issues a bad one reports does not matter.  `Checked.Agree` says so, and every
way in which checks are put together keeps it.

The items of lists agree one by one (`items_agree`), and where the order of a list means
nothing, they agree in another order as well (`items_perm`).
-/

namespace ApiManual
namespace Validation

variable {α α' β β' γ γ' : Type}

/-! ## Outcomes -/

namespace Checked

/-- Two outcomes are both good, with related values, or both bad. -/
inductive Agree (R : α → β → Prop) : Checked α → Checked β → Prop
  | good {a : α} {b : β} (h : R a b) : Agree R (.good a) (.good b)
  | bad (xs ys : List Issue) : Agree R (.bad xs) (.bad ys)

namespace Agree

variable {R : α → α' → Prop} {S : β → β' → Prop} {T : γ → γ' → Prop}

theorem refl {E : α → α → Prop} (h : ∀ a, E a a) (c : Checked α) : Agree E c c := by
  cases c with
  | good a => exact .good (h a)
  | bad issues => exact .bad issues issues

/-- An outcome agrees with itself. -/
theorem of_eq {c c' : Checked α} (h : c = c') : Agree Eq c c' := h ▸ refl Eq.refl c

theorem refuse (cause cause' : Cause) : Agree R (.refuse cause) (.refuse cause') := .bad _ _

theorem imp {R' : α → α' → Prop} (h : ∀ a b, R a b → R' a b) {c : Checked α} {c' : Checked α'}
    (hc : Agree R c c') : Agree R' c c' := by
  cases hc with
  | good r => exact .good (h _ _ r)
  | bad xs ys => exact .bad xs ys

/-- Agreements follow one another. -/
theorem comp {U : α' → β → Prop} {c : Checked α} {c' : Checked α'} {c'' : Checked β}
    (hc : Agree R c c') (hc' : Agree U c' c'') :
    Agree (fun a b => ∃ m, R a m ∧ U m b) c c'' := by
  cases hc with
  | good r =>
    cases hc' with
    | good u => exact .good ⟨_, r, u⟩
  | bad xs ys =>
    cases hc' with
    | bad _ zs => exact .bad xs zs

theorem map {f : α → β} {f' : α' → β'} (hf : ∀ a a', R a a' → S (f a) (f' a'))
    {c : Checked α} {c' : Checked α'} (hc : Agree R c c') : Agree S (c.map f) (c'.map f') := by
  cases hc with
  | good r => exact .good (hf _ _ r)
  | bad xs ys => exact .bad xs ys

/-- **Two outcomes together agree if each of them does.** -/
theorem both {f : α → β → γ} {f' : α' → β' → γ'}
    (hf : ∀ a a' b b', R a a' → S b b' → T (f a b) (f' a' b')) {x : Checked α} {x' : Checked α'}
    {y : Checked β} {y' : Checked β'} (hx : Agree R x x') (hy : Agree S y y') :
    Agree T (Checked.both f x y) (Checked.both f' x' y') := by
  cases hx with
  | good r =>
    cases hy with
    | good s => exact .good (hf _ _ _ _ r s)
    | bad xs ys => exact .bad xs ys
  | bad xs ys =>
    cases hy with
    | good s => exact .bad xs ys
    | bad zs ws => exact .bad (xs ++ zs) (ys ++ ws)

/-- A function and what it is given. -/
theorem seq {f : Checked (α → β)} {f' : Checked (α' → β')}
    (hf : Agree (fun g g' => ∀ a a', R a a' → S (g a) (g' a')) f f') {c : Checked α}
    {c' : Checked α'} (hc : Agree R c c') : Agree S (f <*> c) (f' <*> c') :=
  both (fun _ _ _ _ hg r => hg _ _ r) hf hc

/-- The same where what is given is equal. -/
theorem seq_same {f : Checked (α → β)} {f' : Checked (α → β')}
    (hf : Agree (fun g g' => ∀ a, S (g a) (g' a)) f f') {c c' : Checked α} (hc : Agree Eq c c') :
    Agree S (f <*> c) (f' <*> c') :=
  both (fun _ _ a _ hg same => same ▸ hg a) hf hc

theorem map_same {f : α → β} {f' : α → β'} (hf : ∀ a, S (f a) (f' a)) {c c' : Checked α}
    (hc : Agree Eq c c') : Agree S (f <$> c) (f' <$> c') :=
  map (fun a _ same => same ▸ hf a) hc

/-- The same where everything is equal. -/
theorem seq_eq {f f' : Checked (α → β)} (hf : Agree Eq f f') {c c' : Checked α}
    (hc : Agree Eq c c') : Agree Eq (f <*> c) (f' <*> c') :=
  both (fun _ _ _ _ hg r => hg ▸ r ▸ rfl) hf hc

theorem map_eq (f : α → β) {c c' : Checked α} (hc : Agree Eq c c') : Agree Eq (f <$> c) (f <$> c') :=
  map (fun _ _ r => congrArg f r) hc

theorem under {c : Checked α} {c' : Checked α'} (hc : Agree R c c') (step step' : Step) :
    Agree R (c.under step) (c'.under step') := by
  cases hc with
  | good r => exact .good r
  | bad xs ys => exact .bad _ _

theorem adding {c : Checked α} {c' : Checked α'} (hc : Agree R c c') {extra extra' : List Issue}
    (h : extra = [] ↔ extra' = []) : Agree R (c.adding extra) (c'.adding extra') := by
  cases hc with
  | bad xs ys => exact .bad _ _
  | good r =>
    simp only [Checked.adding, List.isEmpty_iff]
    by_cases none : extra = []
    · rw [if_pos none, if_pos (h.1 none)]
      exact .good r
    · rw [if_neg none, if_neg fun none' => none (h.2 none')]
      exact .bad extra extra'

/-- A rule that related values break alike; the value that is left breaks none. -/
theorem obeying {broken? : α → Option Rule} {broken?' : α' → Option Rule} {c : Checked α}
    {c' : Checked α'} (hc : Agree R c c')
    (h : ∀ a a', R a a' → (broken? a = none ↔ broken?' a' = none)) :
    Agree (fun a a' => R a a' ∧ broken? a = none) (c.obeying broken?) (c'.obeying broken?') := by
  cases hc with
  | bad xs ys => exact .bad xs ys
  | @good a a' r =>
    cases broken : broken? a with
    | none =>
      simp only [Checked.obeying, broken, (h a a' r).1 broken]
      exact .good ⟨r, broken⟩
    | some rule =>
      cases broken' : broken?' a' with
      | none =>
        rw [(h a a' r).2 broken'] at broken
        cases broken
      | some rule' =>
        simp only [Checked.obeying, broken, broken']
        exact .refuse _ _

theorem obeying_eq (broken? : α → Option Rule) {c c' : Checked α} (hc : Agree Eq c c') :
    Agree Eq (c.obeying broken?) (c'.obeying broken?) :=
  (hc.obeying fun _ _ same => same ▸ Iff.rfl).imp fun _ _ h => h.1

end Agree
end Checked

open Checked

/-! ## Lists -/

theorem items_agree {R : α → α' → Prop} {check : Value → Checked α} {check' : Value → Checked α'}
    {vs vs' : List Value} (h : List.Forall₂ (fun v v' => Agree R (check v) (check' v')) vs vs')
    (i j : Nat) : Agree (List.Forall₂ R) (items check i vs) (items check' j vs') := by
  induction h generalizing i j with
  | nil => exact .good .nil
  | cons first _ ih =>
    exact .both (fun _ _ _ _ r rs => .cons r rs) (first.under _ _) (ih (i + 1) (j + 1))

/-- The items of lists, one by one. -/
theorem list_agree {check : Value → Checked α} {vs vs' : List Value}
    (h : List.Forall₂ (fun v v' => Agree Eq (check v) (check v')) vs vs') :
    Agree Eq (list check (.list vs)) (list check (.list vs')) :=
  (items_agree h 0 0).imp fun _ _ same => List.forall₂_eq_eq_eq ▸ same

/-- Where the items stand does not matter. -/
theorem items_perm {check : Value → Checked α} {vs vs' : List Value} (h : vs.Perm vs') (i j : Nat) :
    Agree List.Perm (items check i vs) (items check j vs') := by
  induction h generalizing i j with
  | nil => exact .good .nil
  | cons v _ ih =>
    refine .both (fun a a' as as' same perm => ?_)
      ((Agree.refl Eq.refl (check v)).under _ _) (ih (i + 1) (j + 1))
    rw [same]
    exact perm.cons a'
  | swap v w vs =>
    have rest := items_agree (List.forall₂_same.2 fun v (_ : v ∈ vs) =>
      Agree.refl Eq.refl (check v)) (i + 1 + 1) (j + 1 + 1)
    rw [List.forall₂_eq_eq_eq] at rest
    simp only [items]
    generalize items check (i + 1 + 1) vs = as at rest
    generalize items check (j + 1 + 1) vs = as' at rest
    cases check v with
    | bad xs => cases check w <;> cases rest <;> exact .bad _ _
    | good a =>
      cases check w with
      | bad ys => cases rest <;> exact .bad _ _
      | good b =>
        cases rest with
        | bad _ _ => exact .bad _ _
        | good same =>
          rw [same]
          exact .good (.swap ..)
  | trans _ _ ih ih' =>
    exact ((ih i j).comp (ih' j j)).imp fun _ _ ⟨_, perm, perm'⟩ => perm.trans perm'

/-- The items of two lists, in the order of one of them, agree one by one. -/
theorem list_agree_perm {check : Value → Checked α} {vs ws vs' : List Value}
    (h : List.Forall₂ (fun v w => Agree Eq (check v) (check w)) vs ws) (order : ws.Perm vs') :
    Agree List.Perm (list check (.list vs)) (list check (.list vs')) :=
  ((items_agree h 0 0).comp (items_perm order 0 0)).imp fun _ _ ⟨_, same, perm⟩ =>
    (List.forall₂_eq_eq_eq ▸ same : _ = _) ▸ perm

end Validation
end ApiManual
