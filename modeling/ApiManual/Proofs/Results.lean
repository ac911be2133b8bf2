import Mathlib.Data.List.Basic

/-!
# Results that may be missing

Steps one after the other have a result if each of them has, and fail with the first of them that
does.  The same is said here of a step for each element of a list.
-/

namespace ApiManual
namespace Result

variable {ε α β γ : Type}

/-! ## Steps -/

section Steps

variable {x : Except ε α} {e : ε}

/-- A bind gives a result when both of its parts do. -/
theorem bind_eq_ok {f : α → Except ε β} {b : β} (h : (x >>= f) = .ok b) :
    ∃ a, x = .ok a ∧ f a = .ok b := by
  cases x with
  | error e => cases h
  | ok a => exact ⟨a, rfl, h⟩

/-- A bind fails with its first part, or with the other one. -/
theorem bind_eq_error {f : α → Except ε β} (h : (x >>= f) = .error e) :
    x = .error e ∨ ∃ a, x = .ok a ∧ f a = .error e := by
  cases x with
  | error e' =>
    cases h
    exact .inl rfl
  | ok a => exact .inr ⟨a, rfl, h⟩

/-- What is made of a result is there when the result is. -/
theorem map_eq_ok {f : α → β} {b : β} (h : x.map f = .ok b) : ∃ a, x = .ok a ∧ f a = b := by
  cases x with
  | error e => cases h
  | ok a => exact ⟨a, rfl, Except.ok.inj h⟩

theorem map_eq_error {f : α → β} (h : x.map f = .error e) : x = .error e := by
  cases x with
  | error e' =>
    cases h
    rfl
  | ok a => cases h

theorem exists_map_iff {f : α → β} : (∃ b, x.map f = .ok b) ↔ ∃ a, x = .ok a := by
  constructor
  · rintro ⟨b, h⟩
    obtain ⟨a, given, -⟩ := map_eq_ok h
    exact ⟨a, given⟩
  · rintro ⟨a, rfl⟩
    exact ⟨f a, rfl⟩

/-- Something is made of a result exactly if there is one. -/
theorem exists_bind_iff {f : α → Except ε β} :
    (∃ b, (x >>= f) = .ok b) ↔ ∃ a, x = .ok a ∧ ∃ b, f a = .ok b := by
  constructor
  · rintro ⟨b, h⟩
    obtain ⟨a, ha, hb⟩ := bind_eq_ok h
    exact ⟨a, ha, b, hb⟩
  · rintro ⟨a, rfl, b, h⟩
    exact ⟨b, h⟩

/-- Two results and what is made of them. -/
theorem exists_bind₂_iff {y : Except ε β} {f : α → β → γ} :
    (∃ c, (do let a ← x; let b ← y; return f a b : Except ε γ) = .ok c) ↔
      (∃ a, x = .ok a) ∧ ∃ b, y = .ok b := by
  rw [exists_bind_iff]
  simp only [exists_bind_iff]
  constructor
  · rintro ⟨a, ha, b, hb, -⟩
    exact ⟨⟨a, ha⟩, b, hb⟩
  · rintro ⟨⟨a, ha⟩, b, hb⟩
    exact ⟨a, ha, b, hb, _, rfl⟩

end Steps

/-! ## Steps for the elements of a list -/

section Lists

variable {f : α → Except ε β} {xs : List α} {ys : List β}

theorem forall₂_of_mapM (h : xs.mapM f = .ok ys) :
    List.Forall₂ (fun x y => f x = .ok y) xs ys := by
  induction xs generalizing ys with
  | nil =>
    cases h
    exact .nil
  | cons x rest ih =>
    rw [List.mapM_cons] at h
    obtain ⟨y, first, h⟩ := bind_eq_ok h
    obtain ⟨others, all, h⟩ := bind_eq_ok h
    cases h
    exact .cons first (ih all)

theorem exists_of_mem_mapM (h : xs.mapM f = .ok ys) {y : β} (mem : y ∈ ys) :
    ∃ x ∈ xs, f x = .ok y := by
  have all := forall₂_of_mapM h
  clear h
  induction all with
  | nil => cases mem
  | cons first _ ih =>
    rcases List.mem_cons.1 mem with rfl | mem
    · exact ⟨_, List.mem_cons_self, first⟩
    · obtain ⟨x, mem, same⟩ := ih mem
      exact ⟨x, List.mem_cons_of_mem _ mem, same⟩

/-- What is made of the values of entries leaves their keys as they are. -/
theorem map_fst_of_mapM {κ : Type} {es : List (κ × α)} {fs : List (κ × β)}
    (h : es.mapM (fun e => (e.1, ·) <$> f e.2) = .ok fs) : fs.map Prod.fst = es.map Prod.fst := by
  have all := forall₂_of_mapM h
  clear h
  induction all with
  | nil => rfl
  | cons first _ ih =>
    obtain ⟨b, -, rfl⟩ := map_eq_ok first
    rw [List.map_cons, List.map_cons, ih]

theorem exists_of_mapM_eq_error {e : ε} (h : xs.mapM f = .error e) : ∃ x ∈ xs, f x = .error e := by
  induction xs with
  | nil => cases h
  | cons x rest ih =>
    rw [List.mapM_cons] at h
    rcases bind_eq_error h with failed | ⟨y, -, h⟩
    · exact ⟨x, List.mem_cons_self, failed⟩
    rcases bind_eq_error h with failed | ⟨others, -, h⟩
    · obtain ⟨x', mem, failed⟩ := ih failed
      exact ⟨x', List.mem_cons_of_mem _ mem, failed⟩
    · cases h

end Lists

end Result
end ApiManual
