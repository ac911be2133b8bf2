import ApiManual.Text.Order
import Mathlib.Data.List.Forall2
import Mathlib.Data.List.Nodup

/-!
# Sorting by name forgets the order

The order of texts is a total order, in which two texts that come no later than each
other are one text.  So items of different names have one sorted row, in whatever order
they are given (`sortByName_eq_of_perm`).  The sort looks at names alone: items may be
changed before or after it, as long as their names stay (`sortByName_map`).
-/

namespace ApiManual
namespace Text

variable {α β : Type}

/-- Two texts that come no later than each other are one text. -/
theorem notAfter_antisymm {as bs : List Char} (h : notAfter as bs = true)
    (h' : notAfter bs as = true) : as = bs := by
  induction as generalizing bs with
  | nil =>
    cases bs with
    | nil => rfl
    | cons b bs => simp [notAfter] at h'
  | cons a as ih =>
    cases bs with
    | nil => simp [notAfter] at h
    | cons b bs =>
      simp only [notAfter, Bool.or_eq_true, Bool.and_eq_true, beq_iff_eq,
        decide_eq_true_eq] at h h'
      have first : a.toNat = b.toNat := by omega
      obtain rfl : a = b := Char.toNat_inj.1 first
      have rest : as = bs := ih (h.resolve_left (by omega)).2 (h'.resolve_left (by omega)).2
      rw [rest]

/-- Sorted items are in order. -/
theorem pairwise_sortByName (name : α → String) (xs : List α) :
    (sortByName name xs).Pairwise fun a b =>
      notAfter (name a).toList (name b).toList = true := by
  unfold sortByName
  apply List.pairwise_mergeSort
  · intro a b c before behind
    exact notAfter_trans before behind
  · intro a b
    exact notAfter_total (name a).toList (name b).toList

/-- Sorting loses and adds nothing. -/
theorem sortByName_perm (name : α → String) (xs : List α) : (sortByName name xs).Perm xs :=
  List.mergeSort_perm xs _

/-- Items that are told apart by their names have one sorted row. -/
theorem sortByName_eq_of_inj {name : α → String} {xs ys : List α} (perm : xs.Perm ys)
    (inj : ∀ a ∈ xs, ∀ b ∈ xs, name a = name b → a = b) :
    sortByName name xs = sortByName name ys := by
  refine List.Perm.eq_of_pairwise (fun a b ha hb before behind => ?_)
    (pairwise_sortByName name xs) (pairwise_sortByName name ys)
    ((sortByName_perm name xs).trans (perm.trans (sortByName_perm name ys).symm))
  have mem : b ∈ xs := perm.mem_iff.2 ((sortByName_perm name ys).mem_iff.1 hb)
  exact inj a ((sortByName_perm name xs).mem_iff.1 ha) b mem
    (String.toList_inj.1 (notAfter_antisymm before behind))

/-- **Items of different names have one sorted row**, whatever the order in which they are given. -/
theorem sortByName_eq_of_perm {name : α → String} {xs ys : List α} (perm : xs.Perm ys)
    (distinct : (xs.map name).Nodup) : sortByName name xs = sortByName name ys :=
  sortByName_eq_of_inj perm fun _ ha _ hb same => List.inj_on_of_nodup_map distinct ha hb same

/-- Names have one sorted row, also if some of them are the same. -/
theorem sortNames_of_perm {names names' : List String} (perm : names.Perm names') :
    sortNames names = sortNames names' :=
  sortByName_eq_of_inj perm fun _ _ _ _ same => same

/-- A change that leaves the names may be made before the sort or after it. -/
theorem sortByName_map {name : α → String} {name' : β → String} {f : α → β} (xs : List α)
    (named : ∀ x, name' (f x) = name x) :
    sortByName name' (xs.map f) = (sortByName name xs).map f := by
  refine (List.map_mergeSort fun a _ b _ => ?_).symm
  rw [named, named]

/-- Tables that differ in the value of one name have sorted rows that differ in it as well. -/
theorem forall₂_sortByName {name : String} {x x' : β} {rest es es' : List (String × β)}
    (h : es.Perm ((name, x) :: rest)) (h' : es'.Perm ((name, x') :: rest))
    (distinct : (es.map Prod.fst).Nodup) :
    List.Forall₂ (fun e e' => e = e' ∨ e = (name, x) ∧ e' = (name, x'))
      (sortByName Prod.fst es) (sortByName Prod.fst es') := by
  let change (e : String × β) : String × β := if e.1 = name then (name, x') else e
  have names : (name :: rest.map Prod.fst).Nodup := (h.map Prod.fst).nodup_iff.1 distinct
  have others : ∀ e ∈ rest, change e = e := fun e mem => by
    refine if_neg fun same => (List.nodup_cons.1 names).1 ?_
    rw [← same]
    exact List.mem_map_of_mem mem
  have row : ((name, x) :: rest).map change = (name, x') :: rest := by
    rw [List.map_cons, List.map_congr_left others, List.map_id']
    exact congrArg (· :: rest) (if_pos rfl)
  have changed : es'.Perm (es.map change) := h'.trans (row ▸ (h.map change).symm)
  have kept (e : String × β) : (change e).1 = e.1 := by
    simp only [change]
    split
    · rename_i same
      exact same.symm
    · rfl
  have distinct' : (es'.map Prod.fst).Nodup := (h'.map Prod.fst).nodup_iff.2 names
  rw [sortByName_eq_of_perm changed distinct', sortByName_map es kept, List.forall₂_map_right_iff,
    List.forall₂_same]
  intro e mem
  rcases List.mem_cons.1 (h.mem_iff.1 ((sortByName_perm _ es).mem_iff.1 mem)) with rfl | mem
  · exact .inr ⟨rfl, if_pos rfl⟩
  · exact .inl (others e mem).symm

end Text
end ApiManual
