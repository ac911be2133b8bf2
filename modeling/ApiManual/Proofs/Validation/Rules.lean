import ApiManual.Validation.Description
import ApiManual.Proofs.Manual.Siblings

/-!
# What the rules ask for

A rule is looked at by a function that finds the first place at which it is broken.  For
each there is here what holds where nothing is found: names are all different
(`Resource.brokenUniqueness?_eq_none_iff`), none of them is empty or has white space in it,
and the entries of a table have versions all or not at all (`PathTable.shapeOf_eq_flat_iff`,
`PathTable.shapeOf_eq_versioned_iff`).  None of this depends on an order.
-/

namespace ApiManual

open Validation

/-- No text of several occurs a second time. -/
theorem Validation.firstRepeated?_eq_none_iff {seen texts : List String} :
    firstRepeated? seen texts = none ↔ texts.Nodup ∧ ∀ s ∈ texts, s ∉ seen := by
  induction texts generalizing seen with
  | nil => simp [firstRepeated?]
  | cons s rest ih =>
    rw [firstRepeated?]
    split
    · rename_i again
      simp only [reduceCtorEq, List.mem_cons, forall_eq_or_imp, false_iff, not_and]
      exact fun _ fresh => absurd (List.contains_iff_mem.1 again) fresh
    · rename_i fresh
      rw [ih, List.nodup_cons, List.forall_mem_cons]
      simp only [List.mem_cons, not_or]
      have new : s ∉ seen := fun mem => fresh (List.contains_iff_mem.2 mem)
      constructor
      · rintro ⟨distinct, others⟩
        exact ⟨⟨fun mem => (others s mem).1 rfl, distinct⟩, new, fun t mem => (others t mem).2⟩
      · rintro ⟨⟨once, distinct⟩, -, others⟩
        exact ⟨distinct, fun t mem => ⟨fun same => once (same ▸ mem), others t mem⟩⟩

/-- Actions and queries have different names exactly when none is found a second time. -/
theorem Resource.brokenUniqueness?_eq_none_iff {r : Resource} :
    r.brokenUniqueness? = none ↔ r.NamesDiffer fun name => name := by
  have once (texts : List String) : firstRepeated? [] texts = none ↔ texts.Nodup := by
    rw [firstRepeated?_eq_none_iff]
    exact and_iff_left fun _ _ => List.not_mem_nil
  rw [brokenUniqueness?]
  cases actions : firstRepeated? [] (r.actions.map Action.name) with
  | some name =>
    refine ⟨nofun, fun h => ?_⟩
    rw [(once _).2 h.actions] at actions
    cases actions
  | none =>
    rw [Option.map_eq_none_iff, once]
    exact ⟨fun queries => ⟨(once _).1 actions, queries⟩, fun h => h.queries⟩

/-- No name of a table is empty. -/
theorem brokenKeys?_eq_none_iff {α : Type} {label : String} {es : List (String × α)} :
    brokenKeys? label es = none ↔ ∀ e ∈ es, e.1.isEmpty = false := by
  rw [brokenKeys?]
  split
  · rename_i empty
    obtain ⟨e, mem, empty⟩ := List.any_eq_true.1 empty
    exact iff_of_false nofun fun h => Bool.eq_false_iff.1 (h e mem) empty
  · rename_i filled
    exact iff_of_true rfl fun e mem => Bool.eq_false_iff.2 fun empty =>
      filled (List.any_eq_true.2 ⟨e, mem, empty⟩)

/-- A catalog has entries, and all their names are names. -/
theorem Catalog.broken?_eq_none_iff {α : Type} {label : String} {c : Catalog α} :
    broken? label c = none ↔ c ≠ [] ∧ ∀ e ∈ c, Name.isValid e.1.toList = true := by
  rw [broken?, Name.firstInvalid?]
  cases c with
  | nil => simp
  | cons e rest => simp

/-- An entry has versions if it is a mapping with keys, and none of these is a field of a
resource. -/
theorem PathEntry.isVersioned_given_iff {v : Value} {es : List (String × Value)}
    (hv : entriesOf? v = some es) :
    (given v).isVersioned = true ↔ es ≠ [] ∧ ∀ e ∈ es, e.1 ∉ Resource.fieldNames := by
  simp only [isVersioned, hv, Bool.and_eq_true, List.all_eq_true, Bool.not_eq_true',
    List.isEmpty_eq_false_iff, List.contains_eq_mem, decide_eq_false_iff_not]

/-- The keys of an entry with versions are texts. -/
theorem PathEntry.entriesOf?_of_isVersioned {v : Value} {es : List (String × Value)}
    (versioned : (given v).isVersioned = true) (hv : dictionaryOf? v = some es) :
    entriesOf? v = some es := by
  cases texts : entriesOf? v with
  | none =>
    simp only [isVersioned, texts] at versioned
    cases versioned
  | some fs => rw [← hv, dictionaryOf?_of_entries texts]

namespace PathTable

variable {es : List (String × PathEntry)}

/-- A table is flat if no entry has versions. -/
theorem shapeOf_eq_flat_iff :
    shapeOf es = .flat ↔ ∀ e ∈ es, e.2.isVersioned = false := by
  have none : (es.filter fun e => e.2.isVersioned).isEmpty = true ↔
      ∀ e ∈ es, e.2.isVersioned = false := by
    rw [List.isEmpty_iff, List.filter_eq_nil_iff]
    exact forall₂_congr fun _ _ => Bool.not_eq_true _ ▸ Iff.rfl
  rw [← none]
  simp only [shapeOf]
  split
  · rename_i empty
    exact iff_of_true rfl empty
  · rename_i some
    split <;> exact iff_of_false nofun some

/-- A table is versioned if it has entries and all of them have versions. -/
theorem shapeOf_eq_versioned_iff :
    shapeOf es = .versioned ↔ es ≠ [] ∧ ∀ e ∈ es, e.2.isVersioned = true := by
  have all : (es.filter fun e => e.2.isVersioned).length = es.length ↔
      ∀ e ∈ es, e.2.isVersioned = true := List.length_filter_eq_length_iff
  rw [← all]
  simp only [shapeOf]
  split
  · rename_i none
    rw [List.isEmpty_iff] at none
    rw [none]
    exact iff_of_false nofun fun ⟨filled, same⟩ => filled (List.length_eq_zero_iff.1 same.symm)
  · rename_i some
    split
    · rename_i same
      refine iff_of_true rfl ⟨fun none => some ?_, same⟩
      rw [none]
      rfl
    · rename_i differ
      exact iff_of_false nofun fun h => differ h.2

end PathTable
end ApiManual
