import ApiManual.Proofs.CatalogBuilder
import ApiManual.Proofs.Value.Named

/-!
# Entry by entry, or as a whole

A catalog is made in two ways.  A builder takes its entries one after the other, and looks at each
name and each value when it is put; or the mapping of them is checked as a whole, and its names
after its values.  The two ways accept the same catalogs, and make the same of them
(`builds_iff_checked`).

Both are compared with a third thing: a row of entries of which each is taken from the pair of a
name and a value at its place (`Takes`).  What a builder keeps after some more puts is such a row
behind what it has kept before, as long as all of them have succeeded (`IsSound.done_puts_iff`).
-/

namespace ApiManual

open Validation Checked

variable {α : Type} [CatalogEntry α]

namespace CatalogBuilder

/-- An entry is taken from a name and a value: the name is a valid one, and the value is good as
such an entry. -/
def Takes (p : String × Value) (e : String × α) : Prop :=
  Name.isValid p.1.toList = true ∧ p.1 = e.1 ∧ CatalogEntry.check p.2 = .good e.2

/-- At most one entry is taken from a name and a value. -/
theorem Takes.eq {p : String × Value} {e e' : String × α} (h : Takes p e) (h' : Takes p e') :
    e' = e := by
  obtain ⟨-, name, good⟩ := h
  obtain ⟨-, name', good'⟩ := h'
  rw [good'] at good
  exact Prod.ext (name'.symm.trans name) (Checked.good.inj good)

/-- The call that puts a value under a name. -/
def putOf (p : String × Value) : Call α := .put (.text p.1) (.given p.2)

/-- A new builder takes each of some values under its name, one after the other, and the catalog
that it then builds has these entries in this order. -/
def Builds (m : Memory α) (pairs : List (String × Value)) (c : Catalog α) : Prop :=
  let s := (Session.start m).after (pairs.map putOf)
  (∀ call ∈ s.past, call.2 = .done) ∧
    ∃ place, s.answer .build = .catalog place ∧ (s.next .build).memory.read place = c

/-! ## The builder -/

section Puts

variable (nothing : ∀ entry : α, CatalogEntry.check .null ≠ .good entry)

include nothing

/-- What is accepted under a name that is free is an entry that is taken from it. -/
theorem accept_given_iff {there : Catalog α} {p : String × Value} {e : String × α}
    (free : p.1 ∉ there.map Prod.fst) :
    accept there (.text p.1) (.given p.2) = .ok e ↔ Takes p e := by
  obtain ⟨name, v⟩ := p
  rw [accept_eq_ok_iff]
  constructor
  · rintro ⟨same, valid, -, -, good⟩
    obtain rfl : name = e.1 := by
      cases same
      rfl
    exact ⟨valid, rfl, good⟩
  · rintro ⟨valid, rfl, good⟩
    have something : (Offer.given v : Offer α).isNothing = false := by
      cases null : (Offer.given v : Offer α).isNothing with
      | false => rfl
      | true =>
        unfold Offer.isNothing at null
        split at null
        · rename_i given
          cases given
          exact absurd good (nothing e.2)
        · cases null
    exact ⟨rfl, valid, free, something, good⟩

namespace Session

variable {s : Session α} {p : String × Value}

/-- A put under a free name succeeds if an entry is taken from it, and then keeps this entry. -/
theorem IsSound.put_of_takes (sound : s.IsSound) (free : p.1 ∉ s.kept.map Prod.fst)
    {e : String × α} (taken : Takes p e) :
    s.answer (putOf p) = .done ∧ (s.next (putOf p)).kept = s.kept ++ [e] := by
  rw [← sound.entries] at free
  have accepted := (accept_given_iff nothing free).2 taken
  cases s.does (putOf p) with
  | put accepted' answer kept _ =>
    rw [accepted] at accepted'
    cases accepted'
    exact ⟨answer, kept⟩
  | refused answer _ _ =>
    have done : s.answer (putOf p) = .done := congrArg Prod.fst (call_put_of_ok accepted)
    rw [done] at answer
    cases answer

theorem IsSound.takes_of_done (sound : s.IsSound) (free : p.1 ∉ s.kept.map Prod.fst)
    (done : s.answer (putOf p) = .done) : ∃ e : String × α, Takes p e := by
  rw [← sound.entries] at free
  cases s.does (putOf p) with
  | put accepted _ _ _ => exact ⟨_, (accept_given_iff nothing free).1 accepted⟩
  | refused answer _ _ =>
    rw [done] at answer
    cases answer

omit nothing in
/-- A put that does not succeed leaves what is kept as it is. -/
theorem kept_of_not_done (notDone : s.answer (putOf p) ≠ .done) :
    (s.next (putOf p)).kept = s.kept := by
  cases s.does (putOf p) with
  | put _ answer _ _ => exact absurd answer notDone
  | refused _ kept _ => exact kept

omit nothing in
theorem forall_done_next (s : Session α) (c : Call α) :
    (∀ call ∈ (s.next c).past, call.2 = .done) ↔
      (∀ call ∈ s.past, call.2 = .done) ∧ s.answer c = .done := by
  have past : (s.next c).past = s.past ++ [(c, s.answer c)] := rfl
  rw [past, List.forall_mem_append, List.forall_mem_singleton]

/-- **What a builder keeps of some more puts.**  If all of them succeed, these are entries that are
taken from them, in their order, behind those before; and they all succeed if there are such
entries. -/
theorem IsSound.done_puts_iff (sound : s.IsSound) {pairs : List (String × Value)}
    (differ : (s.kept.map Prod.fst ++ pairs.map Prod.fst).Nodup) {c : Catalog α} :
    ((∀ call ∈ (s.after (pairs.map putOf)).past, call.2 = .done) ∧
        (s.after (pairs.map putOf)).kept = c) ↔
      (∀ call ∈ s.past, call.2 = .done) ∧ ∃ es, List.Forall₂ Takes pairs es ∧ s.kept ++ es = c := by
  induction pairs generalizing s with
  | nil => simp
  | cons p rest ih =>
    have free : p.1 ∉ s.kept.map Prod.fst := fun mem =>
      List.disjoint_of_nodup_append differ mem List.mem_cons_self
    rw [List.map_cons, after_cons]
    by_cases taken : ∃ e : String × α, Takes p e
    · obtain ⟨e, taken⟩ := taken
      obtain ⟨done, kept⟩ := sound.put_of_takes nothing free taken
      have differ' : ((s.next (putOf p)).kept.map Prod.fst ++ rest.map Prod.fst).Nodup := by
        rw [kept, List.map_append, List.append_assoc, List.map_singleton, ← taken.2.1]
        exact differ
      rw [ih (sound.next _) differ', forall_done_next, kept, and_iff_left done]
      refine and_congr_right fun _ => ?_
      constructor
      · rintro ⟨es, all, rfl⟩
        exact ⟨e :: es, .cons taken all, (List.append_cons _ _ _)⟩
      · rintro ⟨_, _ | ⟨first, all⟩, rfl⟩
        rw [taken.eq first]
        exact ⟨_, all, (List.append_cons _ _ _).symm⟩
    · have notDone : s.answer (putOf p) ≠ .done := fun done =>
        taken (sound.takes_of_done nothing free done)
      have differ' : ((s.next (putOf p)).kept.map Prod.fst ++ rest.map Prod.fst).Nodup := by
        rw [kept_of_not_done notDone]
        exact differ.sublist ((List.sublist_cons_self _ _).append_left _)
      rw [ih (sound.next _) differ', forall_done_next]
      constructor
      · rintro ⟨⟨-, done⟩, -⟩
        exact absurd done notDone
      · rintro ⟨-, _, _ | ⟨first, -⟩, -⟩
        exact absurd ⟨_, first⟩ taken

omit nothing in
/-- A catalog is built of what is kept, if there is any. -/
theorem IsSound.build_iff (sound : s.IsSound) {c : Catalog α} :
    (∃ place, s.answer .build = .catalog place ∧ (s.next .build).memory.read place = c) ↔
      s.kept = c ∧ c ≠ [] := by
  cases s.does .build with
  | @build built concluded answer _ memory =>
    rw [sound.entries] at concluded
    have some : s.kept ≠ [] := by
      intro none
      rw [none] at concluded
      cases concluded
    rw [conclude_eq_ok some sound.valid] at concluded
    cases concluded
    have read : (s.next .build).memory.read s.memory.next = s.kept := by
      rw [memory, Memory.read_withNew]
    constructor
    · rintro ⟨place, same, rfl⟩
      rw [answer] at same
      cases same
      rw [read]
      exact ⟨rfl, some⟩
    · rintro ⟨rfl, -⟩
      exact ⟨_, answer, read⟩
  | refused answer _ _ =>
    constructor
    · rintro ⟨place, same, -⟩
      rw [answer] at same
      cases same
    · rintro ⟨rfl, some⟩
      have concluded := conclude_eq_ok some sound.valid
      rw [← sound.entries] at concluded
      have built : s.answer .build = .catalog s.memory.next :=
        congrArg Prod.fst (call_build_of_ok concluded)
      rw [built] at answer
      cases answer

end Session

/-- A builder builds the entries that are taken from the puts, if there are any. -/
theorem builds_iff (m : Memory α) {pairs : List (String × Value)}
    (differ : (pairs.map Prod.fst).Nodup) {c : Catalog α} :
    Builds m pairs c ↔ List.Forall₂ Takes pairs c ∧ c ≠ [] := by
  have sound : (Session.start m).IsSound := Session.isSound_start m
  have puts := @Session.IsSound.done_puts_iff α _ nothing _ sound pairs differ c
  rw [Builds, (sound.after _).build_iff, ← and_assoc, puts]
  have kept : (Session.start m).kept = [] := rfl
  have past : (Session.start m).past = [] := rfl
  simp [kept, past]

end Puts

/-! ## The check -/

/-- A mapping is checked as the catalog of the entries that are taken from it, if there are any. -/
theorem check_record_iff {pairs : List (String × Value)} {c : Catalog α} :
    Catalog.check (.record pairs) = .good c ↔ List.Forall₂ Takes pairs c ∧ c ≠ [] := by
  have named : (∃ es, dictionaryOf? (.record pairs) = some es ∧
      List.Forall₂ (fun e b => e.1 = b.1 ∧ CatalogEntry.check e.2 = .good b.2) es c) ↔
        List.Forall₂ (fun e b => e.1 = b.1 ∧ CatalogEntry.check e.2 = .good b.2) pairs c := by
    rw [Value.dictionaryOf?_record]
    simp only [Option.some.injEq, exists_eq_left']
  have takes : List.Forall₂ Takes pairs c ↔ (∀ p ∈ pairs, Name.isValid p.1.toList = true) ∧
      List.Forall₂ (fun e b => e.1 = b.1 ∧ CatalogEntry.check e.2 = .good b.2) pairs c :=
    List.forall₂_and_left pairs c
  rw [Catalog.check_eq_good_iff, mapping_eq_good_iff, named, takes, and_comm (a := c ≠ []),
    ← and_assoc, and_comm (a := ∀ p ∈ pairs, _)]
  refine and_congr_left fun _ => and_congr_right fun all => ?_
  have valid {β : Type} (es : List (String × β)) :
      (∀ name ∈ es.map Prod.fst, Name.isValid name.toList = true) ↔
        ∀ e ∈ es, Name.isValid e.1.toList = true := List.forall_mem_map
  rw [← valid, ← valid, names_of_entries all]

/-! ## The two ways -/

/-- **Entry by entry or as a whole, the same catalogs are accepted, and made.**  For values under
names that differ, a new builder takes all of them and builds a catalog exactly if their mapping is
accepted as this catalog, its entries in the same order. -/
theorem builds_iff_checked {pairs : List (String × Value)} (differ : (pairs.map Prod.fst).Nodup) :
    (∀ (m : Memory Schema) (c : Catalog Schema),
      Builds m pairs c ↔ Catalog.check (.record pairs) = .good c) ∧
    (∀ (m : Memory ApiError) (c : Catalog ApiError),
      Builds m pairs c ↔ Catalog.check (.record pairs) = .good c) := by
  refine ⟨fun m c => ?schemas, fun m c => ?errors⟩
  case schemas =>
    have nothing : ∀ entry : Schema, CatalogEntry.check .null ≠ .good entry := by
      rintro entry ⟨⟩
    rw [builds_iff nothing m differ, check_record_iff]
  case errors =>
    have nothing : ∀ entry : ApiError, CatalogEntry.check .null ≠ .good entry := by
      rintro entry ⟨⟩
    rw [builds_iff nothing m differ, check_record_iff]

/-- Two errors, of which the first has a text for its code. -/
def codedErrors : List (String × Value) := [
  ("Missing", .record [("code", .text "0404"), ("description", .text "No such pet")]),
  ("Busy", .record [("description", .text "Later"), ("code", .int 503), ("schema", .record [])])]

/-- Their catalog, which a builder makes because the mapping of them is accepted. -/
theorem builds_codedErrors : (codedErrors.map Prod.fst).Nodup ∧
    Builds ⟨[]⟩ codedErrors
      [("Missing", (⟨404, "No such pet", none⟩ : ApiError)),
        ("Busy", ⟨503, "Later", some ⟨[]⟩⟩)] := by
  have differ : (codedErrors.map Prod.fst).Nodup := by decide
  refine ⟨differ, ((builds_iff_checked differ).2 ⟨[]⟩ _).2 ?_⟩
  rfl

end CatalogBuilder
end ApiManual
