import ApiManual.Descriptor
import ApiManual.Proofs.Validation.Tables
import ApiManual.Proofs.Value.Named

/-!
# Descriptors in another order

The order of a descriptor means nothing outside the bodies of schemas, where keys of
mappings, actions and queries are concerned: two values of JSON that differ in such order
alone spell out descriptions both or neither, and a run does the same for these, however it
ends (`manual_of_reordered`).

The proof is an induction over how the values differ, from the innermost ones outwards:
values in one place come to the same there if their parts do in theirs (`agreeAs_list`,
`agreeAs_map`).  At the top this says that descriptions have the same of everything, in
whatever order, and so have one manual.
-/

namespace ApiManual

open Validation Checked

/-! ## Values by their form -/

/-- A scalar in one place comes to the same as itself. -/
theorem agreeAs_scalar (role : Role) (s : Scalar) : AgreeAs role (.scalar s) (.scalar s) := by
  cases role with
  | schema => exact Eq.refl _
  | other => exact Eq.refl _
  | path => exact ⟨rfl, fun _ => .refuse _ _, nofun⟩
  | operation => exact ⟨.refuse _ _, .refuse _ _, .refuse _ _, .refuse _ _, .refuse _ _⟩
  | _ => exact .refuse _ _

/-- As scalars, items that look the same are the same. -/
theorem map_flat_congr {vs ws : List Value} (h : List.Forall₂ (AgreeAs .other) vs ws) :
    vs.map Value.flat = ws.map Value.flat := by
  refine List.forall₂_eq_eq_eq ▸ ?_
  rw [List.forall₂_map_left_iff, List.forall₂_map_right_iff]
  refine h.imp fun v w same => ?_
  have same : v.surface = w.surface := same
  rw [← v.flat_surface, same, w.flat_surface]

/-- **Lists in one place come to the same if their items do**, in the order that counts there. -/
theorem agreeAs_list {role : Role} {vs ws vs' : List Value} (outside : role ≠ .schema)
    (items : List.Forall₂ (Matches role.item) vs ws)
    (order : ws = vs' ∨ role.IsUnordered ∧ ws.Perm vs') :
    AgreeAs role (.list vs) (.list vs') := by
  have agree : List.Forall₂ (AgreeAs role.item) vs ws := items.imp fun _ _ found => found.agree
  have perm : ws.Perm vs' := order.elim .of_eq And.right
  have same (ordered : ¬ role.IsUnordered) : ws = vs' :=
    order.resolve_right fun unordered => ordered unordered.1
  cases role with
  | schema => exact absurd rfl outside
  | actions => exact list_agree_perm agree perm
  | queries => exact list_agree_perm agree perm
  | parameters =>
    rw [← same (by decide)]
    exact list_agree agree
  | operationErrors =>
    rw [← same (by decide)]
    exact list_agree agree
  | other =>
    rw [← same (by decide)]
    exact congrArg Value.list (map_flat_congr agree)
  -- Everywhere else a list is refused.
  | path => exact ⟨rfl, fun _ => .refuse _ _, nofun⟩
  | operation => exact ⟨.refuse _ _, .refuse _ _, .refuse _ _, .refuse _ _, .refuse _ _⟩
  | _ => exact .refuse _ _

/-- The entries of a mapping under the texts of its keys. -/
def named (es : List (Scalar × Value)) : List (String × Value) := es.map fun e => (e.1.plain, e.2)

/-- If all keys are texts, these are the entries that are read. -/
theorem entriesOf?_eq_named {es : List (Scalar × Value)} (texts : ∀ e ∈ es, e.1.isText = true) :
    entriesOf? (.map es) = some (named es) := if_pos (List.all_eq_true.2 texts)

/-- **Mappings from texts in one place come to the same if their entries do.** -/
theorem agreeAs_map {role : Role} {es es' : List (Scalar × Value)} (outside : role ≠ .schema)
    (hv : entriesOf? (.map es) = some (named es)) (hv' : entriesOf? (.map es') = some (named es'))
    (h : EntriesMatch (role.within (.map es)) (named es) (named es')) :
    AgreeAs role (.map es) (.map es') := by
  have fields := h.fieldsAgree (role.within (.map es)).fields
  cases role with
  | schema => exact absurd rfl outside
  | description => exact Description.check_agree hv hv' fields
  | paths => exact PathTable.check_agree h hv hv'
  | path => exact paths_agree hv hv' h
  | versions => exact Versions.check_agree hv hv' h
  | resource => exact Resource.check_agree hv hv' fields
  | operation =>
    exact ⟨Create.check_agree hv hv' fields, Read.check_agree hv hv' fields,
      Update.check_agree hv hv' fields, Delete.check_agree hv hv' fields,
      Patch.check_agree hv hv' fields⟩
  | action => exact Action.check_agree hv hv' fields
  | query => exact Query.check_agree hv hv' fields
  | parameter => exact Parameter.check_agree hv hv' fields
  | error => exact ApiError.check_agree hv hv' fields
  | definitions =>
    exact Catalog.check_agree hv hv' h fun _ w w' found => agree_schema w w' found.agree
  | errors => exact Catalog.check_agree hv hv' h fun _ _ _ found => found.agree
  | other => exact Eq.refl (Value.map [])
  -- Where a list is expected, a mapping is refused.
  | actions => exact .refuse _ _
  | queries => exact .refuse _ _
  | parameters => exact .refuse _ _
  | operationErrors => exact .refuse _ _

/-! ## Values that differ in order -/

/-- Where all keys are texts, they still are in another order. -/
theorem areTexts_of_reorderedEntries : ∀ {role : Role} {es fs : List (Scalar × Value)},
    ReorderedEntries role es fs → (∀ e ∈ es, e.1.isText = true) → ∀ f ∈ fs, f.1.isText = true
  | _, _, _, .nil _, _ => List.forall_mem_nil _
  | _, _, _, .cons _ rest, texts => by
    obtain ⟨text, others⟩ := List.forall_mem_cons.1 texts
    exact List.forall_mem_cons.2 ⟨text, areTexts_of_reorderedEntries rest others⟩

mutual

/-- **Values of JSON that differ in order alone come to the same.** -/
theorem matches_of_reordered {role : Role} {v v' : Value} (h : Reordered role v v')
    (json : v.isJson = true) : Matches role v v' := by
  cases h with
  | schema v => exact ⟨Iff.rfl, rfl⟩
  | scalar role s => exact ⟨Iff.rfl, agreeAs_scalar role s⟩
  | list outside items order =>
    rw [Value.isJson] at json
    exact ⟨⟨nofun, nofun⟩, agreeAs_list outside (matches_of_reorderedItems items json) order⟩
  | map outside entries order =>
    rw [Value.isJson, Bool.and_eq_true, decide_eq_true_eq] at json
    have texts := Value.isText_of_entriesAreJson json.1
    have texts' := fun e mem => areTexts_of_reorderedEntries entries texts e (order.mem_iff.2 mem)
    refine ⟨⟨nofun, nofun⟩, agreeAs_map outside (entriesOf?_eq_named texts)
      (entriesOf?_eq_named texts')
      ⟨?_, _, matches_of_reorderedEntries entries json.1, order.map _⟩⟩
    rw [named, List.map_map]
    exact json.2

theorem matches_of_reorderedItems {role : Role} {vs ws : List Value}
    (h : ReorderedItems role vs ws) (json : Value.itemsAreJson vs = true) :
    List.Forall₂ (Matches role) vs ws := by
  cases h with
  | nil => exact .nil
  | cons first rest =>
    rw [Value.itemsAreJson, Bool.and_eq_true] at json
    exact .cons (matches_of_reordered first json.1) (matches_of_reorderedItems rest json.2)

theorem matches_of_reorderedEntries {role : Role} {es fs : List (Scalar × Value)}
    (h : ReorderedEntries role es fs) (json : Value.entriesAreJson es = true) :
    List.Forall₂ (fun x m => x.1 = m.1 ∧ Matches (role.under x.1) x.2 m.2) (named es)
      (named fs) := by
  cases h with
  | nil => exact .nil
  | cons value rest =>
    simp only [Value.entriesAreJson, Bool.and_eq_true] at json
    exact .cons ⟨rfl, matches_of_reordered value json.1.2⟩
      (matches_of_reorderedEntries rest json.2)

end

namespace Descriptor

/-- **The order of a descriptor means nothing** where keys of mappings are concerned, other than
in the bodies of schemas, nor does that of actions and queries.  Of two values of JSON that differ
in such order alone, both describe an interface or neither does.  If both do, then a run from one
file system ends in the same way for both: with the same files written, in the same order, the same
file system in the end, and the same failure, if there is one. -/
theorem manual_of_reordered {v v' : Value} (json : v.isJson = true) (json' : v'.isJson = true)
    (h : Reordered .description v v') :
    ((∃ d, ofValue v = .ok d) ↔ ∃ d', ofValue v' = .ok d') ∧
      ∀ d d', ofValue v = .ok d → ofValue v' = .ok d' → ∀ title out disk,
        Manual.generate title out disk d = Manual.generate title out disk d' := by
  have agree : Agree Description.Rearranged (Description.ofValue v) (Description.ofValue v') := by
    rw [Description.ofValue, Description.ofValue, Value.nameKeys_of_isJson v json,
      Value.nameKeys_of_isJson v' json']
    exact (matches_of_reordered h json).agree
  have told := Value.hasKeyTexts_of_isNamed v (Value.isNamed_of_isJson json)
  have told' := Value.hasKeyTexts_of_isNamed v' (Value.isNamed_of_isJson json')
  simp only [ofValue, told, told', if_true]
  generalize Description.ofValue v = c at agree
  generalize Description.ofValue v' = c' at agree
  cases agree with
  | good same =>
    refine ⟨⟨fun _ => ⟨_, rfl⟩, fun _ => ⟨_, rfl⟩⟩, ?_⟩
    rintro d d' ⟨⟩ ⟨⟩ title out disk
    exact Manual.generate_of_rearranged title out disk same
  | bad issues issues' =>
    refine ⟨iff_of_false ?_ ?_, ?_⟩
    · rintro ⟨d, ⟨⟩⟩
    · rintro ⟨d', ⟨⟩⟩
    · rintro d d' ⟨⟩

/-- The interface of pets as a value of JSON. -/
def petsValue : Value := .record [
  ("id", .text "pets"),
  ("paths", .record [
    ("/pets", .record [
      ("title", .text "Pets"),
      ("actions", .list [.record [("name", .text "feed")], .record [("name", .text "groom")]])]),
    ("/owners", .record [("title", .text "Owners")])])]

/-- The same interface, with everything the other way round. -/
def shuffledPetsValue : Value := .record [
  ("paths", .record [
    ("/owners", .record [("title", .text "Owners")]),
    ("/pets", .record [
      ("actions", .list [.record [("name", .text "groom")], .record [("name", .text "feed")]]),
      ("title", .text "Pets")])]),
  ("id", .text "pets")]

theorem reordered_pets : Reordered .description petsValue shuffledPetsValue := by
  refine .map (by decide) (.cons (.refl _ _ (by decide)) (.cons ?paths (.nil _))) (.swap ..)
  refine .map (by decide) (.cons ?pets (.cons (.refl _ _ (by decide)) (.nil _))) (.swap ..)
  refine .map (by decide) (.cons (.refl _ _ (by decide)) (.cons ?actions (.nil _))) (.swap ..)
  exact .list (by decide) (.refl _ _ (by decide)) (.inr ⟨by decide, .swap ..⟩)

/-- One manual for both. -/
theorem manual_of_pets :
    petsValue.isJson = true ∧ shuffledPetsValue.isJson = true ∧
      Reordered .description petsValue shuffledPetsValue ∧
      ∃ d d', ofValue petsValue = .ok d ∧ ofValue shuffledPetsValue = .ok d' ∧
        ∀ title out disk, Manual.generate title out disk d = Manual.generate title out disk d' := by
  have json : petsValue.isJson = true := by decide
  have json' : shuffledPetsValue.isJson = true := by decide
  have accepted : ∃ d, ofValue petsValue = .ok d := ⟨_, rfl⟩
  have same := manual_of_reordered json json' reordered_pets
  obtain ⟨d', accepted'⟩ := same.1.1 accepted
  obtain ⟨d, accepted⟩ := accepted
  exact ⟨json, json', reordered_pets, d, d', accepted, accepted', same.2 d d' accepted accepted'⟩

end Descriptor
end ApiManual
