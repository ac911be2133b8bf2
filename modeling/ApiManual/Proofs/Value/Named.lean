import ApiManual.Proofs.Naming

/-!
# Values whose keys are texts

Naming the keys of a value leads to one in which all keys are texts, and none stands twice in
one mapping (`Value.isNamed_nameKeys`).  A value that is like this already stays as it is
(`Value.nameKeys_of_isNamed`).  So the keys of a value need to be named once only.

Such a value is built from records and lists, and the entries of a record are those that it is
built from.
-/

namespace ApiManual

open Validation

section Put

variable {α : Type}

/-- Entries that have been put have each key once. -/
theorem hasKeysOnce_putAll (es : List (Scalar × α)) :
    Yaml.HasKeysOnce (putAll Scalar.sameKey es) := by
  have behind (rest acc : List (Scalar × α)) (before : Yaml.HasKeysOnce acc) :
      Yaml.HasKeysOnce (rest.foldl (fun acc e => putEntry Scalar.sameKey e.1 e.2 acc) acc) := by
    induction rest generalizing acc with
    | nil => exact before
    | cons e rest ih => exact ih _ (before.putEntry e.1 e.2)
  exact behind es [] .nil

end Put

namespace Value

/-- In each mapping of a value the keys are texts, and none stands twice. -/
def IsNamed (v : Value) : Prop :=
  ∀ es, v.Holds es → (∀ e ∈ es, e.1.isText = true) ∧ (es.map fun e => e.1.plain).Nodup

theorem isNamed_of_holds_nothing {v : Value} (none : ∀ es, ¬ v.Holds es) : v.IsNamed :=
  fun es holds => absurd holds (none es)

@[simp] theorem isNamed_scalar (s : Scalar) : (Value.scalar s).IsNamed :=
  isNamed_of_holds_nothing fun _ holds => by cases holds

theorem isNamed_list {items : List Value} :
    IsNamed (.list items) ↔ ∀ v ∈ items, v.IsNamed := by
  constructor
  · exact fun named v mem es holds => named es (.item mem holds)
  · rintro named es (_ | ⟨mem, holds⟩)
    exact named _ mem es holds

theorem isNamed_map {es : List (Scalar × Value)} : IsNamed (.map es) ↔
    ((∀ e ∈ es, e.1.isText = true) ∧ (es.map fun e => e.1.plain).Nodup) ∧
      ∀ e ∈ es, e.2.IsNamed := by
  constructor
  · exact fun named => ⟨named es (.here es), fun e mem es' holds => named es' (.entry mem holds)⟩
  · rintro ⟨named, inside⟩ es' (_ | _ | ⟨mem, holds⟩)
    · exact named
    · exact inside _ mem es' holds

/-! ## Naming the keys once -/

/-- Texts that are different keys are different. -/
theorem nodup_of_hasKeysOnce {es : List (Scalar × Value)} (texts : ∀ e ∈ es, e.1.isText = true)
    (once : Yaml.HasKeysOnce es) : (es.map fun e => e.1.plain).Nodup := by
  refine List.pairwise_map.2 (List.Pairwise.imp_of_mem (fun {a b} ha hb differ same => ?_) once)
  obtain ⟨s, hs⟩ := exists_text_of_isText (texts a ha)
  obtain ⟨t, ht⟩ := exists_text_of_isText (texts b hb)
  rw [hs, ht] at differ same
  rw [show s = t from same, Scalar.sameKey_refl] at differ
  cases differ

mutual

/-- **With its keys named**, a value has texts for keys. -/
theorem isNamed_nameKeys : ∀ v : Value, v.nameKeys.IsNamed
  | .scalar s => by
    rw [nameKeys.eq_def]
    exact isNamed_scalar s
  | .set items => by
    rw [nameKeys.eq_def]
    exact isNamed_of_holds_nothing nofun
  | .pair a b => by
    rw [nameKeys.eq_def]
    exact isNamed_of_holds_nothing nofun
  | .loop => by
    rw [nameKeys.eq_def]
    exact isNamed_of_holds_nothing nofun
  | .list items => by
    rw [nameKeys]
    exact isNamed_list.2 (isNamed_nameKeysItems items)
  | .map es => by
    have all : ∀ e ∈ putAll Scalar.sameKey (nameKeysEntries es), e.1.isText = true ∧ e.2.IsNamed :=
      forall_mem_putAll (Scalar.isText · = true) IsNamed (isNamed_nameKeysEntries es)
    have texts := fun e mem => (all e mem).1
    rw [nameKeys]
    exact isNamed_map.2 ⟨⟨texts, nodup_of_hasKeysOnce texts (hasKeysOnce_putAll _)⟩,
      fun e mem => (all e mem).2⟩

theorem isNamed_nameKeysItems :
    ∀ items : List Value, ∀ v ∈ nameKeysItems items, v.IsNamed
  | [] => nofun
  | v :: rest => by
    rw [nameKeysItems]
    exact List.forall_mem_cons.2 ⟨isNamed_nameKeys v, isNamed_nameKeysItems rest⟩

theorem isNamed_nameKeysEntries :
    ∀ es : List (Scalar × Value), ∀ e ∈ nameKeysEntries es, e.1.isText = true ∧ e.2.IsNamed
  | [] => nofun
  | (k, v) :: rest => by
    rw [nameKeysEntries]
    exact List.forall_mem_cons.2 ⟨⟨rfl, isNamed_nameKeys v⟩, isNamed_nameKeysEntries rest⟩

end

mutual

/-- A value with texts for keys stays as it is. -/
theorem nameKeys_of_isNamed : ∀ v : Value, v.IsNamed → v.nameKeys = v
  | .scalar s, _ => by rw [nameKeys.eq_def]
  | .set items, _ => by rw [nameKeys.eq_def]
  | .pair a b, _ => by rw [nameKeys.eq_def]
  | .loop, _ => by rw [nameKeys.eq_def]
  | .list items, named => by
    rw [nameKeys, nameKeysItems_of_areNamed items (isNamed_list.1 named)]
  | .map es, named => by
    obtain ⟨⟨texts, differ⟩, inside⟩ := isNamed_map.1 named
    rw [nameKeys, nameKeysEntries_of_areNamed es texts inside,
      putAll_of_pairwise (pairwise_sameKey texts differ)]

theorem nameKeysItems_of_areNamed :
    ∀ items : List Value, (∀ v ∈ items, v.IsNamed) → nameKeysItems items = items
  | [], _ => by rw [nameKeysItems]
  | v :: rest, named => by
    obtain ⟨first, others⟩ := List.forall_mem_cons.1 named
    rw [nameKeysItems, nameKeys_of_isNamed v first, nameKeysItems_of_areNamed rest others]

theorem nameKeysEntries_of_areNamed :
    ∀ es : List (Scalar × Value), (∀ e ∈ es, e.1.isText = true) → (∀ e ∈ es, e.2.IsNamed) →
      nameKeysEntries es = es
  | [], _, _ => by rw [nameKeysEntries]
  | (k, v) :: rest, texts, named => by
    obtain ⟨text, others⟩ := List.forall_mem_cons.1 texts
    obtain ⟨first, inside⟩ := List.forall_mem_cons.1 named
    obtain ⟨t, rfl⟩ := exists_text_of_isText text
    rw [nameKeysEntries, nameKeys_of_isNamed v first,
      nameKeysEntries_of_areNamed rest others inside,
      Scalar.plain_text]

end

mutual

/-- The keys of such a value have texts. -/
theorem hasKeyTexts_of_isNamed : ∀ v : Value, v.IsNamed → v.hasKeyTexts = true
  | .scalar s, _ => by rw [hasKeyTexts.eq_def]
  | .set items, _ => by rw [hasKeyTexts.eq_def]
  | .pair a b, _ => by rw [hasKeyTexts.eq_def]
  | .loop, _ => by rw [hasKeyTexts.eq_def]
  | .list items, named => by
    rw [hasKeyTexts]
    exact itemsHaveKeyTexts_of_areNamed items (isNamed_list.1 named)
  | .map es, named => by
    obtain ⟨⟨texts, -⟩, inside⟩ := isNamed_map.1 named
    rw [hasKeyTexts]
    exact entriesHaveKeyTexts_of_areNamed es texts inside

theorem itemsHaveKeyTexts_of_areNamed :
    ∀ items : List Value, (∀ v ∈ items, v.IsNamed) → itemsHaveKeyTexts items = true
  | [], _ => by rw [itemsHaveKeyTexts]
  | v :: rest, named => by
    obtain ⟨first, others⟩ := List.forall_mem_cons.1 named
    rw [itemsHaveKeyTexts, hasKeyTexts_of_isNamed v first, itemsHaveKeyTexts_of_areNamed rest others,
      Bool.and_true]

theorem entriesHaveKeyTexts_of_areNamed :
    ∀ es : List (Scalar × Value), (∀ e ∈ es, e.1.isText = true) → (∀ e ∈ es, e.2.IsNamed) →
      entriesHaveKeyTexts es = true
  | [], _, _ => by rw [entriesHaveKeyTexts]
  | (k, v) :: rest, texts, named => by
    obtain ⟨text, others⟩ := List.forall_mem_cons.1 texts
    obtain ⟨first, inside⟩ := List.forall_mem_cons.1 named
    obtain ⟨t, rfl⟩ := exists_text_of_isText text
    rw [entriesHaveKeyTexts, hasKeyTexts_of_isNamed v first,
      entriesHaveKeyTexts_of_areNamed rest others inside, Scalar.hasText_text, Bool.and_true,
      Bool.and_true]

end

/-- A value of JSON is one of them. -/
theorem isNamed_of_isJson {v : Value} (json : v.isJson = true) : v.IsNamed := by
  rw [← nameKeys_of_isJson v json]
  exact isNamed_nameKeys v

/-! ## Records -/

theorem isNamed_record {fields : List (String × Value)} : (record fields).IsNamed ↔
    (fields.map Prod.fst).Nodup ∧ ∀ f ∈ fields, f.2.IsNamed := by
  rw [record, isNamed_map, List.forall_mem_map, List.forall_mem_map, List.map_map]
  exact and_congr_left fun _ => and_iff_right fun _ _ => rfl

@[simp] theorem entriesOf?_record (fields : List (String × Value)) :
    entriesOf? (record fields) = some fields := entriesOf?_eq_some_iff.2 rfl

@[simp] theorem dictionaryOf?_record (fields : List (String × Value)) :
    dictionaryOf? (record fields) = some fields := dictionaryOf?_of_entries (entriesOf?_record fields)

/-- A mapping with texts for keys is the record of its entries. -/
theorem IsNamed.eq_record {v : Value} {es : List (String × Value)} (named : v.IsNamed)
    (hv : dictionaryOf? v = some es) : v = record es := by
  cases v with
  | map entries =>
    obtain ⟨⟨texts, -⟩, -⟩ := isNamed_map.1 named
    have given : entriesOf? (.map entries) = some (entries.map fun e => (e.1.plain, e.2)) :=
      if_pos (List.all_eq_true.2 texts)
    rw [dictionaryOf?_of_entries given] at hv
    rw [entriesOf?_eq_some_iff.1 given, Option.some.inj hv]
  | _ => cases hv

end Value
end ApiManual
