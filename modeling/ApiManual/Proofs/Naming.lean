import Mathlib.Algebra.GroupWithZero.Nat
import ApiManual.Descriptor
import ApiManual.Proofs.Results
import ApiManual.Proofs.Validation.Reordering
import ApiManual.Proofs.Yaml.UniqueKeys
import ApiManual.Proofs.Yaml.Values

/-!
# What is lost when keys become texts

The keys of a mapping become texts when a descriptor has been read.  Two keys with one text
are one key from then on, and the entry of the first of them is gone.  Nothing is lost beyond
that: a value keeps all its entries exactly if in each of its mappings all keys have
different texts (`Value.entryCount_nameKeys_eq_iff`).
-/

namespace ApiManual

/-! ## Entries with a weight -/

section Put

variable {κ α : Type} {same : κ → κ → Bool}

/-- What some entries weigh together, where each of them weighs at least one. -/
def totalWeight (weight : α → Nat) (es : List (κ × α)) : Nat :=
  (es.map fun e => weight e.2 + 1).sum

variable (weight : α → Nat)

theorem totalWeight_cons (e : κ × α) (es : List (κ × α)) :
    totalWeight weight (e :: es) = weight e.2 + 1 + totalWeight weight es := by
  rw [totalWeight, List.map_cons, List.sum_cons, totalWeight]

theorem totalWeight_append (es es' : List (κ × α)) :
    totalWeight weight (es ++ es') = totalWeight weight es + totalWeight weight es' := by
  rw [totalWeight, List.map_append, List.sum_append, totalWeight, totalWeight]

/-- Putting an entry adds no more than its weight. -/
theorem totalWeight_putEntry_le (k : κ) (v : α) (es : List (κ × α)) :
    totalWeight weight (putEntry same k v es) ≤ totalWeight weight es + (weight v + 1) := by
  induction es with
  | nil => simp [putEntry, totalWeight]
  | cons e rest ih =>
    obtain ⟨k', v'⟩ := e
    rw [putEntry]
    split
    · simp only [totalWeight_cons]
      omega
    · simp only [totalWeight_cons]
      omega

/-- An entry that takes the place of another one makes the weight less than it would be. -/
theorem totalWeight_putEntry_lt {k : κ} (v : α) {es : List (κ × α)}
    (found : ∃ e ∈ es, same e.1 k = true) :
    totalWeight weight (putEntry same k v es) < totalWeight weight es + (weight v + 1) := by
  induction es with
  | nil =>
    obtain ⟨e, mem, -⟩ := found
    cases mem
  | cons e rest ih =>
    obtain ⟨k', v'⟩ := e
    rw [putEntry]
    split
    · simp only [totalWeight_cons]
      omega
    · rename_i new
      obtain ⟨e, mem, is⟩ := found
      have mem := (List.mem_cons.1 mem).resolve_left (by rintro rfl; exact new is)
      have := ih ⟨e, mem, is⟩
      simp only [totalWeight_cons]
      omega

/-- Putting entries behind others adds no more than their weight, and just that if no key is
there already. -/
theorem totalWeight_foldl (es acc : List (κ × α)) :
    totalWeight weight (es.foldl (fun acc e => putEntry same e.1 e.2 acc) acc) ≤
      totalWeight weight acc + totalWeight weight es ∧
    (totalWeight weight (es.foldl (fun acc e => putEntry same e.1 e.2 acc) acc) =
      totalWeight weight acc + totalWeight weight es ↔
      (es.Pairwise fun a b => same a.1 b.1 = false) ∧
        ∀ e ∈ es, ∀ a ∈ acc, same a.1 e.1 = false) := by
  induction es generalizing acc with
  | nil => simp [totalWeight]
  | cons e rest ih =>
    obtain ⟨le, eq_iff⟩ := ih (putEntry same e.1 e.2 acc)
    have put := @totalWeight_putEntry_le κ α same weight e.1 e.2 acc
    rw [List.foldl_cons, totalWeight_cons]
    refine ⟨by omega, ?_⟩
    by_cases found : ∃ a ∈ acc, same a.1 e.1 = true
    · have less := totalWeight_putEntry_lt weight e.2 found
      refine iff_of_false (by omega) fun ⟨_, fresh⟩ => ?_
      obtain ⟨a, mem, is⟩ := found
      rw [fresh e List.mem_cons_self a mem] at is
      cases is
    · have fresh : ∀ a ∈ acc, same a.1 e.1 = false := fun a mem =>
        Bool.eq_false_iff.2 fun is => found ⟨a, mem, is⟩
      rw [putEntry_of_fresh e.2 fresh, totalWeight_append, totalWeight_cons] at eq_iff
      rw [putEntry_of_fresh e.2 fresh, ← Nat.add_assoc]
      refine eq_iff.trans ⟨fun ⟨apart, others⟩ => ?_, fun ⟨apart, others⟩ => ?_⟩
      · have here : e ∈ acc ++ [(e.1, e.2)] := List.mem_append_right _ List.mem_cons_self
        refine ⟨List.pairwise_cons.2 ⟨fun f mem => others f mem e here, apart⟩,
          List.forall_mem_cons.2 ⟨fresh, fun f mem a mem' => ?_⟩⟩
        exact others f mem a (List.mem_append_left _ mem')
      · obtain ⟨first, apart⟩ := List.pairwise_cons.1 apart
        refine ⟨apart, fun f mem => List.forall_mem_append.2 ⟨?_, ?_⟩⟩
        · exact others f (List.mem_cons_of_mem _ mem)
        · exact List.forall_mem_singleton.2 (first f mem)

/-- Putting entries one after the other keeps the weight exactly if all keys are different. -/
theorem totalWeight_putAll (es : List (κ × α)) :
    totalWeight weight (putAll same es) ≤ totalWeight weight es ∧
    (totalWeight weight (putAll same es) = totalWeight weight es ↔
      es.Pairwise fun a b => same a.1 b.1 = false) := by
  obtain ⟨le, eq_iff⟩ := @totalWeight_foldl κ α same weight es []
  have nil : totalWeight weight ([] : List (κ × α)) = 0 := rfl
  rw [nil, Nat.zero_add] at le eq_iff
  exact ⟨le, eq_iff.trans ⟨fun h => h.1, fun h => ⟨h, nofun⟩⟩⟩

end Put

namespace Value

mutual

/-- How many entries there are in all mappings of a value, under mappings and lists. -/
def entryCount : Value → Nat
  | .list items => itemsEntryCount items
  | .map entries => entriesEntryCount entries
  | _ => 0

/-- How many entries there are in the items of a list. -/
def itemsEntryCount : List Value → Nat
  | [] => 0
  | v :: rest => v.entryCount + itemsEntryCount rest

/-- How many entries a mapping has, and how many there are in the values under its keys. -/
def entriesEntryCount : List (Scalar × Value) → Nat
  | [] => 0
  | (_, v) :: rest => v.entryCount + 1 + entriesEntryCount rest

end

theorem entriesEntryCount_eq (es : List (Scalar × Value)) :
    entriesEntryCount es = totalWeight entryCount es := by
  induction es with
  | nil => rfl
  | cons e rest ih =>
    obtain ⟨k, v⟩ := e
    rw [entriesEntryCount, totalWeight_cons, ih]

theorem nameKeysEntries_eq (es : List (Scalar × Value)) :
    nameKeysEntries es = es.map fun e => (.text e.1.plain, e.2.nameKeys) := by
  induction es with
  | nil => rfl
  | cons e rest ih =>
    obtain ⟨k, v⟩ := e
    rw [nameKeysEntries, List.map_cons, ih]

/-- Under their texts, keys are different exactly if their texts are. -/
theorem pairwise_nameKeysEntries (es : List (Scalar × Value)) :
    ((nameKeysEntries es).Pairwise fun e f => e.1.sameKey f.1 = false) ↔
      es.Pairwise fun e f => e.1.plain ≠ f.1.plain := by
  rw [nameKeysEntries_eq, List.pairwise_map]
  simp [Scalar.sameKey, Scalar.identity]

/-- The mappings in a value, under mappings and lists. -/
inductive Holds : Value → List (Scalar × Value) → Prop where
  | here (es : List (Scalar × Value)) : Holds (.map es) es
  | item {items : List Value} {v : Value} {es : List (Scalar × Value)} :
      v ∈ items → Holds v es → Holds (.list items) es
  | entry {es es' : List (Scalar × Value)} {e : Scalar × Value} :
      e ∈ es → Holds e.2 es' → Holds (.map es) es'

/-- In each mapping of a value all keys have different texts. -/
def NamesApart (v : Value) : Prop :=
  ∀ es, v.Holds es → es.Pairwise fun e f => e.1.plain ≠ f.1.plain

theorem namesApart_list {items : List Value} :
    NamesApart (.list items) ↔ ∀ v ∈ items, v.NamesApart := by
  constructor
  · exact fun apart v mem es holds => apart es (.item mem holds)
  · rintro apart es (_ | ⟨mem, holds⟩)
    exact apart _ mem es holds

theorem namesApart_map {es : List (Scalar × Value)} : NamesApart (.map es) ↔
    (es.Pairwise fun e f => e.1.plain ≠ f.1.plain) ∧ ∀ e ∈ es, e.2.NamesApart := by
  constructor
  · exact fun apart => ⟨apart es (.here es), fun e mem es' holds => apart es' (.entry mem holds)⟩
  · rintro ⟨apart, inside⟩ es' (_ | _ | ⟨mem, holds⟩)
    · exact apart
    · exact inside _ mem es' holds

theorem namesApart_of_holds_nothing {v : Value} (none : ∀ es, ¬ v.Holds es) : v.NamesApart :=
  fun es holds => absurd holds (none es)

mutual

/-- **Naming the keys.**  A value gets no more entries, and keeps all it has exactly if in each of
its mappings all keys have different texts. -/
theorem entryCount_nameKeys : ∀ v : Value, v.nameKeys.entryCount ≤ v.entryCount ∧
    (v.nameKeys.entryCount = v.entryCount ↔ v.NamesApart)
  | .scalar s => by
    rw [nameKeys.eq_def]
    exact ⟨Nat.le_refl _, iff_of_true rfl (namesApart_of_holds_nothing nofun)⟩
  | .set items => by
    rw [nameKeys.eq_def]
    exact ⟨Nat.le_refl _, iff_of_true rfl (namesApart_of_holds_nothing nofun)⟩
  | .pair a b => by
    rw [nameKeys.eq_def]
    exact ⟨Nat.le_refl _, iff_of_true rfl (namesApart_of_holds_nothing nofun)⟩
  | .loop => by
    rw [nameKeys.eq_def]
    exact ⟨Nat.le_refl _, iff_of_true rfl (namesApart_of_holds_nothing nofun)⟩
  | .list items => by
    rw [nameKeys, entryCount, entryCount, namesApart_list]
    exact itemsEntryCount_nameKeysItems items
  | .map es => by
    obtain ⟨le, eq_iff⟩ := entriesEntryCount_nameKeysEntries es
    obtain ⟨put_le, put_eq_iff⟩ :=
      @totalWeight_putAll _ _ Scalar.sameKey entryCount (nameKeysEntries es)
    rw [← entriesEntryCount_eq, ← entriesEntryCount_eq] at put_le put_eq_iff
    rw [nameKeys, entryCount, entryCount, namesApart_map, ← eq_iff, ← pairwise_nameKeysEntries,
      ← put_eq_iff]
    omega

theorem itemsEntryCount_nameKeysItems : ∀ items : List Value,
    itemsEntryCount (nameKeysItems items) ≤ itemsEntryCount items ∧
    (itemsEntryCount (nameKeysItems items) = itemsEntryCount items ↔
      ∀ v ∈ items, v.NamesApart)
  | [] => ⟨Nat.le_refl _, iff_of_true rfl nofun⟩
  | v :: rest => by
    obtain ⟨le, eq_iff⟩ := entryCount_nameKeys v
    obtain ⟨les, eqs_iff⟩ := itemsEntryCount_nameKeysItems rest
    rw [nameKeysItems, itemsEntryCount, itemsEntryCount, List.forall_mem_cons, ← eq_iff, ← eqs_iff]
    omega

theorem entriesEntryCount_nameKeysEntries : ∀ es : List (Scalar × Value),
    entriesEntryCount (nameKeysEntries es) ≤ entriesEntryCount es ∧
    (entriesEntryCount (nameKeysEntries es) = entriesEntryCount es ↔
      ∀ e ∈ es, e.2.NamesApart)
  | [] => ⟨Nat.le_refl _, iff_of_true rfl nofun⟩
  | (k, v) :: rest => by
    obtain ⟨le, eq_iff⟩ := entryCount_nameKeys v
    obtain ⟨les, eqs_iff⟩ := entriesEntryCount_nameKeysEntries rest
    rw [nameKeysEntries, entriesEntryCount, entriesEntryCount, List.forall_mem_cons, ← eq_iff,
      ← eqs_iff]
    omega

end

theorem not_namesApart_iff {v : Value} : ¬ v.NamesApart ↔
    ∃ es e f, v.Holds es ∧ [e, f].Sublist es ∧ e.1.plain = f.1.plain := by
  constructor
  · intro close
    by_contra none
    refine close fun es holds => List.pairwise_iff_forall_sublist.2 fun {e f} sub same => ?_
    exact none ⟨es, e, f, holds, sub, same⟩
  · rintro ⟨es, e, f, holds, sub, same⟩ apart
    exact List.pairwise_iff_forall_sublist.1 (apart es holds) sub same

end Value

/-! ## Values that were read -/

namespace Yaml

theorem hasKeysOnce_iff {α : Type} {es : List (Scalar × α)} :
    HasKeysOnce es ↔ (es.map Prod.fst).Pairwise fun k l => k.sameKey l = false := by
  rw [HasKeysOnce, List.pairwise_map]

/-- A mapping that was made with each key once becomes one that has each key once. -/
theorem hasKeysOnce_of_value {made : Array (Option Made)}
    (once : ∀ (n : Nat) (es : List (Scalar × Nat)), made[n]?.join = some (.map es) →
      HasKeysOnce es) {fuel : Nat}
    {inPair : Bool} {outer : List Nat} {n : Nat} {v : Value} {es : List (Scalar × Value)}
    (h : Made.value made fuel inPair outer n = .ok v) (holds : v.Holds es) : HasKeysOnce es := by
  refine Made.value_induction
    (motive := fun _ v => ∀ es, v.Holds es → HasKeysOnce es) ?loop ?scalar ?set ?list ?map ?pairs h
    es holds
  case loop => rintro _ ⟨⟩
  case scalar => rintro _ _ _ ⟨⟩
  case set => rintro _ _ _ ⟨⟩
  case list =>
    rintro _ vs ih es (_ | ⟨mem, holds⟩)
    exact ih _ mem es holds
  case map =>
    intro _ n entries es' found keys ih es holds
    cases holds with
    | here =>
      rw [hasKeysOnce_iff, keys, ← hasKeysOnce_iff]
      exact once n entries found
    | entry mem holds => exact ih _ mem es holds
  case pairs =>
    -- What is inside a pair does not count.
    rintro _ vs parts es (_ | ⟨mem, holds⟩)
    obtain ⟨a, b, rfl, -, -⟩ := parts _ mem
    cases holds

end Yaml

namespace Descriptor

open Yaml

/-- A mapping that is read has each key once. -/
theorem hasKeysOnce_of_mappingOfText {text : String} {v : Value} (h : mappingOfText text = .ok v)
    {es : List (Scalar × Value)} (holds : v.Holds es) : HasKeysOnce es := by
  rw [mappingOfText] at h
  cases loaded : load (unifiedLines text.toList) with
  | error p => rw [loaded] at h; cases h
  | ok l =>
    have h : (if l.isMapping then l.value.mapError Fault.text else .error .notMapping) =
        Except.ok v := by
      rwa [loaded] at h
    split at h
    case isFalse => cases h
    have value : l.value = .ok v := by
      cases value : l.value with
      | error p => rw [value] at h; cases h
      | ok w => rw [value] at h; cases h; rfl
    rw [load] at loaded
    cases graph : Graph.ofChars (unifiedLines text.toList) with
    | error p => rw [graph] at loaded; cases loaded
    | ok g =>
      have loaded : g.load true = .ok l := by rwa [graph] at loaded
      by_cases root : g.root = none
      · rw [Graph.load, root] at loaded
        cases loaded
        cases value
        cases holds
      · obtain ⟨s, made, from_, -⟩ := Graph.settled_of_load loaded root
        rw [Loaded.value] at value
        split at value
        · cases value
          cases holds
        · exact hasKeysOnce_of_value (fun n es found => from_.maps (made ▸ found)) value holds

/-- **What is lost.**  When the keys of a descriptor become texts, entries are lost exactly if some
mapping has two different keys with the same text. -/
theorem loses_entries_iff {text : String} {v : Value} (h : mappingOfText text = .ok v) :
    v.nameKeys.entryCount < v.entryCount ↔
      ∃ es e f, v.Holds es ∧ [e, f].Sublist es ∧ e.1.sameKey f.1 = false ∧
        e.1.plain = f.1.plain := by
  obtain ⟨le, eq_iff⟩ := v.entryCount_nameKeys
  rw [Nat.lt_iff_le_and_ne, Ne, eq_iff, Value.not_namesApart_iff, and_iff_right le]
  constructor
  · rintro ⟨es, e, f, holds, sub, same⟩
    have differ := List.pairwise_pair.1 ((hasKeysOnce_of_mappingOfText h holds).sublist sub)
    exact ⟨es, e, f, holds, sub, differ, same⟩
  · rintro ⟨es, e, f, holds, sub, -, same⟩
    exact ⟨es, e, f, holds, sub, same⟩

/-- A descriptor with a schema that has the number one and the text `1` for keys. -/
def twins : String := "id: api\ndefinitions:\n  A:\n    1: a\n    '1': b\n"

/-- Of a number and its text as keys, one is lost. -/
theorem loses_entry_of_twins :
    ∃ v es e f, mappingOfText twins = .ok v ∧
      v.nameKeys.entryCount < v.entryCount ∧ v.Holds es ∧ [e, f].Sublist es ∧
      e.1.sameKey f.1 = false ∧ e.1.plain = f.1.plain := by
  have counts : (mappingOfText twins).toOption.map
      (fun v => (v.nameKeys.entryCount, v.entryCount)) = some (4, 5) := by
    decide +kernel
  cases read : mappingOfText twins with
  | error fault => rw [read] at counts; cases counts
  | ok v =>
    rw [read] at counts
    have counts : (v.nameKeys.entryCount, v.entryCount) = (4, 5) := Option.some.inj counts
    rw [Prod.mk.injEq] at counts
    have less : v.nameKeys.entryCount < v.entryCount := by omega
    obtain ⟨es, e, f, lost⟩ := (loses_entries_iff read).1 less
    exact ⟨v, es, e, f, rfl, less, lost⟩

/-- A descriptor that loses an entry is accepted all the same. -/
theorem accepts_lost_entry :
    ¬ ∀ (text : String) (v : Value) (d : Description), mappingOfText text = .ok v →
      ofText text = .ok d → v.nameKeys.entryCount = v.entryCount := by
  intro always
  have counts : (mappingOfText twins).toOption.map
      (fun v => (v.nameKeys.entryCount, v.entryCount)) = some (4, 5) := by
    decide +kernel
  have accepted :
      (ofText twins).toOption.isSome = true := by
    decide +kernel
  cases read : mappingOfText twins with
  | error fault => rw [read] at counts; cases counts
  | ok v =>
    cases described : ofText twins with
    | error fault => rw [described] at accepted; cases accepted
    | ok d =>
      rw [read] at counts
      have counts : (v.nameKeys.entryCount, v.entryCount) = (4, 5) := Option.some.inj counts
      rw [Prod.mk.injEq, always _ v d read described] at counts
      omega

end Descriptor
end ApiManual
