import ApiManual.Value.Text

/-!
# Keys of mappings

Two scalars are one key when they are equal as values: a number is the same key
whether it is written as a whole number, a decimal fraction or a truth value, and
moments with an offset are compared as instants.  A mapping holds each key once.

Descriptors name things by texts, so a mapping that has been read gets the plain
texts of its keys as keys.  Two different keys may have the same text; then the
later entry takes the place of the earlier one.  A key without a text cannot be named
at all.
-/

namespace ApiManual

namespace Scalar

/-- What two scalars have in common when they are one key. -/
inductive Identity where
  | null
  | number (n : Int)
  | float (x : Binary64)
  | text (s : String)
  | bytes (bs : List UInt8)
  | date (d : Date)
  | instant (t : Bool × Int)
  deriving DecidableEq, Repr

/-- What a scalar is as a key. -/
def identity : Scalar → Identity
  | .null => .null
  | .bool b => .number (if b then 1 else 0)
  | .int n => .number n
  | .float x => match x.toInt? with
    | some n => .number n
    | none => .float x
  | .text s => .text s
  | .bytes bs => .bytes bs
  | .date d => .date d
  | .moment t => .instant t.instant

/-- Whether two scalars are one key. -/
def sameKey (a b : Scalar) : Bool := a.identity = b.identity

@[simp] theorem sameKey_refl (a : Scalar) : sameKey a a = true := by simp [sameKey]

end Scalar

/-- The entries after one more has been put: the value of a key that is there
already is replaced where it stands, a new key goes to the end. -/
def putEntry (same : κ → κ → Bool) (k : κ) (v : α) : List (κ × α) → List (κ × α)
  | [] => [(k, v)]
  | (k', v') :: rest =>
    if same k' k then (k', v) :: rest else (k', v') :: putEntry same k v rest

/-- The entries put one after the other. -/
def putAll (same : κ → κ → Bool) (entries : List (κ × α)) : List (κ × α) :=
  entries.foldl (fun acc e => putEntry same e.1 e.2 acc) []

/-- What holds of keys and of values still does when an entry is put. -/
theorem forall_mem_putEntry {same : κ → κ → Bool} {P : κ → Prop} {Q : α → Prop} {k : κ}
    {v : α} {es : List (κ × α)} (key : P k) (value : Q v)
    (all : ∀ e ∈ es, P e.1 ∧ Q e.2) : ∀ e ∈ putEntry same k v es, P e.1 ∧ Q e.2 := by
  induction es with
  | nil => exact List.forall_mem_singleton.2 ⟨key, value⟩
  | cons e rest ih =>
    obtain ⟨k', v'⟩ := e
    obtain ⟨first, others⟩ := List.forall_mem_cons.1 all
    rw [putEntry]
    split
    · exact List.forall_mem_cons.2 ⟨⟨first.1, value⟩, others⟩
    · exact List.forall_mem_cons.2 ⟨first, ih others⟩

theorem forall_mem_putAll {same : κ → κ → Bool} (P : κ → Prop) (Q : α → Prop) {es : List (κ × α)}
    (all : ∀ e ∈ es, P e.1 ∧ Q e.2) : ∀ e ∈ putAll same es, P e.1 ∧ Q e.2 := by
  have behind (rest acc : List (κ × α)) (all : ∀ e ∈ rest, P e.1 ∧ Q e.2)
      (before : ∀ e ∈ acc, P e.1 ∧ Q e.2) :
      ∀ e ∈ rest.foldl (fun acc e => putEntry same e.1 e.2 acc) acc, P e.1 ∧ Q e.2 := by
    induction rest generalizing acc with
    | nil => exact before
    | cons e rest ih =>
      obtain ⟨first, others⟩ := List.forall_mem_cons.1 all
      exact ih _ others (forall_mem_putEntry first.1 first.2 before)
  exact behind es [] all nofun

namespace Value

mutual

/-- A value with texts for keys, in every mapping under mappings and lists. -/
def nameKeys : Value → Value
  | .list items => .list (nameKeysItems items)
  | .map entries => .map (putAll Scalar.sameKey (nameKeysEntries entries))
  | v => v

/-- The items of a list with texts for keys. -/
def nameKeysItems : List Value → List Value
  | [] => []
  | v :: rest => v.nameKeys :: nameKeysItems rest

/-- The entries of a mapping under the texts of their keys. -/
def nameKeysEntries : List (Scalar × Value) → List (Scalar × Value)
  | [] => []
  | (k, v) :: rest => (.text k.plain, v.nameKeys) :: nameKeysEntries rest

end

mutual

/-- Whether the keys have texts, in every mapping under mappings and lists. -/
def hasKeyTexts : Value → Bool
  | .list items => itemsHaveKeyTexts items
  | .map entries => entriesHaveKeyTexts entries
  | _ => true

/-- Whether the keys in the items of a list have texts. -/
def itemsHaveKeyTexts : List Value → Bool
  | [] => true
  | v :: rest => v.hasKeyTexts && itemsHaveKeyTexts rest

/-- Whether the keys of a mapping and those in its values have texts. -/
def entriesHaveKeyTexts : List (Scalar × Value) → Bool
  | [] => true
  | (k, v) :: rest => k.hasText && v.hasKeyTexts && entriesHaveKeyTexts rest

end

theorem hasKeyTexts_list_iff {items : List Value} :
    (Value.list items).hasKeyTexts = true ↔ ∀ v ∈ items, v.hasKeyTexts = true := by
  rw [hasKeyTexts]
  induction items with
  | nil => simp [itemsHaveKeyTexts]
  | cons v rest ih => simp [itemsHaveKeyTexts, ih]

theorem hasKeyTexts_map_iff {es : List (Scalar × Value)} :
    (Value.map es).hasKeyTexts = true ↔ ∀ e ∈ es, e.1.hasText = true ∧ e.2.hasKeyTexts = true := by
  rw [hasKeyTexts]
  induction es with
  | nil => simp [entriesHaveKeyTexts]
  | cons e rest ih => simp [entriesHaveKeyTexts, ih]

end Value
end ApiManual
