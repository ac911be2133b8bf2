import ApiManual.Json.Writer
import ApiManual.Proofs.Json.Lines

/-!
# Values that can be written

Writing a value fails in three cases only, and all are about a part of it, at any depth: a mapping
with bytes, a date or a moment for a key, the place at which a value comes back to itself, and a
whole number without a text.  A value that has none of these is written, and no other one is
(`Json.exists_write_iff`).

Where all numbers have texts and nothing else of this kind stands outside of pairs, it is enough to
look into the pairs (`Value.isWritable_of_pairs`).
-/

namespace ApiManual

/-- Whether a scalar has a form as the name of a member. -/
def Scalar.isMemberName : Scalar → Bool
  | .bytes _ | .date _ | .moment _ => false
  | _ => true

namespace Value

/-! ## Parts -/

/-- The parts of a value, itself included. -/
inductive HasPart : Value → Value → Prop where
  | self (v : Value) : HasPart v v
  | item {items : List Value} {v w : Value} : v ∈ items → HasPart v w → HasPart (.list items) w
  | entry {es : List (Scalar × Value)} {e : Scalar × Value} {w : Value} :
      e ∈ es → HasPart e.2 w → HasPart (.map es) w
  | first {a b w : Value} : HasPart a w → HasPart (.pair a b) w
  | second {a b w : Value} : HasPart b w → HasPart (.pair a b) w

/-- The parts of a value that stand in no pair, itself included. -/
inductive HasOuterPart : Value → Value → Prop where
  | self (v : Value) : HasOuterPart v v
  | item {items : List Value} {v w : Value} :
      v ∈ items → HasOuterPart v w → HasOuterPart (.list items) w
  | entry {es : List (Scalar × Value)} {e : Scalar × Value} {w : Value} :
      e ∈ es → HasOuterPart e.2 w → HasOuterPart (.map es) w

/-- A part stands in no pair, or in one that stands in no pair itself. -/
theorem HasPart.outer_or_inside {v w : Value} (h : v.HasPart w) :
    v.HasOuterPart w ∨ ∃ a b, v.HasOuterPart (.pair a b) ∧ (a.HasPart w ∨ b.HasPart w) := by
  induction h with
  | self v => exact .inl (.self v)
  | item mem _ ih =>
    rcases ih with outer | ⟨a, b, outer, inside⟩
    · exact .inl (.item mem outer)
    · exact .inr ⟨a, b, .item mem outer, inside⟩
  | entry mem _ ih =>
    rcases ih with outer | ⟨a, b, outer, inside⟩
    · exact .inl (.entry mem outer)
    · exact .inr ⟨a, b, .entry mem outer, inside⟩
  | first inside _ => exact .inr ⟨_, _, .self _, .inl inside⟩
  | second inside _ => exact .inr ⟨_, _, .self _, .inr inside⟩

/-! ## Writable values -/

/-- No part of a value is in the way of writing it. -/
structure IsWritable (v : Value) : Prop where
  keys : ∀ es, v.HasPart (.map es) → ∀ e ∈ es, e.1.isMemberName = true
  ends : ¬ v.HasPart .loop
  numbers : v.hasText = true

theorem isWritable_scalar {s : Scalar} : (Value.scalar s).IsWritable ↔ s.hasText = true :=
  ⟨IsWritable.numbers, fun numbers => ⟨nofun, nofun, numbers⟩⟩

theorem isWritable_set {items : List Scalar} :
    (Value.set items).IsWritable ↔ items.all Scalar.hasText = true :=
  ⟨IsWritable.numbers, fun numbers => ⟨nofun, nofun, numbers⟩⟩

theorem not_isWritable_loop : ¬ loop.IsWritable := fun h => h.ends (.self loop)

theorem isWritable_list {items : List Value} :
    IsWritable (.list items) ↔ ∀ v ∈ items, v.IsWritable := by
  constructor
  · intro h v mem
    exact ⟨fun es part => h.keys es (.item mem part), fun part => h.ends (.item mem part),
      hasText_list_iff.1 h.numbers v mem⟩
  · intro h
    refine ⟨?_, ?_, hasText_list_iff.2 fun v mem => (h v mem).numbers⟩
    · rintro es (_ | ⟨mem, part⟩)
      exact (h _ mem).keys es part
    · rintro (_ | ⟨mem, part⟩)
      exact (h _ mem).ends part

theorem isWritable_map {es : List (Scalar × Value)} : IsWritable (.map es) ↔
    ∀ e ∈ es, (e.1.isMemberName = true ∧ e.1.hasText = true) ∧ e.2.IsWritable := by
  constructor
  · intro h e mem
    obtain ⟨key, value⟩ := hasText_map_iff.1 h.numbers e mem
    exact ⟨⟨h.keys es (.self _) e mem, key⟩, fun es' part => h.keys es' (.entry mem part),
      fun part => h.ends (.entry mem part), value⟩
  · intro h
    refine ⟨?_, ?_, hasText_map_iff.2 fun e mem => ⟨(h e mem).1.2, (h e mem).2.numbers⟩⟩
    · rintro es' (_ | _ | ⟨mem, part⟩)
      · exact fun e mem => (h e mem).1.1
      · exact (h _ mem).2.keys es' part
    · rintro (_ | _ | ⟨mem, part⟩)
      exact (h _ mem).2.ends part

theorem isWritable_pair {a b : Value} : IsWritable (.pair a b) ↔ a.IsWritable ∧ b.IsWritable := by
  constructor
  · intro h
    obtain ⟨first, second⟩ := hasText_pair_iff.1 h.numbers
    exact ⟨⟨fun es part => h.keys es (.first part), fun part => h.ends (.first part), first⟩,
      fun es part => h.keys es (.second part), fun part => h.ends (.second part), second⟩
  · rintro ⟨ha, hb⟩
    refine ⟨?_, ?_, hasText_pair_iff.2 ⟨ha.numbers, hb.numbers⟩⟩
    · rintro es (_ | _ | _ | part | part)
      · exact ha.keys es part
      · exact hb.keys es part
    · rintro (_ | _ | _ | part | part)
      · exact ha.ends part
      · exact hb.ends part

/-- **It is enough to look into the pairs**, where the numbers have texts and nothing else is in the
way outside of them. -/
theorem isWritable_of_pairs {v : Value}
    (keys : ∀ es, v.HasOuterPart (.map es) → ∀ e ∈ es, e.1.isMemberName = true)
    (ends : ¬ v.HasOuterPart .loop) (numbers : v.hasText = true)
    (pairs : ∀ a b, v.HasOuterPart (.pair a b) → a.IsWritable ∧ b.IsWritable) : v.IsWritable := by
  refine ⟨?_, ?_, numbers⟩
  · intro es part
    rcases part.outer_or_inside with outer | ⟨a, b, outer, inside | inside⟩
    · exact keys es outer
    · exact (pairs a b outer).1.keys es inside
    · exact (pairs a b outer).2.keys es inside
  · intro part
    rcases part.outer_or_inside with outer | ⟨a, b, outer, inside | inside⟩
    · exact ends outer
    · exact (pairs a b outer).1.ends inside
    · exact (pairs a b outer).2.ends inside

end Value

namespace Json

/-! ## Writing them -/

theorem exists_ifSpelled_iff {haveTexts : Bool} {a : α} :
    (∃ b, ifSpelled haveTexts a = .ok b) ↔ haveTexts = true := by
  simp only [ifSpelled_eq_ok_iff, exists_and_left, exists_eq', and_true]

theorem exists_writeKey_iff (k : Scalar) :
    (∃ cs, writeKey k = .ok cs) ↔ k.isMemberName = true ∧ k.hasText = true := by
  cases k with
  | int n => simp only [writeKey, exists_ifSpelled_iff, Scalar.isMemberName, Scalar.hasText, true_and]
  | _ => simp [writeKey, Scalar.isMemberName, Scalar.hasText]

mutual

/-- **A value can be written exactly if nothing is in the way**, at whatever depth it stands. -/
theorem exists_write_iff (depth : Nat) : ∀ v : Value,
    (∃ cs, write depth v = .ok cs) ↔ v.IsWritable
  | .scalar s => by rw [write, exists_ifSpelled_iff, Value.isWritable_scalar]
  | .set items => by rw [write, exists_ifSpelled_iff, Value.isWritable_set]
  | .loop => by
    rw [write]
    exact iff_of_false nofun Value.not_isWritable_loop
  | .list [] => by
    rw [write, Value.isWritable_list]
    exact iff_of_true ⟨_, rfl⟩ (List.forall_mem_nil _)
  | .list (v :: rest) => by
    rw [write, Result.exists_bind₂_iff, exists_write_iff (depth + 1) v,
      exists_writeItems_iff (depth + 1) rest, Value.isWritable_list, List.forall_mem_cons]
  | .pair a b => by
    rw [write, Result.exists_bind₂_iff, exists_write_iff (depth + 1) a, exists_write_iff (depth + 1) b,
      Value.isWritable_pair]
  | .map [] => by
    rw [write, Value.isWritable_map]
    exact iff_of_true ⟨_, rfl⟩ (List.forall_mem_nil _)
  | .map ((k, v) :: rest) => by
    rw [write, Result.exists_bind_iff]
    simp only [Result.exists_bind₂_iff]
    rw [exists_and_right, exists_writeKey_iff, exists_write_iff (depth + 1) v,
      exists_writeMembers_iff (depth + 1) rest, Value.isWritable_map, List.forall_mem_cons,
      ← and_assoc]

theorem exists_writeItems_iff (depth : Nat) : ∀ items : List Value,
    (∃ cs, writeItems depth items = .ok cs) ↔ ∀ v ∈ items, v.IsWritable
  | [] => by
    rw [writeItems]
    exact iff_of_true ⟨_, rfl⟩ (List.forall_mem_nil _)
  | v :: rest => by
    rw [writeItems, Result.exists_bind₂_iff, exists_write_iff depth v, exists_writeItems_iff depth rest,
      List.forall_mem_cons]

theorem exists_writeMembers_iff (depth : Nat) : ∀ es : List (Scalar × Value),
    (∃ cs, writeMembers depth es = .ok cs) ↔
      ∀ e ∈ es, (e.1.isMemberName = true ∧ e.1.hasText = true) ∧ e.2.IsWritable
  | [] => by
    rw [writeMembers]
    exact iff_of_true ⟨_, rfl⟩ (List.forall_mem_nil _)
  | (k, v) :: rest => by
    rw [writeMembers, Result.exists_bind_iff]
    simp only [Result.exists_bind₂_iff]
    rw [exists_and_right, exists_writeKey_iff, exists_write_iff depth v,
      exists_writeMembers_iff depth rest, List.forall_mem_cons, ← and_assoc]

end

theorem exists_render_iff (v : Value) : (∃ text, render v = .ok text) ↔ v.IsWritable := by
  rw [← exists_write_iff 0, render]
  cases write 0 v with
  | error fault => exact iff_of_false nofun nofun
  | ok cs => exact iff_of_true ⟨_, rfl⟩ ⟨_, rfl⟩

end Json
end ApiManual
