import ApiManual.Proofs.Results
import ApiManual.Yaml.Load

/-!
# How values are put together

What the nodes of a text were made into is put together to a value, from the outermost node
inwards.  So what is handed on from the parts of a value to the value holds of all values
(`Made.value_induction`).  If there is no value, then one of a few things is the matter with the
outermost node: it was met before, or nothing was made of it, or one of its parts has no value
(`Made.Blocked`).

Inside of pairs a value may come back to itself, and ends there.
-/

namespace ApiManual
namespace Yaml
namespace Made

variable {made : Array (Option Made)} {fuel : Nat} {inPair : Bool} {outer : List Nat} {n : Nat}

/-- **What holds of all values.**  A property that may speak of the place of a value, inside of
pairs or not, is had by all values if it is handed on from the parts of a value to the value. -/
theorem value_induction {motive : Bool → Value → Prop}
    (loop : motive true .loop)
    (scalar : ∀ inPair a, motive inPair (.scalar a))
    (set : ∀ inPair items, motive inPair (.set items))
    (list : ∀ inPair vs, (∀ v ∈ vs, motive inPair v) → motive inPair (.list vs))
    (map : ∀ inPair (n : Nat) (entries : List (Scalar × Nat)) (es : List (Scalar × Value)),
      made[n]?.join = some (.map entries) → es.map Prod.fst = entries.map Prod.fst →
      (∀ e ∈ es, motive inPair e.2) → motive inPair (.map es))
    (pairs : ∀ inPair vs,
      (∀ v ∈ vs, ∃ a b, v = .pair a b ∧ motive true a ∧ motive true b) → motive inPair (.list vs))
    {v : Value} (h : Made.value made fuel inPair outer n = .ok v) : motive inPair v := by
  induction fuel generalizing inPair outer n v with
  | zero => cases h
  | succ fuel ih =>
    rw [Made.value] at h
    split at h
    · split at h
      · rename_i inside
        cases h
        rw [inside]
        exact loop
      · cases h
    split at h
    · cases h
    · cases h
      exact scalar _ _
    · cases h
      exact set _ _
    · obtain ⟨vs, values, rfl⟩ := Result.map_eq_ok h
      refine list _ vs fun v mem => ?_
      obtain ⟨i, -, value⟩ := Result.exists_of_mem_mapM values mem
      exact ih value
    · rename_i entries found
      obtain ⟨es, values, rfl⟩ := Result.map_eq_ok h
      refine map _ n entries es found (Result.map_fst_of_mapM values) fun e mem => ?_
      obtain ⟨e', -, entry⟩ := Result.exists_of_mem_mapM values mem
      obtain ⟨v, value, rfl⟩ := Result.map_eq_ok entry
      exact ih value
    · obtain ⟨vs, values, rfl⟩ := Result.map_eq_ok h
      refine pairs _ vs fun v mem => ?_
      obtain ⟨e, -, pair⟩ := Result.exists_of_mem_mapM values mem
      obtain ⟨a, first, pair⟩ := Result.bind_eq_ok pair
      obtain ⟨b, second, pair⟩ := Result.bind_eq_ok pair
      cases pair
      exact ⟨a, b, rfl, ih first, ih second⟩

/-- Why there is no value of a node that is met behind some others. -/
inductive Blocked (made : Array (Option Made)) (fuel : Nat) :
    Bool → List Nat → Nat → Problem → Prop where
  /-- It has been met before, outside of pairs. -/
  | again {outer : List Nat} {n : Nat} (mem : n ∈ outer) :
      Blocked made fuel false outer n (.breakdown .endlessValue)
  /-- Nothing was made of it. -/
  | unmade {inPair : Bool} {outer : List Nat} {n : Nat} (none : made[n]?.join = none) :
      Blocked made fuel inPair outer n (.breakdown .endlessValue)
  /-- An item has no value. -/
  | item {inPair : Bool} {outer items : List Nat} {n i : Nat} {p : Problem} (new : n ∉ outer)
      (found : made[n]?.join = some (.list items)) (mem : i ∈ items)
      (fails : Made.value made fuel inPair (n :: outer) i = .error p) :
      Blocked made fuel inPair outer n p
  /-- The value of a key is missing. -/
  | entry {inPair : Bool} {outer : List Nat} {n : Nat} {es : List (Scalar × Nat)}
      {e : Scalar × Nat} {p : Problem} (new : n ∉ outer)
      (found : made[n]?.join = some (.map es)) (mem : e ∈ es)
      (fails : Made.value made fuel inPair (n :: outer) e.2 = .error p) :
      Blocked made fuel inPair outer n p
  /-- A part of a pair has no value. -/
  | pair {inPair : Bool} {outer : List Nat} {n i : Nat} {items : List (Nat × Nat)}
      {e : Nat × Nat} {p : Problem} (new : n ∉ outer)
      (found : made[n]?.join = some (.pairs items)) (mem : e ∈ items) (part : i = e.1 ∨ i = e.2)
      (fails : Made.value made fuel true (if inPair then n :: outer else []) i = .error p) :
      Blocked made fuel inPair outer n p

/-- There is always a reason. -/
theorem blocked_of_value {p : Problem}
    (h : Made.value made (fuel + 1) inPair outer n = .error p) :
    Blocked made fuel inPair outer n p := by
  rw [Made.value] at h
  split at h
  · rename_i met
    split at h
    · cases h
    · rename_i out
      cases h
      rw [Bool.eq_false_iff.2 out]
      exact .again (List.contains_iff_mem.1 met)
  rename_i new
  have new : n ∉ outer := fun mem => new (List.contains_iff_mem.2 mem)
  split at h
  · rename_i none
    cases h
    exact .unmade none
  · cases h
  · cases h
  · rename_i items found
    obtain ⟨i, mem, fails⟩ := Result.exists_of_mapM_eq_error (Result.map_eq_error h)
    exact .item new found mem fails
  · rename_i es found
    obtain ⟨e, mem, fails⟩ := Result.exists_of_mapM_eq_error (Result.map_eq_error h)
    exact .entry new found mem (Result.map_eq_error fails)
  · rename_i items found
    obtain ⟨e, mem, fails⟩ := Result.exists_of_mapM_eq_error (Result.map_eq_error h)
    rcases Result.bind_eq_error fails with first | ⟨a, -, fails⟩
    · exact .pair new found mem (.inl rfl) first
    rcases Result.bind_eq_error fails with second | ⟨b, -, fails⟩
    · exact .pair new found mem (.inr rfl) second
    · cases fails

end Made
end Yaml
end ApiManual
