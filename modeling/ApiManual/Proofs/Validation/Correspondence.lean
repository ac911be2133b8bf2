import ApiManual.Proofs.Validation.Agreement

/-!
# Tables that correspond

A table gives values to names, and the order in which it does so may be another one.
`Corresponds R xs ys` says of two tables that they have the same names, each of them once,
and values that are related by `R` under each name.

Fields are looked up by name.  So the fields of corresponding entries are given alike, and
the same fields are unknown (`Corresponds.fieldsAgree`).  This is all that a record sees of its
entries: it agrees as soon as the values of its fields do (`Field.read_agree`,
`FieldsAgree.record`).  The entries of tables agree up to their order if the values under each
name do (`entries_agree`).
-/

namespace ApiManual
namespace Validation

open Checked

variable {α α' β : Type}

/-- Two tables with the same names, each of them once, and related values under each. -/
structure Corresponds (R : String → α → β → Prop) (xs : List (String × α))
    (ys : List (String × β)) : Prop where
  distinct : (xs.map Prod.fst).Nodup
  paired : ∃ ms, List.Forall₂ (fun x m => x.1 = m.1 ∧ R x.1 x.2 m.2) xs ms ∧ ms.Perm ys

/-! ## Names -/

theorem names_eq {R : String → α → β → Prop} {xs : List (String × α)} {ms : List (String × β)}
    (h : List.Forall₂ (fun x m => x.1 = m.1 ∧ R x.1 x.2 m.2) xs ms) :
    xs.map Prod.fst = ms.map Prod.fst := by
  induction h with
  | nil => rfl
  | cons first _ ih => rw [List.map_cons, List.map_cons, first.1, ih]

theorem pairs_imp {R R' : String → α → β → Prop} {xs : List (String × α)}
    {ms : List (String × β)} (h : List.Forall₂ (fun x m => x.1 = m.1 ∧ R x.1 x.2 m.2) xs ms)
    (weaker : ∀ x ∈ xs, ∀ b, R x.1 x.2 b → R' x.1 x.2 b) :
    List.Forall₂ (fun x m => x.1 = m.1 ∧ R' x.1 x.2 m.2) xs ms := by
  induction h with
  | nil => exact .nil
  | cons first _ ih =>
    rw [List.forall_mem_cons] at weaker
    exact .cons ⟨first.1, weaker.1 _ first.2⟩ (ih weaker.2)

/-- What stands under a name does not depend on the order. -/
theorem lookup_perm {xs ys : List (String × α)} (h : xs.Perm ys)
    (distinct : (xs.map Prod.fst).Nodup) (name : String) : xs.lookup name = ys.lookup name := by
  induction h with
  | nil => rfl
  | cons x _ ih =>
    rw [List.map_cons, List.nodup_cons] at distinct
    rw [List.lookup_cons, List.lookup_cons, ih distinct.2]
  | swap x y l =>
    obtain ⟨n, a⟩ := x
    obtain ⟨m, b⟩ := y
    have differ : n ≠ m := fun same => by simp [same] at distinct
    simp only [List.lookup_cons]
    by_cases here : name == n
    · have other : (name == m) = false := by
        rw [eq_of_beq here]
        exact beq_false_of_ne differ
      rw [here, other]
    · rw [Bool.not_eq_true] at here
      rw [here]
  | trans first _ ih ih' =>
    exact (ih distinct).trans (ih' ((first.map Prod.fst).nodup_iff.1 distinct))

theorem lookup_rel {R : String → α → β → Prop} {xs : List (String × α)} {ms : List (String × β)}
    (h : List.Forall₂ (fun x m => x.1 = m.1 ∧ R x.1 x.2 m.2) xs ms) (name : String) :
    Option.Rel (R name) (xs.lookup name) (ms.lookup name) := by
  induction h with
  | nil => exact .none
  | @cons x m _ _ first _ ih =>
    rw [List.lookup_cons, List.lookup_cons, ← first.1]
    split
    · rename_i here
      rw [eq_of_beq here]
      exact .some first.2
    · exact ih

namespace Corresponds

variable {R : String → α → β → Prop} {xs : List (String × α)} {ys : List (String × β)}

theorem names (h : Corresponds R xs ys) : (xs.map Prod.fst).Perm (ys.map Prod.fst) := by
  obtain ⟨ms, pairs, perm⟩ := h.paired
  rw [names_eq pairs]
  exact perm.map Prod.fst

/-- **Related values stand under each name**, if anything stands there at all. -/
theorem lookup (h : Corresponds R xs ys) (name : String) :
    Option.Rel (R name) (xs.lookup name) (ys.lookup name) := by
  obtain ⟨ms, pairs, perm⟩ := h.paired
  rw [← lookup_perm perm (names_eq pairs ▸ h.distinct)]
  exact lookup_rel pairs name

/-- The relation may be weakened, also by what is known of the entries. -/
theorem imp {R' : String → α → β → Prop} (h : Corresponds R xs ys)
    (weaker : ∀ x ∈ xs, ∀ b, R x.1 x.2 b → R' x.1 x.2 b) : Corresponds R' xs ys := by
  obtain ⟨ms, pairs, perm⟩ := h.paired
  exact ⟨h.distinct, ms, pairs_imp pairs weaker, perm⟩

/-- A property of names holds of all names of one table if it does of the other. -/
theorem forall_names (h : Corresponds R xs ys) (P : String → Prop) :
    (∀ x ∈ xs, P x.1) ↔ ∀ y ∈ ys, P y.1 := by
  have left : (∀ name ∈ xs.map Prod.fst, P name) ↔ ∀ x ∈ xs, P x.1 := List.forall_mem_map
  have right : (∀ name ∈ ys.map Prod.fst, P name) ↔ ∀ y ∈ ys, P y.1 := List.forall_mem_map
  rw [← left, ← right]
  exact forall_congr' fun name => imp_congr_left h.names.mem_iff

/-- The same of a property of values, if related ones have it both or not at all. -/
theorem forall_values (h : Corresponds R xs ys) {P : α → Prop} {Q : β → Prop}
    (same : ∀ name a b, R name a b → (P a ↔ Q b)) : (∀ x ∈ xs, P x.2) ↔ ∀ y ∈ ys, Q y.2 := by
  obtain ⟨ms, pairs, perm⟩ := h.paired
  have inOrder : (∀ x ∈ xs, P x.2) ↔ ∀ m ∈ ms, Q m.2 := by
    clear perm h
    induction pairs with
    | nil => simp only [List.not_mem_nil, false_imp_iff, implies_true]
    | cons first _ ih => rw [List.forall_mem_cons, List.forall_mem_cons, same _ _ _ first.2, ih]
  exact inOrder.trans (forall_congr' fun m => imp_congr_left perm.mem_iff)

theorem eq_nil_iff (h : Corresponds R xs ys) : xs = [] ↔ ys = [] := by
  have names := h.names
  refine ⟨fun none => ?_, fun none => ?_⟩
  · rw [none] at names
    exact List.map_eq_nil_iff.1 names.nil_eq.symm
  · rw [none] at names
    exact List.map_eq_nil_iff.1 names.eq_nil

end Corresponds

/-! ## Entries of tables -/

/-- Checked one by one, in the same order. -/
theorem entries_agree_pairs {R : String → α → α' → Prop} {S : β → β → Prop} {check : α → Checked β}
    {check' : α' → Checked β} {xs : List (String × α)} {ms : List (String × α')}
    (h : List.Forall₂ (fun x m => x.1 = m.1 ∧ R x.1 x.2 m.2) xs ms)
    (each : ∀ name a a', R name a a' → Agree S (check a) (check' a')) :
    Agree (fun bs bs' => bs.map Prod.fst = xs.map Prod.fst ∧
        List.Forall₂ (fun b b' => b.1 = b'.1 ∧ S b.2 b'.2) bs bs')
      (entries check xs) (entries check' ms) := by
  induction h with
  | nil => exact .good ⟨rfl, .nil⟩
  | @cons x m _ _ first _ ih =>
    refine .both (fun b b' bs bs' s ss => ⟨?_, .cons ⟨first.1, s⟩ ss.2⟩)
      ((each _ _ _ first.2).under _ _) ih
    rw [List.map_cons, List.map_cons, ss.1]

/-- Checked in another order. -/
theorem entries_perm (check : α → Checked β) {xs ys : List (String × α)} (h : xs.Perm ys) :
    Agree List.Perm (entries check xs) (entries check ys) := by
  induction h with
  | nil => exact .good .nil
  | cons x _ ih =>
    refine .both (fun b b' bs bs' same perm => ?_) ((Agree.refl Eq.refl (check x.2)).under _ _) ih
    rw [same]
    exact perm.cons _
  | swap x y l =>
    simp only [entries]
    cases check x.2 with
    | bad issues =>
      cases check y.2 <;> cases entries check l <;> exact .bad _ _
    | good a =>
      cases check y.2 with
      | bad issues => cases entries check l <;> exact .bad _ _
      | good b =>
        cases entries check l with
        | bad issues => exact .bad _ _
        | good bs => exact .good (.swap ..)
  | trans _ _ ih ih' => exact (ih.comp ih').imp fun _ _ ⟨_, perm, perm'⟩ => perm.trans perm'

/-- **The entries of corresponding tables correspond, once they are checked.** -/
theorem entries_agree {R : String → α → α' → Prop} {S : β → β → Prop} {check : α → Checked β}
    {check' : α' → Checked β} {xs : List (String × α)} {ys : List (String × α')}
    (h : Corresponds R xs ys) (each : ∀ name a a', R name a a' → Agree S (check a) (check' a')) :
    Agree (Corresponds fun _ => S) (entries check xs) (entries check' ys) := by
  obtain ⟨ms, pairs, perm⟩ := h.paired
  refine ((entries_agree_pairs pairs each).comp (entries_perm check' perm)).imp ?_
  rintro bs bs' ⟨cs, ⟨named, related⟩, order⟩
  exact ⟨named ▸ h.distinct, cs, related, order⟩

/-! ## Fields -/

variable {R : String → Value → Value → Prop} {es es' : List (String × Value)}

/-- A field is found alike if the same is so of each of its spellings. -/
theorem lookup?_rel_of_lookups {f : Field}
    (joined : Option.Rel (R f.joined) (es.lookup f.joined) (es'.lookup f.joined))
    (spaced : Option.Rel (R f.spaced) (es.lookup f.spaced) (es'.lookup f.spaced)) :
    Option.Rel (fun p q => p.1 = q.1 ∧ p.1 ∈ f.spellings ∧ R p.1 p.2 q.2)
      (f.lookup? es) (f.lookup? es') := by
  unfold Field.lookup?
  generalize es.lookup f.joined = v at joined
  generalize es'.lookup f.joined = v' at joined
  generalize es.lookup f.spaced = w at spaced
  generalize es'.lookup f.spaced = w' at spaced
  cases joined with
  | some related => exact .some ⟨rfl, List.mem_cons_self .., related⟩
  | none =>
    cases spaced with
    | some related => exact .some ⟨rfl, List.mem_cons_of_mem _ (List.mem_singleton_self _), related⟩
    | none => exact .none

/-- A field is given in both or in none, under one spelling and with related values. -/
theorem lookup?_rel (f : Field) (h : Corresponds R es es') :
    Option.Rel (fun p q => p.1 = q.1 ∧ p.1 ∈ f.spellings ∧ R p.1 p.2 q.2)
      (f.lookup? es) (f.lookup? es') :=
  lookup?_rel_of_lookups (h.lookup f.joined) (h.lookup f.spaced)

/-- A field that is found under the same key in both is found under keys of which it spells neither,
or which are the same to it. -/
theorem any_lookup?_congr {f : Field} {key key' : String}
    (found : Option.Rel (fun p q => p.1 = q.1 ∧ p.1 ∈ f.spellings ∧ R p.1 p.2 q.2)
      (f.lookup? es) (f.lookup? es'))
    (same : ∀ s ∈ f.spellings, s = key ↔ s = key') :
    ((f.lookup? es).any fun p => p.1 = key) = (f.lookup? es').any fun q => q.1 = key' := by
  generalize f.lookup? es = p at found
  generalize f.lookup? es' = q at found
  cases found with
  | none => rfl
  | some related =>
    rw [Option.any_some, Option.any_some, ← related.1]
    exact decide_eq_decide.2 (same _ related.2.1)

theorem rel_imp {R S : α → β → Prop} (weaker : ∀ a b, R a b → S a b) {x : Option α}
    {y : Option β} (h : Option.Rel R x y) : Option.Rel S x y := by
  cases h with
  | some related => exact .some (weaker _ _ related)
  | none => exact .none

theorem eq_of_rel {x y : Option α} (h : Option.Rel Eq x y) : x = y := by
  cases h with
  | some same => rw [same]
  | none => rfl

/-- A field is given in both of two mappings or in neither, with related values. -/
def Field.GivenAlike (R : String → Value → Value → Prop) (f : Field)
    (es es' : List (String × Value)) : Prop :=
  Option.Rel (fun p q => p.1 ∈ f.spellings ∧ R p.1 p.2 q.2) (f.lookup? es) (f.lookup? es')

namespace Field

variable {S : α → β → Prop} {f : Field} {check : Value → Checked α} {check' : Value → Checked β}

/-- **A field that is given alike agrees if what stands in it does.** -/
theorem read_agree {absent : Checked α} {absent' : Checked β} (h : f.GivenAlike R es es')
    (missing : Agree S absent absent')
    (each : ∀ key ∈ f.spellings, ∀ v v', R key v v' → Agree S (check v) (check' v')) :
    Agree S (f.read absent check es) (f.read absent' check' es') := by
  unfold GivenAlike at h
  unfold Field.read
  generalize f.lookup? es = found at h
  generalize f.lookup? es' = found' at h
  cases h with
  | none => exact missing
  | some related => exact (each _ related.1 _ _ related.2).under _ _

/-- A field that has to be given. -/
theorem required_agree (h : f.GivenAlike R es es')
    (each : ∀ key ∈ f.spellings, ∀ v v', R key v v' → Agree S (check v) (check' v')) :
    Agree S (f.required check es) (f.required check' es') :=
  read_agree h (.bad _ _) each

/-- A field with a value of its own when it is not given. -/
theorem defaulted_agree {default : α} {default' : β} (h : f.GivenAlike R es es')
    (missing : S default default')
    (each : ∀ key ∈ f.spellings, ∀ v v', R key v v' → Agree S (check v) (check' v')) :
    Agree S (f.defaulted default check es) (f.defaulted default' check' es') :=
  read_agree h (.good missing) each

/-- A field that may be left out or empty. -/
theorem optional_agree (h : f.GivenAlike R es es')
    (null : ∀ key v v', R key v v' → (v = .null ↔ v' = .null))
    (each : ∀ key ∈ f.spellings, ∀ v v', R key v v' → Agree S (check v) (check' v')) :
    Agree (Option.Rel S) (f.optional check es) (f.optional check' es') := by
  refine defaulted_agree h .none fun key mem v v' related => ?_
  by_cases empty : v = .null
  · rw [empty, (null key v v' related).1 empty]
    exact .good .none
  · have given : v' ≠ .null := fun empty' => empty ((null key v v' related).2 empty')
    have filled := (each key mem v v' related).map fun _ _ s => Option.Rel.some s
    split
    · exact absurd rfl empty
    · split
      · exact absurd rfl given
      · exact filled

end Field

theorem unknownFields_eq_nil_iff {fields : List Field} :
    unknownFields fields es = [] ↔ ∀ e ∈ es, isRead fields es e.1 = true := by
  rw [unknownFields, List.filterMap_eq_nil_iff]
  refine forall_congr' fun e => imp_congr_right fun _ => ?_
  rw [stray?]
  split <;> simp_all

theorem isRead_congr (fields : List Field) (h : Corresponds R es es') (key : String) :
    isRead fields es key = isRead fields es' key :=
  congrArg (List.any fields ·)
    (funext fun f => any_lookup?_congr (lookup?_rel f h) fun _ _ => Iff.rfl)

/-- Corresponding entries have unknown fields both or none of them. -/
theorem unknownFields_eq_nil_congr (fields : List Field) (h : Corresponds R es es') :
    unknownFields fields es = [] ↔ unknownFields fields es' = [] := by
  rw [unknownFields_eq_nil_iff, unknownFields_eq_nil_iff,
    h.forall_names fun key => isRead fields es key = true]
  refine forall_congr' fun e => imp_congr_right fun _ => ?_
  rw [isRead_congr fields h]

/-- Two mappings in which some fields are given alike; and whichever of these are known, there are
unknown ones in both or in neither. -/
structure FieldsAgree (R : String → Value → Value → Prop) (fields : List Field)
    (es es' : List (String × Value)) : Prop where
  given : ∀ f ∈ fields, f.GivenAlike R es es'
  unknown : ∀ known : List Field, (∀ f ∈ known, f ∈ fields) →
    (unknownFields known es = [] ↔ unknownFields known es' = [])

/-- **The fields of corresponding entries agree.** -/
theorem Corresponds.fieldsAgree (h : Corresponds R es es') (fields : List Field) :
    FieldsAgree R fields es es' where
  given f _ := rel_imp (fun _ _ found => found.2) (lookup?_rel f h)
  unknown known _ := unknownFields_eq_nil_congr known h

/-- The relation may be weakened for the keys of the fields. -/
theorem FieldsAgree.imp {R' : String → Value → Value → Prop} {fields : List Field}
    (h : FieldsAgree R fields es es')
    (weaker : ∀ f ∈ fields, ∀ key ∈ f.spellings, ∀ v v', R key v v' → R' key v v') :
    FieldsAgree R' fields es es' where
  given f mem :=
    rel_imp (fun _ _ found => ⟨found.1, weaker f mem _ found.1 _ _ found.2⟩) (h.given f mem)
  unknown := h.unknown

/-- **Records agree if their fields do, as far as something is built from these.** -/
theorem FieldsAgree.record {S : α → β → Prop} {model : String} {known fields : List Field}
    {build : List (String × Value) → Checked α} {build' : List (String × Value) → Checked β}
    {v v' : Value} (h : FieldsAgree R fields es es') (hv : entriesOf? v = some es)
    (hv' : entriesOf? v' = some es') (all : ∀ f ∈ known, f ∈ fields)
    (built : Agree S (build es) (build' es')) :
    Agree S (Validation.record model known build v) (Validation.record model known build' v') := by
  rw [record_of_entries hv, record_of_entries hv']
  exact built.adding (h.unknown known all)

end Validation
end ApiManual
