import ApiManual.Proofs.Validation.Tables
import ApiManual.Proofs.Validation.Written
import Mathlib.Data.List.Pairwise

/-!
# Fields in other spellings

A field of a record has two spellings.  It is looked up by the first one and then by the second
one.  Where only one of them is given, this finds the one entry whose key spells the field
(`lookup?_eq_find?`), and so it finds the same in a mapping in which this key is spelled in the
other way (`fieldsAgree_of_rows`).

Two rows of entries are spelled alike, but for some selected fields, if each key of the one is that
of the other, or spells the same selected field (`RowsAlike`).  Different keys stay different then,
unless both spellings of a selected field were among them (`RowsAlike.nodup`).
-/

namespace ApiManual
namespace Validation

/-! ## Spellings of one field -/

/-- Two keys that are the same, or spell the same one of some fields. -/
def SpelledAlike (selected : List Field) (key key' : String) : Prop :=
  key' = key ∨ ∃ f ∈ selected, key ∈ f.spellings ∧ key' ∈ f.spellings

/-- None of some fields is among some keys in both of its spellings. -/
def SpelledOnce (selected : List Field) (keys : List String) : Prop :=
  ∀ f ∈ selected, f.joined ∈ keys → f.spaced ∈ keys → f.joined = f.spaced

instance (selected : List Field) (keys : List String) : Decidable (SpelledOnce selected keys) :=
  inferInstanceAs (Decidable (∀ f ∈ selected, f.joined ∈ keys → f.spaced ∈ keys →
    f.joined = f.spaced))

theorem SpelledOnce.tail {selected : List Field} {key : String} {keys : List String}
    (once : SpelledOnce selected (key :: keys)) : SpelledOnce selected keys :=
  fun f hf joined spaced =>
    once f hf (List.mem_cons_of_mem _ joined) (List.mem_cons_of_mem _ spaced)

variable {fields : List Field} {f g : Field} {key key' : String}

/-- A spelling belongs to one field. -/
theorem AreApart.eq_of_mem (apart : AreApart fields) (hf : f ∈ fields) (hg : g ∈ fields)
    (spells : key ∈ f.spellings) (spells' : key ∈ g.spellings) : f = g := by
  by_contra differ
  have symmetric : Std.Symm fun f g : Field => ∀ s ∈ f.spellings, s ∉ g.spellings :=
    ⟨fun _ _ h s mem mem' => h s mem' mem⟩
  exact List.Pairwise.forall apart hf hg differ key spells spells'

/-! ## Entries in other spellings

Some fields, which share no spelling, are those of a record, and some of them are selected. -/

section Rows

variable {α β : Type} {R : String → α → β → Prop} {selected : List Field}

/-- Two rows of entries, one by one spelled alike and with related values. -/
abbrev RowsAlike (selected : List Field) (R : String → α → β → Prop) :
    List (String × α) → List (String × β) → Prop :=
  List.Forall₂ fun x m => SpelledAlike selected x.1 m.1 ∧ R x.1 x.2 m.2

variable (apart : AreApart fields) (sub : ∀ f ∈ selected, f ∈ fields)

include apart sub

/-- Keys that are spelled alike spell the same fields. -/
theorem SpelledAlike.mem_iff (alike : SpelledAlike selected key key') (hf : f ∈ fields) :
    key ∈ f.spellings ↔ key' ∈ f.spellings := by
  rcases alike with rfl | ⟨g, hg, spells, spells'⟩
  · exact Iff.rfl
  · constructor
    · intro here
      rwa [apart.eq_of_mem hf (sub g hg) here spells]
    · intro here
      rwa [apart.eq_of_mem hf (sub g hg) here spells']

/-- A spelling of a field that is not selected is no other key. -/
theorem SpelledAlike.eq_iff (alike : SpelledAlike selected key key') (hf : f ∈ fields)
    (other : f ∉ selected) {s : String} (spells : s ∈ f.spellings) : s = key ↔ s = key' := by
  rcases alike with rfl | ⟨g, hg, mem, mem'⟩
  · exact Iff.rfl
  · refine iff_of_false ?_ ?_
    · rintro rfl
      exact other (apart.eq_of_mem hf (sub g hg) spells mem ▸ hg)
    · rintro rfl
      exact other (apart.eq_of_mem hf (sub g hg) spells mem' ▸ hg)

/-- Among keys that spell no selected field twice, different ones are not spelled alike. -/
theorem SpelledOnce.eq_of_alike {keys : List String} (once : SpelledOnce selected keys)
    {a b : String} (ha : a ∈ keys) (hb : b ∈ keys) (left : SpelledAlike selected a key)
    (right : SpelledAlike selected b key) : a = b := by
  have same {f : Field} (hf : f ∈ selected) (spells : a ∈ f.spellings)
      (spells' : b ∈ f.spellings) : a = b := by
    simp only [Field.spellings, List.mem_cons, List.not_mem_nil, or_false] at spells spells'
    rcases spells with rfl | rfl <;> rcases spells' with rfl | rfl
    · rfl
    · exact once f hf ha hb
    · exact (once f hf hb ha).symm
    · rfl
  rcases left with rfl | ⟨f, hf, spells, spells'⟩
  · rcases right with rfl | ⟨g, hg, spells, spells'⟩
    · rfl
    · exact same hg spells' spells
  · exact same hf spells ((right.mem_iff apart sub (sub f hf)).2 spells')

namespace RowsAlike

variable {xs : List (String × α)} {ms : List (String × β)}

omit apart sub in
theorem exists_of_mem (h : RowsAlike selected R xs ms) {m : String × β} (mem : m ∈ ms) :
    ∃ x ∈ xs, SpelledAlike selected x.1 m.1 := by
  induction h with
  | nil => cases mem
  | @cons x m' _ _ first _ ih =>
    rcases List.mem_cons.1 mem with rfl | mem
    · exact ⟨x, List.mem_cons_self, first.1⟩
    · obtain ⟨y, hy, alike⟩ := ih mem
      exact ⟨y, List.mem_cons_of_mem _ hy, alike⟩

omit apart sub in
/-- The relation may be weakened, also by what is known of the entries. -/
theorem imp_mem {R' : String → α → β → Prop} (h : RowsAlike selected R xs ms)
    (weaker : ∀ x ∈ xs, ∀ b, R x.1 x.2 b → R' x.1 x.2 b) : RowsAlike selected R' xs ms := by
  induction h with
  | nil => exact .nil
  | cons first _ ih =>
    rw [List.forall_mem_cons] at weaker
    exact .cons ⟨first.1, weaker.1 _ first.2⟩ (ih weaker.2)

omit apart sub in
/-- Properties hold of all keys of both rows if they are the same for keys that are spelled
alike. -/
theorem forall_keys_iff (h : RowsAlike selected R xs ms) {P Q : String → Prop}
    (same : ∀ x ∈ xs, ∀ m ∈ ms, SpelledAlike selected x.1 m.1 → (P x.1 ↔ Q m.1)) :
    (∀ x ∈ xs, P x.1) ↔ ∀ m ∈ ms, Q m.1 := by
  induction h with
  | nil => exact ⟨fun _ => List.forall_mem_nil _, fun _ => List.forall_mem_nil _⟩
  | cons first _ ih =>
    rw [List.forall_mem_cons, List.forall_mem_cons,
      same _ List.mem_cons_self _ List.mem_cons_self first.1,
      ih fun x hx m hm => same x (List.mem_cons_of_mem _ hx) m (List.mem_cons_of_mem _ hm)]

/-- **Different keys stay different.** -/
theorem nodup (h : RowsAlike selected R xs ms) (distinct : (xs.map Prod.fst).Nodup)
    (once : SpelledOnce selected (xs.map Prod.fst)) : (ms.map Prod.fst).Nodup := by
  induction h with
  | nil => exact List.nodup_nil
  | @cons x m xs ms first rest ih =>
    rw [List.map_cons, List.nodup_cons] at distinct ⊢
    refine ⟨fun twice => ?_, ih distinct.2 once.tail⟩
    obtain ⟨m', mem, same⟩ := List.mem_map.1 twice
    obtain ⟨y, hy, alike⟩ := exists_of_mem rest mem
    have mem' : y.1 ∈ xs.map Prod.fst := List.mem_map_of_mem hy
    refine distinct.1 ?_
    rwa [once.eq_of_alike apart sub List.mem_cons_self (List.mem_cons_of_mem _ mem') first.1
      (same ▸ alike)]

/-- As many keys spell a field. -/
theorem countP_eq (h : RowsAlike selected R xs ms) (hf : f ∈ fields) :
    xs.countP (fun x => x.1 ∈ f.spellings) = ms.countP fun m => m.1 ∈ f.spellings := by
  induction h with
  | nil => rfl
  | cons first _ ih =>
    rw [List.countP_cons, List.countP_cons, ih]
    simp only [decide_eq_true_eq, first.1.mem_iff apart sub hf]

/-- The first entries that spell a field are related. -/
theorem find?_rel (h : RowsAlike selected R xs ms) (hf : f ∈ fields) :
    Option.Rel (fun p q => p.1 ∈ f.spellings ∧ R p.1 p.2 q.2)
      (xs.find? fun x => x.1 ∈ f.spellings) (ms.find? fun m => m.1 ∈ f.spellings) := by
  induction h with
  | nil => exact .none
  | @cons x m _ _ first _ ih =>
    by_cases spells : x.1 ∈ f.spellings
    · have spells' : m.1 ∈ f.spellings := (first.1.mem_iff apart sub hf).1 spells
      rw [List.find?_cons_of_pos (by simpa using spells),
        List.find?_cons_of_pos (by simpa using spells')]
      exact .some ⟨spells, first.2⟩
    · have spells' : m.1 ∉ f.spellings := fun h =>
        spells ((first.1.mem_iff apart sub hf).2 h)
      rw [List.find?_cons_of_neg (by simpa using spells),
        List.find?_cons_of_neg (by simpa using spells')]
      exact ih

/-- What stands under a spelling of a field that is not selected is related. -/
theorem lookup_rel (h : RowsAlike selected R xs ms) (hf : f ∈ fields) (other : f ∉ selected)
    {s : String} (spells : s ∈ f.spellings) : Option.Rel (R s) (xs.lookup s) (ms.lookup s) := by
  induction h with
  | nil => exact .none
  | @cons x m _ _ first _ ih =>
    have same := first.1.eq_iff apart sub hf other spells
    rw [List.lookup_cons, List.lookup_cons]
    by_cases here : s = x.1
    · rw [beq_iff_eq.2 here, beq_iff_eq.2 (same.1 here), here]
      exact .some first.2
    · rw [beq_false_of_ne here, beq_false_of_ne fun there => here (same.2 there)]
      exact ih

end RowsAlike

end Rows

/-! ## Fields that are given once -/

variable {es es' : List (String × Value)} {selected : List Field}

/-- At most one entry spells a field. -/
abbrev IsSingle (f : Field) (es : List (String × Value)) : Prop :=
  es.countP (fun e => e.1 ∈ f.spellings) ≤ 1

/-- Behind an entry that spells the field there is no other one. -/
theorem IsSingle.notMem {e : String × Value} (h : IsSingle f (e :: es))
    (spells : e.1 ∈ f.spellings) : ∀ x ∈ es, x.1 ∉ f.spellings := by
  have none : es.countP (fun e => e.1 ∈ f.spellings) = 0 := by
    rw [IsSingle, List.countP_cons_of_pos (by simpa using spells)] at h
    exact Nat.le_zero.1 (Nat.le_of_succ_le_succ h)
  intro x mem spells'
  exact List.countP_eq_zero.1 none x mem (decide_eq_true spells')

theorem IsSingle.tail {e : String × Value} (h : IsSingle f (e :: es)) : IsSingle f es :=
  Nat.le_trans (List.Sublist.countP_le (List.sublist_cons_self e es)) h

theorem isSingle_of_once (apart : AreApart fields) (sub : ∀ f ∈ selected, f ∈ fields)
    (distinct : (es.map Prod.fst).Nodup) (once : SpelledOnce selected (es.map Prod.fst))
    (hf : f ∈ selected) : IsSingle f es := by
  induction es with
  | nil => exact Nat.zero_le 1
  | cons e rest ih =>
    rw [List.map_cons, List.nodup_cons] at distinct
    by_cases spells : e.1 ∈ f.spellings
    · have others : rest.countP (fun e => e.1 ∈ f.spellings) = 0 := by
        refine List.countP_eq_zero.2 fun x mem spells' => distinct.1 ?_
        have mem' : x.1 ∈ rest.map Prod.fst := List.mem_map_of_mem mem
        rwa [once.eq_of_alike apart sub List.mem_cons_self (List.mem_cons_of_mem _ mem')
          (.inr ⟨f, hf, spells, of_decide_eq_true spells'⟩) (.inl rfl)]
      rw [IsSingle, List.countP_cons_of_pos (by simpa using spells), others]
    · rw [IsSingle, List.countP_cons_of_neg (by simpa using spells)]
      exact ih distinct.2 once.tail

/-- **A field that is given once is found by any of its spellings.** -/
theorem lookup?_eq_find? (h : IsSingle f es) :
    f.lookup? es = es.find? fun e => e.1 ∈ f.spellings := by
  induction es with
  | nil => rfl
  | cons e rest ih =>
    obtain ⟨key, v⟩ := e
    by_cases spells : key ∈ f.spellings
    · have others : ∀ s ∈ f.spellings, rest.lookup s = none := fun s mem =>
        List.lookup_eq_none_iff.2 fun x hx => bne_iff_ne.2 fun same =>
          h.notMem spells x hx (same ▸ mem)
      rw [List.find?_cons_of_pos (by simpa using spells), Field.lookup?, List.lookup_cons,
        List.lookup_cons, others _ f.joined_mem_spellings, others _ f.spaced_mem_spellings]
      by_cases first : f.joined = key
      · rw [first, beq_self_eq_true]
      · obtain rfl : key = f.spaced := by
          simp only [Field.spellings, List.mem_cons, List.not_mem_nil, or_false] at spells
          exact spells.resolve_left fun same => first same.symm
        rw [beq_false_of_ne first, beq_self_eq_true]
        rfl
    · have other {s : String} (mem : s ∈ f.spellings) : (s == key) = false :=
        beq_false_of_ne fun same => spells (same ▸ mem)
      rw [List.find?_cons_of_neg (by simpa using spells), ← ih h.tail, Field.lookup?, Field.lookup?,
        List.lookup_cons, List.lookup_cons, other f.joined_mem_spellings,
        other f.spaced_mem_spellings]

/-- What spells a field that is given once is what is found. -/
theorem find?_eq_some (h : IsSingle f es) {e : String × Value} (mem : e ∈ es)
    (spells : e.1 ∈ f.spellings) : es.find? (fun e => e.1 ∈ f.spellings) = some e := by
  induction es with
  | nil => cases mem
  | cons x rest ih =>
    rcases List.mem_cons.1 mem with rfl | mem
    · exact List.find?_cons_of_pos (by simpa using spells)
    · have other : x.1 ∉ f.spellings := fun first => h.notMem first e mem spells
      rw [List.find?_cons_of_neg (by simpa using other)]
      exact ih h.tail mem

/-- A field that is given once is found under a key that spells it. -/
theorem any_lookup?_iff (h : IsSingle f es) {e : String × Value} (mem : e ∈ es) :
    (f.lookup? es).any (fun found => found.1 = e.1) = true ↔ e.1 ∈ f.spellings := by
  rw [lookup?_eq_find? h]
  constructor
  · intro found
    obtain ⟨x, hx, same⟩ := (Option.any_eq_true _ _).1 found
    have spells := List.find?_some hx
    rw [decide_eq_true_eq] at same spells
    exact same ▸ spells
  · intro spells
    rw [find?_eq_some h mem spells]
    exact decide_eq_true rfl

section Rows

variable {R : String → Value → Value → Prop} (apart : AreApart fields)
  (sub : ∀ f ∈ selected, f ∈ fields) (distinct : (es.map Prod.fst).Nodup)
  (once : SpelledOnce selected (es.map Prod.fst)) (h : RowsAlike selected R es es')

include apart sub distinct once h

/-- **The fields of entries agree, in whichever way some of them are spelled.** -/
theorem fieldsAgree_of_rows : FieldsAgree R fields es es' := by
  have single {f : Field} (hf : f ∈ selected) : IsSingle f es :=
    isSingle_of_once apart sub distinct once hf
  have single' {f : Field} (hf : f ∈ selected) : IsSingle f es' :=
    (RowsAlike.countP_eq apart sub h (sub f hf)).symm.trans_le (single hf)
  have unselected {f : Field} (hf : f ∈ fields) (other : f ∉ selected) :=
    lookup?_rel_of_lookups
      (RowsAlike.lookup_rel apart sub h hf other f.joined_mem_spellings)
      (RowsAlike.lookup_rel apart sub h hf other f.spaced_mem_spellings)
  refine ⟨fun f hf => ?_, fun known all => ?_⟩
  · by_cases chosen : f ∈ selected
    · rw [Field.GivenAlike, lookup?_eq_find? (single chosen), lookup?_eq_find? (single' chosen)]
      exact RowsAlike.find?_rel apart sub h hf
    · exact rel_imp (fun _ _ found => found.2) (unselected hf chosen)
  · rw [unknownFields_eq_nil_iff, unknownFields_eq_nil_iff]
    refine RowsAlike.forall_keys_iff h (P := fun key => isRead known es key = true)
      (Q := fun key => isRead known es' key = true) fun x hx m hm alike => ?_
    rw [isRead, isRead, List.any_eq_true, List.any_eq_true]
    refine exists_congr fun f => and_congr_right fun hf => ?_
    by_cases chosen : f ∈ selected
    · rw [any_lookup?_iff (single chosen) hx, any_lookup?_iff (single' chosen) hm,
        alike.mem_iff apart sub (all f hf)]
    · rw [any_lookup?_congr (unselected (all f hf) chosen) fun s spells =>
        alike.eq_iff apart sub (all f hf) chosen spells]

end Rows

end Validation
end ApiManual
