import ApiManual.Proofs.Yaml.Progress

/-!
# Making values

What making a node does to a state (`makes_make`), and what making all nodes of a text does
(`grows_of_completeAll`): at the end everything that belongs to what was made has been made.
There is one lemma for each of the functions that make something, and each of them assumes of
the step it is given what the next smaller number of steps provides.
-/

namespace ApiManual
namespace Yaml

open Yaml.Graph

/-! ## Making nodes -/

namespace Load

open Loading

variable {unique : Bool} {o : Array Node} {s s' : Loading} {n : Nat} {make : Nat → Load Made}

/-- Making a node by this step goes on and has it made. -/
def Makes (unique : Bool) (o : Array Node) (make : Nat → Load Made) : Prop :=
  ∀ {n : Nat} {s s' : Loading} {m : Made}, From o s → (make n).run s = .ok (m, s') →
    Advances unique o s s' ∧ s'.madeOf n = some m

/-- Looking for a key that a mapping has twice makes all keys, and they are different ones. -/
theorem advances_of_checkUnique (makes : Makes unique o make) {place : Mark} {seen : List Scalar}
    {es : List (Nat × Nat)} (start : From o s)
    (h : (checkUnique make place seen es).run s = .ok ((), s')) :
    Advances unique o s s' ∧
    (es.filter fun e => !isTagged s.nodes Tag.merge e.1).Pairwise s'.KeysDiffer ∧
    ∀ e ∈ es.filter fun e => !isTagged s.nodes Tag.merge e.1, s'.HasMade e.1 ∧
      ∀ a, s'.madeOf e.1 = some (.scalar a) → ∀ t ∈ seen, t.sameKey a = false := by
  induction es generalizing s seen with
  | nil =>
    cases h
    exact ⟨.refl start, .nil, nofun⟩
  | cons e rest ih =>
    rw [checkUnique, run_bind_of_ok (run_hasTag Tag.merge)] at h
    by_cases merge : isTagged s.nodes Tag.merge e.1 = true
    · rw [if_pos merge] at h
      rw [List.filter_cons_of_neg (by simp [merge])]
      exact ih start h
    rw [if_neg merge, bind_eq_ok] at h
    obtain ⟨m, t, made, h⟩ := h
    obtain ⟨first, made⟩ := makes start made
    rw [List.filter_cons_of_pos (by simp [merge])]
    have tags : (rest.filter fun e => !isTagged t.nodes Tag.merge e.1) =
        rest.filter fun e => !isTagged s.nodes Tag.merge e.1 := by
      simp only [first.later.merge_eq]
    -- What is left to show when the key is passed over or entered.
    have finish {seen' : List Scalar} (sub : seen ⊆ seen')
        (new : ∀ a, m = .scalar a → a ∈ seen' ∧ ∀ t ∈ seen, t.sameKey a = false)
        (h : (checkUnique make place seen' rest).run t = .ok ((), s')) :
        Advances unique o s s' ∧
        (e :: rest.filter fun e => !isTagged s.nodes Tag.merge e.1).Pairwise s'.KeysDiffer ∧
        ∀ f ∈ e :: rest.filter fun e => !isTagged s.nodes Tag.merge e.1, s'.HasMade f.1 ∧
          ∀ a, s'.madeOf f.1 = some (.scalar a) → ∀ t ∈ seen, t.sameKey a = false := by
      obtain ⟨second, differ, others⟩ := ih first.from_ h
      rw [tags] at differ others
      have whole := first.trans second
      have key_of {a : Scalar} (made' : s'.madeOf e.1 = some (.scalar a)) : m = .scalar a := by
        have was := second.was_scalar second.from_ ⟨m, made⟩ made'
        rw [made] at was
        exact Option.some.inj was
      refine ⟨whole, List.pairwise_cons.2 ⟨?_, differ⟩, List.forall_mem_cons.2 ⟨⟨?_, ?_⟩, ?_⟩⟩
      · exact fun f mem a b is is' => (others f mem).2 b is' a (new a (key_of is)).1
      · exact second.hasMade ⟨m, made⟩
      · exact fun a is => (new a (key_of is)).2
      · exact fun f mem => ⟨(others f mem).1, fun a is t mem' =>
          (others f mem).2 a is t (sub mem')⟩
    cases m with
    | scalar a =>
      dsimp only at h
      split at h
      · obtain ⟨node, _, -, h⟩ := bind_eq_ok.1 h
        cases h
      · rename_i unseen
        have unseen : ∀ t ∈ seen, t.sameKey a = false := by simpa using unseen
        refine finish (List.subset_cons_self a seen) ?_ h
        rintro _ ⟨⟩
        exact ⟨List.mem_cons_self, unseen⟩
    | set items => cases h
    | list items => exact finish (List.Subset.refl _) nofun h
    | pairs items => exact finish (List.Subset.refl _) nofun h
    | map items => exact finish (List.Subset.refl _) nofun h

theorem advances_of_makeEntries (makes : Makes unique o make) {place : Mark}
    {taken more : List (Scalar × Nat)} {es : List (Nat × Nat)} (start : From o s)
    (h : (makeEntries make place taken es).run s = .ok (more, s')) :
    Advances unique o s s' ∧
    (∀ e ∈ es, (∃ a, s'.madeOf e.1 = some (.scalar a)) ∧ s'.HasMade e.2) ∧
    (HasKeysOnce taken → HasKeysOnce more) := by
  induction es generalizing s taken with
  | nil =>
    cases h
    exact ⟨.refl start, nofun, id⟩
  | cons e rest ih =>
    rw [makeEntries, bind_eq_ok] at h
    obtain ⟨m, t, made, h⟩ := h
    obtain ⟨first, key⟩ := makes start made
    have refused (h : (nodeAt e.1 >>= fun node => complain (.unhashableKey place node.start) :
        Load (List (Scalar × Nat))).run t = .ok (more, s')) : False := by
      obtain ⟨node, _, -, h⟩ := bind_eq_ok.1 h
      cases h
    cases m with
    | scalar a =>
      obtain ⟨m, t', made, h⟩ := bind_eq_ok.1 h
      obtain ⟨second, value⟩ := makes first.from_ made
      obtain ⟨third, others, once⟩ := ih second.from_ h
      refine ⟨(first.trans second).trans third, List.forall_mem_cons.2 ⟨⟨⟨a, ?_⟩, ?_⟩, others⟩,
        fun taken_once => once (taken_once.putEntry _ _)⟩
      · exact (second.toGrows.trans third.toGrows).scalar first.from_ key
      · exact third.hasMade ⟨m, value⟩
    | set items => exact (refused h).elim
    | list items => exact (refused h).elim
    | pairs items => exact (refused h).elim
    | map items => exact (refused h).elim

theorem advances_of_mapping (makes : Makes unique o make) {taken : List (Scalar × Nat)}
    (start : From o s) (h : (mapping make n).run s = .ok (taken, s')) :
    Advances unique o s s' ∧ s'.Filled n ∧ HasKeysOnce taken := by
  rw [mapping, bind_eq_ok] at h
  obtain ⟨node, _, at_, h⟩ := h
  obtain ⟨there, rfl⟩ := nodeAt_eq_ok.1 at_
  cases content : node.content with
  | scalar text => rw [content] at h; cases h
  | sequence items => rw [content] at h; cases h
  | mapping es =>
    rw [content] at h
    dsimp only at h
    rw [run_bind_of_ok run_get, bind_eq_ok] at h
    obtain ⟨_, t, flat, h⟩ := h
    obtain ⟨nodes, rfl, spliced⟩ := splices_flatten _ [] ⟨node, es, there, content⟩ nofun flat
    rw [run_bind_of_ok run_entriesOf] at h
    obtain ⟨rest, made, once⟩ := advances_of_makeEntries makes (start.of_spliced spliced) h
    have same := rest.still spliced.plain
    refine ⟨.of_spliced spliced rest fun e mem => ?_, ⟨?_, ?_, ?_⟩, once .nil⟩
    · exact ⟨(made e mem).1.imp' _ fun _ made => made, (made e mem).2⟩
    · rw [same]
      exact rest.later.isPlain_iff.2 spliced.plain
    · exact fun mem => (made _ (same ▸ mem)).1
    · exact fun mem => (made _ (same ▸ mem)).2

theorem advances_of_refuseDuplicates (makes : Makes unique o make) {node : Node}
    (start : From o s) (there : s.nodes[n]? = some node)
    (h : (refuseDuplicates make node).run s = .ok ((), s')) :
    Advances unique o s s' ∧ (ownEntries s.nodes n).Pairwise s'.KeysDiffer ∧
    ∀ e ∈ ownEntries s.nodes n, s'.HasMade e.1 := by
  -- Without entries there is nothing to look for.
  have none (content : ∀ es, node.content ≠ .mapping es) (same : s = s') :
      Advances unique o s s' ∧ (ownEntries s.nodes n).Pairwise s'.KeysDiffer ∧
      ∀ e ∈ ownEntries s.nodes n, s'.HasMade e.1 := by
    rw [ownEntries_of_content there content]
    exact ⟨same ▸ .refl start, .nil, List.forall_mem_nil _⟩
  rw [refuseDuplicates] at h
  cases content : node.content with
  | mapping es =>
    rw [content] at h
    obtain ⟨advances, differ, made⟩ := advances_of_checkUnique makes start h
    rw [ownEntries, entries_of_content there content]
    exact ⟨advances, differ, fun e mem => (made e mem).1⟩
  | scalar text =>
    rw [content] at h
    dsimp only at h
    split at h
    · cases h
      exact none (by rw [content]; rintro _ ⟨⟩) rfl
    · cases h
  | sequence items =>
    rw [content] at h
    dsimp only at h
    split at h
    · cases h
      exact none (by rw [content]; rintro _ ⟨⟩) rfl
    · cases h

/-- What a node is made into has the kind that its tag asks for, and all that belongs to it has
been made or will be. -/
structure Fits (unique : Bool) (o : Array Node) (s : Loading) (n : Nat) (m : Made) : Prop where
  there : n < o.size
  kind : m.isCollection = true ↔ IsCollection o n
  scalar {x : Node} {a : Scalar} : o[n]? = some x → x.scalar? = some a → m = .scalar a
  map {es : List (Scalar × Nat)} : m = .map es → HasKeysOnce es
  settled : n ∈ s.waiting ∨ Settled unique o s n

theorem collectionTag?_eq_some {tag : String} {kind : CollectionTag}
    (h : collectionTag? tag = some kind) :
    tag = Tag.sequence ∨ tag = Tag.set ∨ tag = Tag.orderedMap ∨ tag = Tag.pairs := by
  obtain ⟨before, after, split, -⟩ := List.lookup_eq_some_iff.1 h
  have mem : (tag, kind) ∈ [(Tag.sequence, CollectionTag.sequence), (Tag.set, .set),
      (Tag.orderedMap, .pairList .orderedMap), (Tag.pairs, .pairList .pairs)] := by
    rw [split]
    exact List.mem_append_right _ List.mem_cons_self
  simp only [List.mem_cons, Prod.mk.injEq, List.not_mem_nil, or_false] at mem
  rcases mem with mem | mem | mem | mem <;> simp [mem.1]

section Construct

variable {node : Node} {m : Made}

theorem tag_iff (start : From o s) (there : s.nodes[n]? = some node) {tag : String}
    (value : tag ≠ Tag.value) (text : tag ≠ Tag.text) :
    isTagged o tag n = true ↔ node.tag = tag := by
  rw [← start.later.isTagged_eq value text, isTagged_of_node there]

theorem lt_size (start : From o s) (there : s.nodes[n]? = some node) : n < o.size := by
  rw [← start.later.size_eq]
  exact (Array.getElem?_eq_some_iff.1 there).1

theorem isCollection_iff (start : From o s) (there : s.nodes[n]? = some node) :
    IsCollection o n ↔ ∃ kind, collectionTag? node.tag = some kind := by
  obtain ⟨x, was, becomes⟩ := start.later.exists_former there
  have same : collectionTag? node.tag = collectionTag? x.tag := by
    rcases becomes.tag with same | ⟨value, text⟩
    · rw [same]
    · rw [value, text]
      rfl
  constructor
  · rintro ⟨y, kind, at_, tag⟩
    rw [was] at at_
    cases at_
    exact ⟨kind, same ▸ tag⟩
  · exact fun ⟨kind, tag⟩ => ⟨x, kind, was, same ▸ tag⟩

/-- What could be read from a node can still be read from it. -/
theorem reads_of_former (start : From o s) (there : s.nodes[n]? = some node) {x : Node} {a : Scalar}
    (was : o[n]? = some x) (reads : x.scalar? = some a) : ∃ kind text,
    scalarTag? node.tag = some kind ∧ node.content = .scalar text ∧
      readScalar kind node text = .ok a := by
  obtain ⟨y, at_, becomes⟩ := start.later.exists_node was
  rw [there] at at_
  cases at_
  obtain ⟨rfl, reads⟩ := Node.scalar?_eq_some reads becomes
  exact reads

theorem fits_of_scalar {kind : ScalarTag} (start : From o s) (there : s.nodes[n]? = some node)
    (tag : scalarTag? node.tag = some kind)
    (h : (do
      let text ← scalarText ((← get).nodes.size + 1) n
      Made.scalar <$> scalar kind node text : Load Made).run s = .ok (m, s')) :
    s' = s ∧ Fits unique o s n m := by
  rw [run_bind_of_ok run_get, bind_eq_ok] at h
  obtain ⟨text, t, text_eq, h⟩ := h
  obtain ⟨rfl, text_eq⟩ := scalarText_eq_ok text_eq
  rw [StateT.run_map, isBlind_scalar] at h
  cases read : readScalar kind node text with
  | error p => rw [read] at h; cases h
  | ok a =>
    rw [read] at h
    cases h
    have other {tag' : String} (none : scalarTag? tag' = none) : node.tag ≠ tag' := by
      rintro rfl
      rw [tag] at none
      cases none
    have untagged {tag' : String} (value : tag' ≠ Tag.value) (text : tag' ≠ Tag.text)
        (none : scalarTag? tag' = none) : isTagged o tag' n ≠ true :=
      fun tagged => other none ((tag_iff start there value text).1 tagged)
    refine ⟨rfl, ⟨lt_size start there, ?collected, ?scalar, nofun,
      .inr ⟨?filled, ?distinct, ?items, ?pairs⟩⟩⟩
    case collected =>
      refine iff_of_false nofun (mt (isCollection_iff start there).1 ?_)
      rintro ⟨collected, tag'⟩
      rcases collectionTag?_eq_some tag' with tag' | tag' | tag' | tag'
      all_goals exact other rfl tag'
    case scalar =>
      intro x b was reads
      obtain ⟨kind', text', tag', content, read'⟩ := reads_of_former start there was reads
      rw [tag] at tag'
      cases tag'
      rw [text_eq _ _ there content, read'] at read
      cases read
      rfl
    case filled =>
      rintro (tagged | tagged)
      · exact absurd tagged (untagged (by decide) (by decide) rfl)
      · exact absurd tagged (untagged (by decide) (by decide) rfl)
    case distinct => exact fun _ tagged => absurd tagged (untagged (by decide) (by decide) rfl)
    case items => exact fun tagged => absurd tagged (untagged (by decide) (by decide) rfl)
    case pairs =>
      rintro _ _ (tagged | tagged)
      · exact absurd tagged (untagged (by decide) (by decide) rfl)
      · exact absurd tagged (untagged (by decide) (by decide) rfl)

theorem advances_of_mappingTag (makes : Makes unique o make) (start : From o s)
    (there : s.nodes[n]? = some node) (tag : node.tag = Tag.mapping)
    (h : (do
      if unique then refuseDuplicates make node
      Made.map <$> mapping make n : Load Made).run s = .ok (m, s')) :
    Advances unique o s s' ∧ Fits unique o s' n m := by
  -- The check comes first, if there is one.
  obtain ⟨t, first, differ, h⟩ : ∃ t, Advances unique o s t ∧
      (unique = true → (ownEntries s.nodes n).Pairwise t.KeysDiffer ∧
        ∀ e ∈ ownEntries s.nodes n, t.HasMade e.1) ∧
      (Made.map <$> mapping make n).run t = .ok (m, s') := by
    cases unique with
    | false => exact ⟨s, .refl start, nofun, h⟩
    | true =>
      obtain ⟨_, t, checked, h⟩ := bind_eq_ok.1 h
      obtain ⟨first, differ⟩ := advances_of_refuseDuplicates makes start there checked
      exact ⟨t, first, fun _ => differ, h⟩
  obtain ⟨taken, made, h⟩ : ∃ taken, (mapping make n).run t = .ok (taken, s') ∧ m = .map taken := by
    rw [StateT.run_map] at h
    cases made : (mapping make n).run t with
    | error p => rw [made] at h; cases h
    | ok r => rw [made] at h; cases h; exact ⟨r.1, rfl, rfl⟩
  subst h
  obtain ⟨second, filled, once⟩ := advances_of_mapping makes first.from_ made
  have other {tag' : String} (value : tag' ≠ Tag.value) (text : tag' ≠ Tag.text)
      (ne : Tag.mapping ≠ tag') : isTagged o tag' n ≠ true :=
    fun tagged => ne (tag.symm.trans ((tag_iff start there value text).1 tagged))
  refine ⟨first.trans second, ⟨lt_size start there, ?collected, ?scalar, ?map,
    .inr ⟨?filled, ?distinct, ?items, ?pairs⟩⟩⟩
  case collected =>
    refine iff_of_false nofun (mt (isCollection_iff start there).1 ?_)
    rintro ⟨collected, tag'⟩
    rw [tag] at tag'
    cases tag'
  case scalar =>
    intro x a was reads
    obtain ⟨kind, -, tag', -⟩ := reads_of_former start there was reads
    rw [tag] at tag'
    cases tag'
  case map =>
    rintro _ ⟨⟩
    exact once
  case filled => exact fun _ => filled
  case distinct =>
    intro checked _
    obtain ⟨differ, made⟩ := differ checked
    have own := start.later.own n
    exact (differ.sublist own).imp_of_mem fun mem mem' differ =>
      differ.grows second.toGrows second.from_ (made _ (own.subset mem)) (made _ (own.subset mem'))
  case items => exact fun tagged => absurd tagged (other (by decide) (by decide) (by decide))
  case pairs =>
    rintro _ _ (tagged | tagged)
    · exact absurd tagged (other (by decide) (by decide) (by decide))
    · exact absurd tagged (other (by decide) (by decide) (by decide))

theorem advances_of_construct (makes : Makes unique o make) (start : From o s)
    (h : (construct unique make n).run s = .ok (m, s')) :
    Advances unique o s s' ∧ Fits unique o s' n m := by
  rw [construct, bind_eq_ok] at h
  obtain ⟨node, _, at_, h⟩ := h
  obtain ⟨there, rfl⟩ := nodeAt_eq_ok.1 at_
  cases tag : scalarTag? node.tag with
  | some kind =>
    rw [tag] at h
    obtain ⟨rfl, fits⟩ : s' = s ∧ Fits unique o s n m := fits_of_scalar start there tag h
    exact ⟨.refl start, fits⟩
  | none =>
    rw [tag] at h
    cases collected : collectionTag? node.tag with
    | some kind =>
      rw [collected] at h
      cases h
      have collection := (isCollection_iff start there).2 ⟨kind, collected⟩
      refine ⟨⟨⟨.refl _, fun _ => rfl, fun made => ⟨_, made, .inl rfl⟩⟩,
        start.congr rfl rfl, rfl, fun _ made => made, List.prefix_append _ _, ?queue, .inl, id⟩,
        ⟨lt_size start there, ?kind, ?scalar, ?map,
          .inl (List.mem_append_right _ List.mem_cons_self)⟩⟩
      case queue =>
        intro i mem
        refine (List.mem_append.1 mem).imp_right fun mem => ?_
        rw [List.mem_singleton.1 mem]
        exact collection
      case kind => exact iff_of_true (by cases kind <;> rfl) collection
      case scalar =>
        intro x a was reads
        obtain ⟨kind, -, tag', -⟩ := reads_of_former start there was reads
        rw [tag] at tag'
        cases tag'
      case map =>
        intro es same
        cases kind <;> cases same
    | none =>
      rw [collected] at h
      dsimp only at h
      split at h
      · rename_i mapping
        exact advances_of_mappingTag makes start there mapping h
      · cases h

end Construct

/-- Where it is recorded what a new node or a collection has been made into, nothing else
changes. -/
theorem grows_of_record {t t' : Loading} {m : Made} (start : From o t) (fits : Fits unique o t n m)
    (free : t.madeOf n = none ∨ IsCollection o n) (nodes : t'.nodes = t.nodes)
    (recorded : t'.made = t.made.setIfInBounds n (some m)) :
    Grows o t t' ∧ From o t' ∧ t'.madeOf n = some m ∧ ∀ i, i ≠ n → t'.madeOf i = t.madeOf i := by
  have self : t'.madeOf n = some m := by
    rw [Loading.madeOf, recorded, Array.getElem?_setIfInBounds_self_of_lt (start.size ▸ fits.there)]
    rfl
  have other : ∀ i, i ≠ n → t'.madeOf i = t.madeOf i := by
    intro i ne
    rw [Loading.madeOf, recorded, Array.getElem?_setIfInBounds_ne ne.symm]
    rfl
  refine ⟨⟨nodes ▸ .refl _, fun _ => nodes ▸ rfl, ?keeps⟩,
    ⟨nodes ▸ start.later, ?size, ?kinds, ?scalars, ?maps⟩, self, other⟩
  case keeps =>
    intro i m' made
    by_cases same : i = n
    · subst same
      refine ⟨m, self, .inr (free.resolve_left fun none => ?_)⟩
      rw [none] at made
      cases made
    · exact ⟨m', (other i same).trans made, .inl rfl⟩
  case size =>
    rw [recorded, Array.size_setIfInBounds]
    exact start.size
  case kinds =>
    intro i m' made
    by_cases same : i = n
    · subst same
      rw [self] at made
      cases made
      exact fits.kind
    · exact start.kinds (other i same ▸ made)
  case scalars =>
    intro i x a m' was reads made
    by_cases same : i = n
    · subst same
      rw [self] at made
      cases made
      exact fits.scalar was reads
    · exact start.scalars was reads (other i same ▸ made)
  case maps =>
    intro i es made
    by_cases same : i = n
    · subst same
      rw [self] at made
      exact fits.map (Option.some.inj made)
    · exact start.maps (other i same ▸ made)

/-- When a node has been made, that is recorded, and it is no longer in the making. -/
theorem advances_of_record {t t' : Loading} {m : Made} (new : s.madeOf n = none)
    (idle : n ∉ s.active) (inside : Advances unique o { s with active := n :: s.active } t)
    (fits : Fits unique o t n m)
    (after : t' = { t with made := t.made.setIfInBounds n (some m), active := t.active.tail }) :
    Advances unique o s t' ∧ t'.madeOf n = some m := by
  have nodes : t'.nodes = t.nodes := after ▸ rfl
  have recorded : t'.made = t.made.setIfInBounds n (some m) := after ▸ rfl
  obtain ⟨grows, from_, self, other⟩ := grows_of_record inside.from_ fits
    (.inl (inside.idle List.mem_cons_self new)) nodes recorded
  have waiting : t'.waiting = t.waiting := after ▸ rfl
  refine ⟨⟨?grows, from_, ?active, ?idle, waiting ▸ inside.waiting, waiting ▸ inside.queue, ?news,
    fun covers => Covers.grows (inside.covers covers) grows nodes⟩, self⟩
  case grows => exact .trans ⟨inside.later, inside.still, inside.keeps⟩ grows
  case active =>
    rw [after]
    exact congrArg List.tail inside.active
  case idle =>
    intro i mem none
    rw [other i fun same => idle (same ▸ mem)]
    exact inside.idle (List.mem_cons_of_mem _ mem) none
  case news =>
    intro i made
    have settled (settled : Settled unique o t i) : Settled unique o t' i :=
      settled.grows grows inside.from_ from_
    rw [waiting]
    by_cases same : i = n
    · subst same
      exact .inr (fits.settled.imp_right settled)
    · obtain ⟨m', made⟩ := made
      exact (inside.news ⟨m', other i same ▸ made⟩).imp_right fun new => new.imp_right settled

/-- **Making a node.**  Whatever a state was on the way to it still is, and all that belongs to
what was made has been made or waits for its turn. -/
theorem makes_make (unique : Bool) (o : Array Node) (fuel : Nat) :
    Makes unique o (Load.make unique fuel) := by
  induction fuel with
  | zero => exact fun _ h => nomatch h
  | succ fuel ih =>
    intro n s s' m start h
    cases new : s.madeOf n with
    | some m' =>
      rw [run_make_of_made unique fuel new] at h
      cases h
      exact ⟨.refl start, new⟩
    | none =>
      by_cases active : n ∈ s.active
      · rw [run_make_of_active unique fuel new active, bind_eq_ok] at h
        obtain ⟨_, _, -, h⟩ := h
        cases h
      · rw [run_make_of_new unique fuel new active] at h
        cases made : (construct unique (Load.make unique fuel) n).run
            { s with active := n :: s.active } with
        | error p => rw [made] at h; cases h
        | ok r =>
          rw [made] at h
          cases h
          have start' : From o { s with active := n :: s.active } := start.congr rfl rfl
          obtain ⟨inside, fits⟩ := advances_of_construct ih start' made
          exact advances_of_record new active inside fits rfl

/-! ## The items of collections -/

theorem pairOf_eq_ok {what : PairList} {place : Mark} {item : Nat} {e : Nat × Nat}
    (h : (pairOf what place item).run s = .ok (e, s')) :
    s' = s ∧ entries s.nodes item = [e] := by
  rw [pairOf, bind_eq_ok] at h
  obtain ⟨node, _, at_, h⟩ := h
  obtain ⟨there, rfl⟩ := nodeAt_eq_ok.1 at_
  cases content : node.content with
  | scalar text => rw [content] at h; cases h
  | sequence items => rw [content] at h; cases h
  | mapping es =>
    rw [content] at h
    rw [entries_of_content there content]
    match es, h with
    | [e], rfl => exact ⟨rfl, rfl⟩

theorem advances_of_makePairs (makes : Makes unique o make) {what : PairList} {place : Mark}
    {items : List Nat} {pairs : List (Nat × Nat)} (start : From o s)
    (h : (makePairs make what place items).run s = .ok (pairs, s')) :
    Advances unique o s s' ∧
    ∀ i ∈ items, ∀ e ∈ ownEntries o i, s'.HasMade e.1 ∧ s'.HasMade e.2 := by
  induction items generalizing s pairs with
  | nil =>
    cases h
    exact ⟨.refl start, nofun⟩
  | cons item rest ih =>
    rw [makePairs, List.mapM_cons, bind_eq_ok] at h
    obtain ⟨e, t, one, h⟩ := h
    obtain ⟨e', _, pair, made⟩ := bind_eq_ok.1 one
    obtain ⟨rfl, single⟩ := pairOf_eq_ok pair
    obtain ⟨k, t₁, key, made'⟩ := bind_eq_ok.1 made
    obtain ⟨v, t₂, value, same⟩ := bind_eq_ok.1 made'
    cases same
    obtain ⟨others, t₃, rest, h⟩ := bind_eq_ok.1 h
    cases h
    obtain ⟨first, key⟩ := makes start key
    obtain ⟨second, value⟩ := makes first.from_ value
    obtain ⟨third, made⟩ := ih second.from_ rest
    refine ⟨(first.trans second).trans third, List.forall_mem_cons.2 ⟨fun f mem => ?_, made⟩⟩
    have mem := (List.mem_filter.1 ((start.later.own item).subset mem)).1
    rw [single, List.mem_singleton] at mem
    subst mem
    exact ⟨(second.toGrows.trans third.toGrows).hasMade ⟨k, key⟩, third.hasMade ⟨v, value⟩⟩

theorem advances_of_items (makes : Makes unique o make) {items : List Nat} (start : From o s)
    (h : (items.forM fun item => discard (make item) : Load Unit).run s = .ok ((), s')) :
    Advances unique o s s' ∧ ∀ i ∈ items, s'.HasMade i := by
  induction items generalizing s with
  | nil =>
    cases h
    exact ⟨.refl start, nofun⟩
  | cons item rest ih =>
    obtain ⟨_, t, one, h⟩ := bind_eq_ok.1 h
    have one : (make item >>= fun _ => pure () : Load Unit).run s = .ok ((), t) := one
    obtain ⟨m, t', one, same⟩ := bind_eq_ok.1 one
    cases same
    obtain ⟨first, made⟩ := makes start one
    obtain ⟨second, others⟩ := ih first.from_ h
    exact ⟨first.trans second, List.forall_mem_cons.2 ⟨second.hasMade ⟨m, made⟩, others⟩⟩

/-- When a collection has got its items, that is recorded. -/
theorem advances_of_refill {t : Loading} {m : Made} (inside : Advances unique o s t)
    (idle : s.active = []) (collection : IsCollection o n) (fits : Fits unique o t n m)
    (settled : Settled unique o t n) (h : (record n m).run t = .ok ((), s')) :
    Advances unique o s s' ∧ Settled unique o s' n := by
  rw [run_record, Except.ok.injEq, Prod.mk.injEq] at h
  have after := h.2.symm
  have nodes : s'.nodes = t.nodes := after ▸ rfl
  have recorded : s'.made = t.made.setIfInBounds n (some m) := after ▸ rfl
  have waiting : s'.waiting = t.waiting := after ▸ rfl
  have active : s'.active = t.active := after ▸ rfl
  obtain ⟨grows, from_, self, other⟩ := grows_of_record inside.from_ fits (.inr collection)
    nodes recorded
  have settled' {i : Nat} (settled : Settled unique o t i) :=
    settled.grows grows inside.from_ from_
  refine ⟨⟨inside.toGrows.trans grows, from_, active.trans inside.active, ?idle,
    waiting ▸ inside.waiting, waiting ▸ inside.queue, ?news,
    fun covers => Covers.grows (inside.covers covers) grows nodes⟩, settled' settled⟩
  case idle =>
    intro i mem
    rw [idle] at mem
    cases mem
  case news =>
    intro i made
    rw [waiting]
    by_cases same : i = n
    · subst same
      exact .inr (.inr (settled' settled))
    · obtain ⟨m', made⟩ := made
      exact (inside.news ⟨m', other i same ▸ made⟩).imp_right fun new => new.imp_right settled'

theorem scalarTag?_of_collection {tag : String} {kind : CollectionTag}
    (h : collectionTag? tag = some kind) : scalarTag? tag = none := by
  rcases collectionTag?_eq_some h with rfl | rfl | rfl | rfl <;> rfl

/-- What a collection that has got its items has to have had made, by its kind. -/
theorem settled_of_kind {kind : CollectionTag}
    (tagged : ∀ {tag : String}, tag ≠ Tag.value → tag ≠ Tag.text → isTagged o tag n = true →
      collectionTag? tag = some kind)
    (set : kind = .set → s.Filled n)
    (items : kind = .sequence → ∀ {x : Node} {items : List Nat}, o[n]? = some x →
      x.content = .sequence items → ∀ i ∈ items, s.HasMade i)
    (pairs : ∀ what, kind = .pairList what → ∀ {x : Node} {items : List Nat}, o[n]? = some x →
      x.content = .sequence items → ∀ i ∈ items, ∀ e ∈ ownEntries o i,
        s.HasMade e.1 ∧ s.HasMade e.2) :
    Settled unique o s n where
  filled := by
    rintro (tag | tag)
    · cases tagged (by decide) (by decide) tag
    · exact set (Option.some.inj (tagged (by decide) (by decide) tag)).symm
  distinct _ tag := nomatch tagged (by decide) (by decide) tag
  items tag := items (Option.some.inj (tagged (by decide) (by decide) tag)).symm
  pairs := by
    rintro x items (tag | tag)
    · exact pairs _ (Option.some.inj (tagged (by decide) (by decide) tag)).symm
    · exact pairs _ (Option.some.inj (tagged (by decide) (by decide) tag)).symm

theorem advances_of_complete (makes : Makes unique o make) (start : From o s) (idle : s.active = [])
    (collection : IsCollection o n) (h : (complete make n).run s = .ok ((), s')) :
    Advances unique o s s' ∧ Settled unique o s' n := by
  rw [complete, bind_eq_ok] at h
  obtain ⟨node, _, at_, h⟩ := h
  obtain ⟨there, rfl⟩ := nodeAt_eq_ok.1 at_
  obtain ⟨kind, collected⟩ := (isCollection_iff start there).1 collection
  obtain ⟨x, was, becomes⟩ := start.later.exists_former there
  rw [collected] at h
  have fits {t : Loading} {m : Made} (isCollection : m.isCollection = true)
      (settled : Settled unique o t n) : Fits unique o t n m := by
    refine ⟨lt_size start there, iff_of_true isCollection collection, ?scalar, ?map, .inr settled⟩
    case scalar =>
      intro y a was reads
      obtain ⟨kind, -, tag, -⟩ := reads_of_former start there was reads
      rw [scalarTag?_of_collection collected] at tag
      cases tag
    case map =>
      rintro _ rfl
      cases isCollection
  have tagged {tag : String} (value : tag ≠ Tag.value) (text : tag ≠ Tag.text)
      (h : isTagged o tag n = true) : collectionTag? tag = some kind :=
    (tag_iff start there value text).1 h ▸ collected
  have content_eq {y : Node} {items : List Nat} (was' : o[n]? = some y)
      (content : y.content = .sequence items) : node.content = .sequence items := by
    rw [was] at was'
    cases was'
    have shape := becomes.shape
    rw [content] at shape
    cases content' : node.content <;> rw [content'] at shape <;> cases shape
    rfl
  match kind with
  | .sequence =>
    cases content : node.content with
    | scalar text => rw [content] at h; cases h
    | mapping es => rw [content] at h; cases h
    | sequence items =>
      rw [content] at h
      obtain ⟨_, t, made, h⟩ := bind_eq_ok.1 h
      obtain ⟨inside, made⟩ := advances_of_items makes start made
      have settled : Settled unique o t n := by
        refine settled_of_kind tagged nofun (fun _ y items' was' content' => ?_) nofun
        rw [content_eq was' content'] at content
        cases content
        exact made
      exact advances_of_refill inside idle collection (fits rfl settled) settled h
  | .set =>
    obtain ⟨taken, t, made, h⟩ := bind_eq_ok.1 h
    obtain ⟨inside, filled, -⟩ := advances_of_mapping makes start made
    have settled : Settled unique o t n := settled_of_kind tagged (fun _ => filled) nofun nofun
    exact advances_of_refill inside idle collection (fits rfl settled) settled h
  | .pairList what =>
    cases content : node.content with
    | scalar text => rw [content] at h; cases h
    | mapping es => rw [content] at h; cases h
    | sequence items =>
      rw [content] at h
      obtain ⟨pairs, t, made, h⟩ := bind_eq_ok.1 h
      obtain ⟨inside, made⟩ := advances_of_makePairs makes start made
      have settled : Settled unique o t n := by
        refine settled_of_kind tagged nofun nofun fun _ _ y items' was' content' => ?_
        rw [content_eq was' content'] at content
        cases content
        exact made
      exact advances_of_refill inside idle collection (fits rfl settled) settled h

/-! ## Making everything -/

/-- **Making all items.**  When no collection waits any more, all that belongs to what was made
has been made. -/
theorem grows_of_completeAll (makes : Makes unique o make) {fuel : Nat} (start : From o s)
    (idle : s.active = []) (queue : ∀ i ∈ s.waiting, IsCollection o i)
    (news : ∀ i, s.HasMade i → i ∈ s.waiting ∨ Settled unique o s i)
    (h : (completeAll make fuel).run s = .ok ((), s')) :
    Grows o s s' ∧ From o s' ∧ (∀ i, s'.HasMade i → Settled unique o s' i) ∧
    ∀ {others}, Covers o others s → Covers o others s' := by
  induction fuel generalizing s with
  | zero => cases h
  | succ fuel ih =>
    rw [completeAll, run_bind_of_ok run_get] at h
    cases waiting : s.waiting with
    | nil =>
      rw [waiting] at h
      cases h
      exact ⟨.refl _, start, fun i made => (news i made).resolve_left (waiting ▸ nofun), id⟩
    | cons n rest =>
      rw [waiting] at h queue
      dsimp only at h
      rw [run_bind_of_ok (run_modify _), bind_eq_ok] at h
      obtain ⟨_, t, one, h⟩ := h
      have start' : From o { s with waiting := rest } := start.congr rfl rfl
      have same : Grows o s { s with waiting := rest } :=
        ⟨.refl _, fun _ => rfl, fun made => ⟨_, made, .inl rfl⟩⟩
      obtain ⟨first, settled⟩ :=
        advances_of_complete makes start' idle (queue n List.mem_cons_self) one
      obtain ⟨second, from_, all, covers⟩ := ih first.from_ (first.active.trans idle)
        (fun i mem => (first.queue mem).elim (fun mem => queue i (List.mem_cons_of_mem _ mem)) id)
        (fun i made => by
          rcases first.news made with made | new
          · rcases news i made with mem | settled'
            · rw [waiting] at mem
              rcases List.mem_cons.1 mem with rfl | mem
              · exact .inr settled
              · exact .inl (first.waiting.subset mem)
            · exact .inr ((settled'.grows same start start').grows first.toGrows start' first.from_)
          · exact new) h
      exact ⟨(same.trans first.toGrows).trans second, from_, all,
        fun covering => covers (first.covers (Covers.grows covering same rfl))⟩

end Load

end Yaml
end ApiManual
