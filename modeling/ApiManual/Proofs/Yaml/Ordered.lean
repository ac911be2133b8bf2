import ApiManual.Proofs.Yaml.UniqueKeys
import ApiManual.Proofs.Validation.Reordering

/-!
# Loading what is in order

A text without names, without tags of its own and without merge keys has a graph that is in
order (`Graph.IsOrdered`): every scalar can be read, every part of a node stands behind it,
and no mapping has a key twice.  Such a graph is always loaded, and each node is made into
what it holds (`Graph.load_of_isOrdered`).

A state on the way is `Partway` if all that has been made is final, but for the lists that
wait for their items.  Making a node keeps it so; it comes to an end as every part stands
behind its whole.  The lists that wait come to an end as each of them waits once: the nodes
that have not been made and those that wait get fewer with each list that is completed
(`Loading.pending`).
-/

namespace ApiManual
namespace Yaml

open Loading

namespace Graph

/-- An entry under the scalar of its key. -/
def keyed (o : Array Node) (e : Nat × Nat) : Scalar × Nat := ((read? o e.1).getD .null, e.2)

/-- What a node is made into in the end. -/
def final (o : Array Node) (n : Nat) : Made :=
  match o[n]?.map Node.content with
  | some (.sequence items) => .list items
  | some (.mapping es) => .map (es.map (keyed o))
  | _ => .scalar ((read? o n).getD .null)

/-- What is in order about a node. -/
inductive IsOrderedAt (o : Array Node) (n : Nat) : Prop
  | scalar {a : Scalar} (reads : read? o n = some a)
  | sequence {x : Node} {items : List Nat} (there : o[n]? = some x) (tag : x.tag = Tag.sequence)
    (content : x.content = .sequence items) (behind : ∀ i ∈ items, n < i ∧ i < o.size)
  | mapping {x : Node} {es : List (Nat × Nat)} (there : o[n]? = some x) (tag : x.tag = Tag.mapping)
    (content : x.content = .mapping es)
    (behind : ∀ e ∈ es, (n < e.1 ∧ e.1 < o.size) ∧ n < e.2 ∧ e.2 < o.size)
    (keys : ∀ e ∈ es, (read? o e.1).isSome) (differ : HasKeysOnce (es.map (keyed o)))

/-- All scalars can be read, all parts stand behind their wholes, and no key is there twice. -/
def IsOrdered (o : Array Node) : Prop := ∀ n, n < o.size → IsOrderedAt o n

section

variable {o : Array Node} {n : Nat} {x : Node}

theorem final_of_sequence {items : List Nat} (there : o[n]? = some x)
    (content : x.content = .sequence items) : final o n = .list items := by
  rw [final, there, Option.map_some, content]

theorem final_of_mapping {es : List (Nat × Nat)} (there : o[n]? = some x)
    (content : x.content = .mapping es) : final o n = .map (es.map (keyed o)) := by
  rw [final, there, Option.map_some, content]

/-- What there is about a scalar that can be read. -/
theorem exists_of_read? {a : Scalar} (reads : read? o n = some a) : ∃ x kind text,
    o[n]? = some x ∧ Load.scalarTag? x.tag = some kind ∧ x.content = .scalar text ∧
      Load.readScalar kind x text = .ok a := by
  obtain ⟨x, there, reads⟩ := Option.bind_eq_some_iff.1 reads
  obtain ⟨-, kind, text, known⟩ := Node.scalar?_eq_some reads (.refl x)
  exact ⟨x, kind, text, there, known⟩

theorem final_of_read? {a : Scalar} (reads : read? o n = some a) : final o n = .scalar a := by
  obtain ⟨x, kind, text, there, -, content, -⟩ := exists_of_read? reads
  rw [final, there, Option.map_some, content, reads]
  rfl

/-- A scalar that can be read has none of the tags that ask for something else. -/
theorem isTagged_of_isSome (reads : (read? o n).isSome = true) {tag : String}
    (other : Load.scalarTag? tag = none) : isTagged o tag n = false := by
  obtain ⟨a, reads⟩ := Option.isSome_iff_exists.1 reads
  obtain ⟨x, kind, text, there, known, -⟩ := exists_of_read? reads
  rw [Bool.eq_false_iff, Ne, isTagged_of_node there]
  rintro rfl
  rw [other] at known
  cases known

/-- Only nodes that are there have a tag. -/
theorem lt_size_of_isTagged {tag : String} (tagged : isTagged o tag n = true) : n < o.size := by
  rw [isTagged, decide_eq_true_eq, Option.map_eq_some_iff] at tagged
  obtain ⟨x, there, -⟩ := tagged
  exact (Array.getElem?_eq_some_iff.1 there).1

/-- A node with the tag of a list holds items. -/
theorem IsOrderedAt.exists_items (ordered : IsOrderedAt o n)
    (tagged : isTagged o Tag.sequence n = true) : ∃ x items, o[n]? = some x ∧
      x.tag = Tag.sequence ∧ x.content = .sequence items ∧ ∀ i ∈ items, n < i ∧ i < o.size := by
  cases ordered with
  | scalar reads =>
    have other : isTagged o Tag.sequence n = false :=
      isTagged_of_isSome (by rw [reads]; rfl) rfl
    rw [tagged] at other
    cases other
  | sequence there tag content behind => exact ⟨_, _, there, tag, content, behind⟩
  | mapping there other =>
    rw [isTagged_of_node there, other] at tagged
    cases tagged

/-- Among keys that can be read there is no merge key. -/
theorem firstMerge?_of_keys {es : List (Nat × Nat)} (keys : ∀ e ∈ es, (read? o e.1).isSome) :
    firstMerge? o es = none := by
  induction es with
  | nil => rfl
  | cons e rest ih =>
    rw [List.forall_mem_cons] at keys
    rw [firstMerge?, isTagged_of_isSome keys.1 rfl, if_neg Bool.false_ne_true, ih keys.2,
      Option.map_none]

/-- Among keys that can be read there is no equals sign. -/
theorem withNamedSigns_of_keys {es : List (Nat × Nat)} (keys : ∀ e ∈ es, (read? o e.1).isSome) :
    withNamedSigns o es = o := by
  induction es with
  | nil => rfl
  | cons e rest ih =>
    rw [List.forall_mem_cons] at keys
    rw [withNamedSigns, List.foldl_cons, isTagged_of_isSome keys.1 rfl,
      if_neg Bool.false_ne_true]
    exact ih keys.2

/-- The entries that a mapping has change nothing. -/
theorem withEntries_self {es : List (Nat × Nat)} (there : o[n]? = some x)
    (content : x.content = .mapping es) : withEntries o n es = o := by
  refine Array.ext_getElem? fun i => ?_
  rw [withEntries, Array.getElem?_modify]
  split
  · rename_i same
    subst same
    rw [there, Option.map_some, ← content]
  · rfl

end

end Graph

/-- The nodes that the value of a node is made of. -/
def Made.parts : Made → List Nat
  | .list items => items
  | .map es => es.map Prod.snd
  | _ => []

/-! ## States on the way -/

namespace Loading

/-- A node has been made into what it is in the end, and its parts have been made. -/
structure Done (o : Array Node) (s : Loading) (n : Nat) : Prop where
  made : s.madeOf n = some (Graph.final o n)
  parts : ∀ i ∈ (Graph.final o n).parts, s.HasMade i

/-- How many nodes have not been made, or wait. -/
def pending (s : Loading) : Nat := s.made.count none + s.waiting.length

/-- What has been made is done, but for the lists that wait and for those that are late, as
they are being completed. -/
structure Partway (o : Array Node) (late : List Nat) (s : Loading) : Prop where
  nodes : s.nodes = o
  size : s.made.size = o.size
  waits : ∀ i ∈ late ++ s.waiting, Graph.isTagged o Tag.sequence i = true
  made : ∀ i, s.HasMade i → i ∈ late ++ s.waiting ∨ Done o s i

/-- Nodes from a bound on can be made. -/
structure Ready (o : Array Node) (late : List Nat) (bound : Nat) (s : Loading) : Prop where
  partway : Partway o late s
  idle : ∀ i ∈ s.active, i < bound

/-- A step goes on from a state: what has been made stays, and no more is pending. -/
structure Goes (o : Array Node) (late : List Nat) (s t : Loading) : Prop where
  partway : Partway o late t
  active : t.active = s.active
  made : ∀ i, s.HasMade i → t.HasMade i
  pending_le : t.pending ≤ s.pending

variable {o : Array Node} {late : List Nat} {bound n : Nat} {s t u : Loading}

theorem Done.goes (h : Done o s n) (same : t.madeOf n = s.madeOf n)
    (made : ∀ i, s.HasMade i → t.HasMade i) : Done o t n :=
  ⟨same.trans h.made, fun i mem => made i (h.parts i mem)⟩

theorem Goes.refl (h : Partway o late s) : Goes o late s s := ⟨h, rfl, fun _ => id, Nat.le_refl _⟩

theorem Goes.trans (h : Goes o late s t) (h' : Goes o late t u) : Goes o late s u where
  partway := h'.partway
  active := h'.active.trans h.active
  made i made := h'.made i (h.made i made)
  pending_le := Nat.le_trans h'.pending_le h.pending_le

theorem Goes.ready (h : Goes o late s t) (ready : Ready o late bound s) : Ready o late bound t :=
  ⟨h.partway, h.active ▸ ready.idle⟩

/-- What is recorded of a node says nothing about the others. -/
theorem madeOf_set {m : Made} {i : Nat} (inside : n < s.made.size)
    (recorded : t.made = s.made.setIfInBounds n (some m)) :
    t.madeOf i = if i = n then some m else s.madeOf i := by
  rw [← madeOf_record inside, madeOf, recorded]
  rfl

/-- What has been made stays made. -/
theorem HasMade.set {m : Made} {i : Nat} (inside : n < s.made.size)
    (recorded : t.made = s.made.setIfInBounds n (some m)) (h : s.HasMade i) : t.HasMade i := by
  rw [HasMade, madeOf_set inside recorded]
  split
  · exact ⟨m, rfl⟩
  · exact h

theorem Done.set {m : Made} {i : Nat} (inside : n < s.made.size)
    (recorded : t.made = s.made.setIfInBounds n (some m)) (other : i ≠ n) (h : Done o s i) :
    Done o t i :=
  h.goes (by rw [madeOf_set inside recorded, if_neg other]) fun _ => HasMade.set inside recorded

/-- A node that is recorded is not pending any more. -/
theorem count_set_le {made : Array (Option Made)} (m : Made) (inside : n < made.size) :
    (made.setIfInBounds n (some m)).count none ≤ made.count none := by
  rw [Array.setIfInBounds, dif_pos inside, Array.count_set]
  simp

theorem count_set_of_none {made : Array (Option Made)} (m : Made) (inside : n < made.size)
    (new : made[n]?.join = none) :
    (made.setIfInBounds n (some m)).count none + 1 = made.count none := by
  rw [Array.getElem?_eq_getElem inside] at new
  have none_ : made[n] = none := new
  have pos : 0 < made.count none := Array.count_pos_iff.2 (none_ ▸ Array.getElem_mem inside)
  rw [Array.setIfInBounds, dif_pos inside, Array.count_set]
  simp [none_]
  omega

/-- A scalar that has been made is the one that is read. -/
theorem Partway.madeOf_scalar (h : Partway o late s) {a : Scalar}
    (reads : Graph.read? o n = some a) (made : s.HasMade n) : s.madeOf n = some (.scalar a) := by
  rcases h.made n made with mem | done
  · have other : Graph.isTagged o Tag.sequence n = false :=
      Graph.isTagged_of_isSome (by rw [reads]; rfl) rfl
    rw [h.waits n mem] at other
    cases other
  · rw [done.made, Graph.final_of_read? reads]

end Loading

/-! ## Making nodes -/

namespace Load

variable {o : Array Node} {late : List Nat} {bound n : Nat} {s t : Loading}
  {make : Nat → Load Made}

/-- All nodes from a bound on are made by this step. -/
def MakesFrom (o : Array Node) (late : List Nat) (bound : Nat) (make : Nat → Load Made) : Prop :=
  ∀ {n : Nat} {s : Loading}, bound ≤ n → n < o.size → Ready o late bound s →
    ∃ m t, (make n).run s = .ok (m, t) ∧ Goes o late s t ∧ t.madeOf n = some m

/-- A key is made into its scalar. -/
theorem MakesFrom.key (makes : MakesFrom o late bound make) (behind : bound ≤ n)
    (inside : n < o.size) (ready : Ready o late bound s) {a : Scalar}
    (reads : Graph.read? o n = some a) :
    ∃ t, (make n).run s = .ok (.scalar a, t) ∧ Goes o late s t := by
  obtain ⟨m, t, run, goes, made⟩ := makes behind inside ready
  have scalar := goes.partway.madeOf_scalar reads ⟨m, made⟩
  rw [made, Option.some.injEq] at scalar
  exact ⟨t, scalar ▸ run, goes⟩

/-- Keys that differ are not refused. -/
theorem goes_checkUnique (makes : MakesFrom o late bound make) (place : Mark)
    (seen : List Scalar) {es : List (Nat × Nat)} (ready : Ready o late bound s)
    (behind : ∀ e ∈ es, bound ≤ e.1 ∧ e.1 < o.size)
    (keys : ∀ e ∈ es, (Graph.read? o e.1).isSome)
    (differ : HasKeysOnce (es.map (Graph.keyed o)))
    (new : ∀ a ∈ seen, ∀ e ∈ es, a.sameKey (Graph.keyed o e).1 = false) :
    ∃ t, (checkUnique make place seen es).run s = .ok ((), t) ∧ Goes o late s t := by
  induction es generalizing s seen with
  | nil => exact ⟨s, rfl, .refl ready.partway⟩
  | cons e rest ih =>
    obtain ⟨k, v⟩ := e
    rw [List.forall_mem_cons] at behind keys
    obtain ⟨differs, differ⟩ := List.pairwise_cons.1 differ
    obtain ⟨a, reads⟩ := Option.isSome_iff_exists.1 keys.1
    obtain ⟨t, run, goes⟩ := makes.key behind.1.1 behind.1.2 ready reads
    have key : (Graph.keyed o (k, v)).1 = a := by rw [Graph.keyed, reads]; rfl
    have unseen : (seen.any fun b => b.sameKey a) = false := by
      rw [List.any_eq_false]
      intro b mem
      rw [← key, new b mem _ List.mem_cons_self]
      decide
    obtain ⟨u, others, goes'⟩ := ih (a :: seen) (goes.ready ready) behind.2 keys.2 differ (by
      rw [List.forall_mem_cons]
      refine ⟨fun e mem => ?_, fun b mem e mem' => new b mem e (List.mem_cons_of_mem _ mem')⟩
      rw [← key]
      exact differs _ (List.mem_map_of_mem mem))
    refine ⟨u, ?_, goes.trans goes'⟩
    have noMerge : Graph.isTagged s.nodes Tag.merge k = false := by
      rw [ready.partway.nodes]
      exact Graph.isTagged_of_isSome keys.1 rfl
    rw [checkUnique, run_bind_of_ok (run_hasTag _), noMerge, if_neg Bool.false_ne_true]
    rw [run_bind_of_ok run]
    dsimp only
    rw [unseen, if_neg Bool.false_ne_true, others]

/-- Entries whose keys differ are made in their order. -/
theorem goes_makeEntries (makes : MakesFrom o late bound make) (place : Mark)
    (taken : List (Scalar × Nat)) {es : List (Nat × Nat)} (ready : Ready o late bound s)
    (behind : ∀ e ∈ es, (bound ≤ e.1 ∧ e.1 < o.size) ∧ bound ≤ e.2 ∧ e.2 < o.size)
    (keys : ∀ e ∈ es, (Graph.read? o e.1).isSome)
    (differ : HasKeysOnce (taken ++ es.map (Graph.keyed o))) :
    ∃ t, (makeEntries make place taken es).run s = .ok (taken ++ es.map (Graph.keyed o), t) ∧
      Goes o late s t ∧ ∀ e ∈ es, t.HasMade e.2 := by
  induction es generalizing s taken with
  | nil => exact ⟨s, by rw [List.map_nil, List.append_nil]; rfl, .refl ready.partway, nofun⟩
  | cons e rest ih =>
    obtain ⟨k, v⟩ := e
    rw [List.forall_mem_cons] at behind keys
    obtain ⟨a, reads⟩ := Option.isSome_iff_exists.1 keys.1
    have keyed : Graph.keyed o (k, v) = (a, v) := by rw [Graph.keyed, reads]; rfl
    rw [List.map_cons, keyed] at differ
    obtain ⟨t, run, goes⟩ := makes.key behind.1.1.1 behind.1.1.2 ready reads
    obtain ⟨m, u, run', goes', made⟩ := makes behind.1.2.1 behind.1.2.2 (goes.ready ready)
    have put : putEntry Scalar.sameKey a v taken = taken ++ [(a, v)] :=
      putEntry_of_fresh v fun e mem =>
        (List.pairwise_append.1 differ).2.2 e mem _ List.mem_cons_self
    rw [List.append_cons] at differ
    obtain ⟨w, others, goes'', all⟩ := ih _ ((goes.trans goes').ready ready) behind.2
      keys.2 differ
    refine ⟨w, ?_, (goes.trans goes').trans goes'',
      List.forall_mem_cons.2 ⟨goes''.made v ⟨m, made⟩, all⟩⟩
    rw [makeEntries, run_bind_of_ok run]
    dsimp only
    rw [run_bind_of_ok run', put, others, List.map_cons, keyed, ← List.append_cons]

/-- A mapping without merge keys takes over nothing. -/
theorem run_flatten_of_keys (fuel : Nat) {x : Node} {es : List (Nat × Nat)}
    (there : s.nodes[n]? = some x) (content : x.content = .mapping es)
    (keys : ∀ e ∈ es, (Graph.read? s.nodes e.1).isSome) :
    (flatten (fuel + 1) [] n).run s = .ok ((), s) := by
  rw [flatten, run_bind_of_ok run_entriesOf, run_bind_of_ok (run_takeMerge _)]
  rw [Graph.entries_of_content there content, Graph.firstMerge?_of_keys keys]
  dsimp only
  rw [run_bind_of_ok (run_nameEqualsSigns _), run_setEntries, List.nil_append]
  dsimp only
  rw [Graph.withNamedSigns_of_keys keys, Graph.withEntries_self there content]

/-- A scalar that can be read is made into what is read. -/
theorem run_construct_scalar {a : Scalar} (reads : Graph.read? s.nodes n = some a) :
    (construct true make n).run s = .ok (.scalar a, s) := by
  obtain ⟨x, kind, text, there, known, content, value⟩ := Graph.exists_of_read? reads
  have node : (nodeAt n).run s = .ok (x, s) := nodeAt_eq_ok.2 ⟨there, rfl⟩
  have text? (fuel : Nat) : (scalarText (fuel + 1) n).run s = .ok (text, s) := by
    rw [scalarText, run_bind_of_ok node, content]
    rfl
  rw [construct, run_bind_of_ok node, known]
  dsimp only
  rw [run_bind_of_ok run_get, run_bind_of_ok (text? _), StateT.run_map, isBlind_scalar, value]
  rfl

/-- A list waits for its items. -/
theorem run_construct_sequence {x : Node} (there : s.nodes[n]? = some x)
    (tag : x.tag = Tag.sequence) :
    (construct true make n).run s = .ok (.list [], { s with waiting := s.waiting ++ [n] }) := by
  rw [construct, run_bind_of_ok (nodeAt_eq_ok.2 ⟨there, rfl⟩), tag]
  rfl

/-- A mapping is made with all its entries. -/
theorem goes_construct_mapping (makes : MakesFrom o late bound make)
    (ready : Ready o late bound s) {x : Node} {es : List (Nat × Nat)} (there : o[n]? = some x)
    (tag : x.tag = Tag.mapping) (content : x.content = .mapping es)
    (behind : ∀ e ∈ es, (bound ≤ e.1 ∧ e.1 < o.size) ∧ bound ≤ e.2 ∧ e.2 < o.size)
    (keys : ∀ e ∈ es, (Graph.read? o e.1).isSome) (differ : HasKeysOnce (es.map (Graph.keyed o))) :
    ∃ t, (construct true make n).run s = .ok (.map (es.map (Graph.keyed o)), t) ∧
      Goes o late s t ∧ ∀ e ∈ es, t.HasMade e.2 := by
  obtain ⟨t, checked, goes⟩ := goes_checkUnique makes x.start [] ready
    (fun e mem => (behind e mem).1) keys differ nofun
  obtain ⟨u, entries, goes', made⟩ := goes_makeEntries makes x.start [] (goes.ready ready)
    behind keys differ
  have before : (nodeAt n).run s = .ok (x, s) := nodeAt_eq_ok.2 ⟨ready.partway.nodes ▸ there, rfl⟩
  have after : (nodeAt n).run t = .ok (x, t) := nodeAt_eq_ok.2 ⟨goes.partway.nodes ▸ there, rfl⟩
  have nodes := goes.partway.nodes
  have mapped : (mapping make n).run t = .ok (es.map (Graph.keyed o), u) := by
    rw [mapping, run_bind_of_ok after, content]
    dsimp only
    rw [run_bind_of_ok run_get, run_bind_of_ok (run_flatten_of_keys _ (nodes ▸ there) content
      (nodes ▸ keys)), run_bind_of_ok run_entriesOf, nodes, Graph.entries_of_content there content]
    exact entries
  refine ⟨u, ?_, goes.trans goes', made⟩
  have unique : (refuseDuplicates make x).run s = .ok ((), t) := by
    rw [refuseDuplicates, content]
    exact checked
  rw [construct, run_bind_of_ok before, tag]
  refine (run_bind_of_ok unique).trans ?_
  rw [StateT.run_map, mapped]
  rfl

/-- What a node is made into, before it is recorded: it is final, or a list that waits. -/
theorem exists_construct (makes : MakesFrom o late (n + 1) make) (ordered : Graph.IsOrderedAt o n)
    (ready : Ready o late (n + 1) s) :
    ∃ m t, (construct true make n).run s = .ok (m, t) ∧
      (Goes o late s t ∧ m = Graph.final o n ∧ (∀ i ∈ m.parts, t.HasMade i) ∨
        Graph.isTagged o Tag.sequence n = true ∧ t = { s with waiting := s.waiting ++ [n] }) := by
  have nodes := ready.partway.nodes
  cases ordered with
  | scalar reads =>
    exact ⟨_, _, run_construct_scalar (nodes ▸ reads),
      .inl ⟨.refl ready.partway, (Graph.final_of_read? reads).symm, nofun⟩⟩
  | sequence there tag content behind =>
    exact ⟨_, _, run_construct_sequence (nodes ▸ there) tag,
      .inr ⟨(Graph.isTagged_of_node there).2 tag, rfl⟩⟩
  | mapping there tag content behind keys differ =>
    obtain ⟨t, run, goes, made⟩ := goes_construct_mapping makes ready there tag content behind keys
      differ
    refine ⟨_, t, run, .inl ⟨goes, (Graph.final_of_mapping there content).symm, fun i mem => ?_⟩⟩
    rw [Made.parts, List.map_map, List.mem_map] at mem
    obtain ⟨e, mem, rfl⟩ := mem
    exact made e mem

/-- A node that is made into something final is recorded. -/
theorem goes_recorded_final {m : Made} (inside : n < o.size) (goes : Goes o late s t)
    (final : m = Graph.final o n) (parts : ∀ i ∈ m.parts, t.HasMade i) :
    Goes o late { s with active := s.active.tail } (t.recorded n m) := by
  have inside : n < t.made.size := goes.partway.size ▸ inside
  have kept {i : Nat} : t.HasMade i → (t.recorded n m).HasMade i := HasMade.set inside rfl
  refine ⟨⟨goes.partway.nodes, ?size, goes.partway.waits, fun i made => ?made⟩, ?active,
    fun i made => kept (goes.made i made), ?pending⟩
  case size => exact Array.size_setIfInBounds.trans goes.partway.size
  case made =>
    by_cases same : i = n
    · subst same
      refine .inr ⟨?_, fun j mem => kept (parts j (final ▸ mem))⟩
      rw [madeOf_set inside rfl, if_pos rfl, final]
    · rw [HasMade, madeOf_set inside rfl, if_neg same] at made
      exact (goes.partway.made i made).imp_right fun done => done.set inside rfl same
  case active => exact congrArg List.tail goes.active
  case pending =>
    exact Nat.le_trans (Nat.add_le_add_right (count_set_le m inside) _) goes.pending_le

/-- A list is recorded, and waits. -/
theorem goes_recorded_waiting {m : Made} (inside : n < o.size) (partway : Partway o late s)
    (new : s.madeOf n = none) (tag : Graph.isTagged o Tag.sequence n = true) :
    Goes o late { s with active := s.active.tail }
      (Loading.recorded { s with waiting := s.waiting ++ [n] } n m) := by
  have inside : n < s.made.size := partway.size ▸ inside
  refine ⟨⟨partway.nodes, ?size, ?waits, fun i made => ?made⟩, rfl,
    fun i => HasMade.set inside rfl, ?pending⟩
  case size => exact Array.size_setIfInBounds.trans partway.size
  case waits =>
    show ∀ i ∈ late ++ (s.waiting ++ [n]), _
    rw [← List.append_assoc, List.forall_mem_append]
    exact ⟨partway.waits, List.forall_mem_singleton.2 tag⟩
  case made =>
    show i ∈ late ++ (s.waiting ++ [n]) ∨ _
    rw [← List.append_assoc, List.mem_append, List.mem_singleton]
    by_cases same : i = n
    · exact .inl (.inr same)
    · have was : s.HasMade i := by
        rwa [HasMade, madeOf_set (s := s) inside rfl, if_neg same] at made
      exact (partway.made i was).imp .inl fun done => done.set inside rfl same
  case pending =>
    have fewer := count_set_of_none m inside new
    show (s.made.setIfInBounds n (some m)).count none + (s.waiting ++ [n]).length ≤
      s.made.count none + s.waiting.length
    rw [List.length_append, List.length_singleton]
    omega

/-- **Making.**  In a graph that is in order every node can be made. -/
theorem makesFrom_make (ordered : Graph.IsOrdered o) (late : List Nat) (fuel : Nat)
    (enough : o.size < fuel + bound) : MakesFrom o late bound (Load.make true fuel) := by
  induction fuel generalizing bound with
  | zero =>
    intro n s behind inside
    omega
  | succ fuel ih =>
    intro n s behind inside ready
    cases new : s.madeOf n with
    | some m => exact ⟨m, s, run_make_of_made true fuel new, .refl ready.partway, new⟩
    | none =>
      have idle : n ∉ s.active := fun mem => absurd (ready.idle n mem) (by omega)
      have makes : MakesFrom o late (n + 1) (Load.make true fuel) := ih (by omega)
      have begun : Ready o late (n + 1) { s with active := n :: s.active } := by
        refine ⟨⟨ready.partway.nodes, ready.partway.size, ready.partway.waits, ?_⟩, ?_⟩
        · exact fun i made =>
            (ready.partway.made i made).imp_right fun done => done.goes rfl fun _ => id
        · exact List.forall_mem_cons.2 ⟨n.lt_succ_self, fun i mem => by
            have := ready.idle i mem
            omega⟩
      obtain ⟨m, t, run, made⟩ := exists_construct makes (ordered n inside) begun
      refine ⟨m, t.recorded n m, ?_, ?_⟩
      · rw [run_make_of_new true fuel new idle, run]
        rfl
      rcases made with ⟨goes, final, parts⟩ | ⟨tag, rfl⟩
      · refine ⟨goes_recorded_final inside goes final parts, ?_⟩
        rw [madeOf_set (goes.partway.size ▸ inside) rfl, if_pos rfl]
      · refine ⟨goes_recorded_waiting inside begun.partway new tag, ?_⟩
        rw [madeOf_set (s := s) (begun.partway.size ▸ inside) rfl, if_pos rfl]

/-! ## Completing lists -/

/-- The items of a list are made one after the other. -/
theorem goes_items (makes : MakesFrom o late bound make) {items : List Nat}
    (ready : Ready o late bound s) (behind : ∀ i ∈ items, bound ≤ i ∧ i < o.size) :
    ∃ t, (items.forM fun item => discard (make item) : Load Unit).run s = .ok ((), t) ∧
      Goes o late s t ∧ ∀ i ∈ items, t.HasMade i := by
  induction items generalizing s with
  | nil => exact ⟨s, rfl, .refl ready.partway, nofun⟩
  | cons i rest ih =>
    rw [List.forall_mem_cons] at behind
    obtain ⟨m, t, run, goes, made⟩ := makes behind.1.1 behind.1.2 ready
    obtain ⟨u, others, goes', all⟩ := ih (goes.ready ready) behind.2
    refine ⟨u, ?_, goes.trans goes', List.forall_mem_cons.2 ⟨goes'.made i ⟨m, made⟩, all⟩⟩
    have first : (discard (make i) : Load Unit).run s = .ok ((), t) := by
      show (Functor.map (fun _ => ()) (make i)).run s = _
      rw [StateT.run_map, run]
      rfl
    exact (run_bind_of_ok first).trans others

/-- A list that waited is completed, and does not wait any more. -/
theorem exists_complete (makes : MakesFrom o [n] 0 make) (ordered : Graph.IsOrdered o)
    (partway : Partway o [n] s) (idle : s.active = []) (inside : n < o.size) :
    ∃ t, (complete make n).run s = .ok ((), t) ∧ Goes o [] s t := by
  obtain ⟨x, items, there, tag, content, behind⟩ :=
    (ordered n inside).exists_items (partway.waits n List.mem_cons_self)
  obtain ⟨t, run, goes, all⟩ := goes_items makes ⟨partway, idle ▸ nofun⟩ fun i mem =>
    ⟨i.zero_le, (behind i mem).2⟩
  have inside : n < t.made.size := goes.partway.size ▸ inside
  refine ⟨{ t with made := t.made.setIfInBounds n (some (.list items)) }, ?run,
    ⟨goes.partway.nodes, ?size, ?waits, fun i made => ?made⟩, goes.active,
    fun i made => HasMade.set inside rfl (goes.made i made), ?pending⟩
  case run =>
    have kind : collectionTag? Tag.sequence = some .sequence := rfl
    rw [complete, run_bind_of_ok (nodeAt_eq_ok.2 ⟨partway.nodes ▸ there, rfl⟩), tag, kind]
    dsimp only
    rw [content]
    exact (run_bind_of_ok run).trans (run_record _)
  case size => exact Array.size_setIfInBounds.trans goes.partway.size
  case waits => exact fun i mem => goes.partway.waits i (List.mem_append_right _ mem)
  case made =>
    by_cases same : i = n
    · subst same
      refine .inr ⟨?_, fun j mem => ?_⟩
      · rw [madeOf_set (s := t) inside rfl, if_pos rfl, Graph.final_of_sequence there content]
      · rw [Graph.final_of_sequence there content] at mem
        exact HasMade.set inside rfl (all j mem)
    · rw [HasMade, madeOf_set (s := t) inside rfl, if_neg same] at made
      rcases goes.partway.made i made with mem | done
      · exact .inl ((List.mem_cons.1 mem).resolve_left same)
      · exact .inr (done.set inside rfl same)
  case pending =>
    exact Nat.le_trans (Nat.add_le_add_right (count_set_le _ inside) _) goes.pending_le

/-- **Completing.**  All lists are completed, and then everything is done. -/
theorem exists_completeAll (makes : ∀ n, MakesFrom o [n] 0 make) (ordered : Graph.IsOrdered o)
    (partway : Partway o [] s) (idle : s.active = []) {fuel : Nat} (enough : s.pending < fuel) :
    ∃ t, (completeAll make fuel).run s = .ok ((), t) ∧ Partway o [] t ∧ t.waiting = [] ∧
      ∀ i, s.HasMade i → t.HasMade i := by
  induction fuel generalizing s with
  | zero => exact absurd enough (Nat.not_lt_zero _)
  | succ fuel ih =>
    cases waiting : s.waiting with
    | nil =>
      refine ⟨s, ?_, partway, waiting, fun _ => id⟩
      rw [completeAll, run_bind_of_ok run_get, waiting]
      rfl
    | cons n rest =>
      have waits : ∀ i ∈ n :: rest, Graph.isTagged o Tag.sequence i = true :=
        waiting ▸ partway.waits
      have popped : Partway o [n] { s with waiting := rest } := by
        refine ⟨partway.nodes, partway.size, waits, fun i made => ?_⟩
        have was := partway.made i made
        rw [waiting] at was
        exact was.imp_right fun done => done.goes rfl fun _ => id
      obtain ⟨t, run, goes⟩ := exists_complete (makes n) ordered popped idle
        (Graph.lt_size_of_isTagged (waits n List.mem_cons_self))
      have fewer : t.pending < fuel := by
        have le := goes.pending_le
        rw [pending, waiting, List.length_cons] at enough
        simp only [pending] at le enough ⊢
        omega
      obtain ⟨u, others, partway', none_, made⟩ := ih goes.partway (goes.active.trans idle) fewer
      refine ⟨u, ?_, partway', none_, fun i was => made i (goes.made i was)⟩
      rw [completeAll, run_bind_of_ok run_get, waiting]
      dsimp only
      rw [run_bind_of_ok (run_modify _), run_bind_of_ok run]
      exact others

end Load

open Load in
/-- **Loading.**  A graph that is in order is loaded, and each node that belongs to the value
is made into what it holds. -/
theorem Graph.load_of_isOrdered {o : Array Node} (ordered : IsOrdered o) {n : Nat}
    (there : n < o.size) : ∃ s : Loading, Graph.load true ⟨o, some n⟩ = .ok ⟨s.made, some n⟩ ∧
      s.made.size = o.size ∧ s.HasMade n ∧ ∀ i, s.HasMade i → Done o s i := by
  have begun : Partway o [] (begun o) := by
    refine ⟨rfl, Array.size_replicate, nofun, fun i made => ?_⟩
    rw [HasMade, madeOf_begun] at made
    obtain ⟨m, made⟩ := made
    cases made
  have makes (late : List Nat) : MakesFrom o late 0 (make true (o.size + 1)) :=
    makesFrom_make ordered late (o.size + 1) (Nat.lt_succ_self _)
  obtain ⟨m, s, run, goes, made⟩ := makes [] n.zero_le there ⟨begun, nofun⟩
  have idle : s.active = [] := goes.active
  have enough : s.pending < o.size + 1 := by
    have le := goes.pending_le
    have start : (Loading.begun o).pending = o.size := by
      rw [pending, Loading.begun, Array.count_replicate_self]
      rfl
    omega
  obtain ⟨t, run', partway, waiting, kept⟩ := exists_completeAll (fun n => makes [n]) ordered
    goes.partway idle enough
  refine ⟨t, ?_, partway.size, kept n ⟨m, made⟩, fun i made => ?_⟩
  · have nodes : (Loading.begun o).nodes = o := rfl
    rw [load_of_root rfl, all, run_bind_of_ok run_get]
    dsimp only
    rw [nodes, run_bind_of_ok run, run_bind_of_ok run_get, goes.partway.nodes, run']
    rfl
  · have mem := partway.made i made
    rw [waiting] at mem
    exact mem.resolve_left List.not_mem_nil

end Yaml
end ApiManual
