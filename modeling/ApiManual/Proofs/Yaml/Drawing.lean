import Mathlib.Algebra.GroupWithZero.Nat
import Mathlib.Algebra.Order.BigOperators.Group.List
import Mathlib.Algebra.Order.Group.Nat
import ApiManual.Proofs.Yaml.Splicing
import ApiManual.Proofs.Yaml.Whole

/-!
# Taking over comes to an end

A mapping may be given entries by another one that is given entries by it, so it is not plain
that taking over ends.  It does, as each step takes one merge key away and none is ever added
(`Graph.mergeCount`): there is always enough fuel, and if it stops, it stops with a complaint
(`Load.ends_flatten`).

At any time the entries of a node are among those that it had at first or was given
(`Graph.Drawn`).
-/

namespace ApiManual
namespace Yaml

/-! ## What a node holds -/

theorem Node.Becomes.scalar_of {x y : Node} (h : x.Becomes y) {text : String}
    (content : y.content = .scalar text) : x.content = .scalar text := by
  have shape := h.shape
  rw [content] at shape
  cases content' : x.content <;> rw [content'] at shape <;> cases shape
  rfl

theorem Node.Becomes.sequence_of {x y : Node} (h : x.Becomes y) {items : List Nat}
    (content : y.content = .sequence items) : x.content = .sequence items := by
  have shape := h.shape
  rw [content] at shape
  cases content' : x.content <;> rw [content'] at shape <;> cases shape
  rfl

theorem Node.Becomes.mapping_of {x y : Node} (h : x.Becomes y) {es : List (Nat × Nat)}
    (content : y.content = .mapping es) : ∃ es', x.content = .mapping es' := by
  have shape := h.shape
  rw [content] at shape
  cases content' : x.content <;> rw [content'] at shape <;> cases shape
  exact ⟨_, rfl⟩

namespace Graph

variable {o a b : Array Node} {n : Nat} {e : Nat × Nat}

/-! ## Where entries come from -/

/-- What a mapping is given is under no merge key. -/
theorem Gives.not_merge (h : Gives o n e) : isTagged o Tag.merge e.1 = false := by
  induction h with
  | own mem => exact (mem_ownEntries.1 mem).2
  | taken _ _ _ _ ih => exact ih

/-- What a mapping is given is an entry of some mapping. -/
theorem Gives.exists_entry (h : Gives o n e) : ∃ m, e ∈ entries o m := by
  induction h with
  | own mem => exact ⟨_, (mem_ownEntries.1 mem).1⟩
  | taken _ _ _ _ ih => exact ih

theorem exists_mapping_of_mem (mem : e ∈ entries o n) :
    ∃ x es, o[n]? = some x ∧ x.content = .mapping es ∧ e ∈ es := by
  rw [entries] at mem
  split at mem
  · rename_i tag start es there
    exact ⟨_, es, there, rfl, mem⟩
  · cases mem

theorem IsWhole.entry (h : IsWhole o) (mem : e ∈ entries o n) : e.1 < o.size ∧ e.2 < o.size := by
  obtain ⟨x, es, there, content, mem⟩ := exists_mapping_of_mem mem
  have number := h n x there
  rw [content] at number
  exact ⟨number _ (Content.mem_numbers_mapping.2 ⟨e, mem, .inl rfl⟩),
    number _ (Content.mem_numbers_mapping.2 ⟨e, mem, .inr rfl⟩)⟩

theorem IsWhole.source (h : IsWhole o) {v m : Nat} (mem : m ∈ sources o v) : m < o.size := by
  rw [sources] at mem
  cases there : o[v]? with
  | none => rw [there] at mem; cases mem
  | some x =>
    rw [there, Option.map_some] at mem
    cases content : x.content with
    | scalar text => rw [content] at mem; cases mem
    | mapping es =>
      rw [content] at mem
      obtain rfl := List.mem_singleton.1 mem
      exact (Array.getElem?_eq_some_iff.1 there).1
    | sequence items =>
      rw [content] at mem
      exact h v x there m (content ▸ mem)

theorem HoldsEntries.former (h : HoldsEntries b n) (later : Later a b) : HoldsEntries a n := by
  obtain ⟨y, es, there, content⟩ := h
  obtain ⟨x, was, becomes⟩ := later.exists_former there
  obtain ⟨es', content⟩ := becomes.mapping_of content
  exact ⟨x, es', was, content⟩

theorem lt_size_of_holds (h : HoldsEntries a n) : n < a.size := by
  obtain ⟨x, es, there, -⟩ := h
  exact (Array.getElem?_eq_some_iff.1 there).1

/-- Where a mapping has got its last entries, the others have kept theirs. -/
theorem entries_named (holds : HoldsEntries a n) (es : List (Nat × Nat)) (i : Nat) :
    entries (withEntries (withNamedSigns a (entries a n)) n es) i =
      if i = n then es else entries a i := by
  split
  · rename_i same
    subst same
    exact entries_withEntries_self (holds.later (later_withNamedSigns _)) es
  · rename_i ne
    rw [entries_withEntries_of_ne ne, entries_withNamedSigns]

/-- A later state of the nodes `o`, in which each entry of a node is one that the node had or was
given. -/
structure Drawn (o a : Array Node) : Prop where
  later : Later o a
  entries {n : Nat} {e : Nat × Nat} : e ∈ Graph.entries a n → e ∈ Graph.entries o n ∨ Gives o n e

namespace Drawn

theorem refl (o : Array Node) : Drawn o o := ⟨.refl o, .inl⟩

/-- An entry under another key is given. -/
theorem gives (h : Drawn o a) (mem : e ∈ Graph.entries a n)
    (own : isTagged a Tag.merge e.1 = false) : Gives o n e :=
  (h.entries mem).elim (fun mem => .own (mem_ownEntries.2 ⟨mem, h.later.merge_eq e.1 ▸ own⟩)) id

/-- An entry under a merge key was there at first. -/
theorem merge (h : Drawn o a) (mem : e ∈ Graph.entries a n)
    (merge : isTagged a Tag.merge e.1 = true) : e ∈ Graph.entries o n := by
  refine (h.entries mem).resolve_right fun given => ?_
  rw [h.later.merge_eq, given.not_merge] at merge
  cases merge

/-- The numbers in an entry are numbers of nodes. -/
theorem lt_size (h : Drawn o a) (whole : IsWhole o) (mem : e ∈ Graph.entries a n) :
    e.1 < o.size ∧ e.2 < o.size := by
  rcases h.entries mem with mem | given
  · exact whole.entry mem
  · obtain ⟨m, mem⟩ := given.exists_entry
    exact whole.entry mem

/-- A mapping that takes over nothing has what it is given. -/
theorem gives_of_plain (h : Drawn o a) (plain : IsPlain a (Graph.entries a n))
    (mem : e ∈ Graph.entries a n) : Gives o n e := h.gives mem (plain e mem)

/-- Other entries of one node are all right if the node had them or was given them. -/
theorem withEntries (h : Drawn o a) (holds : HoldsEntries a n) {es : List (Nat × Nat)}
    (later : Later a (withEntries a n es))
    (from_ : ∀ e ∈ es, e ∈ Graph.entries o n ∨ Gives o n e) : Drawn o (withEntries a n es) where
  later := h.later.trans later
  entries {i e} mem := by
    by_cases same : i = n
    · subst same
      rw [entries_withEntries_self holds] at mem
      exact from_ e mem
    · rw [entries_withEntries_of_ne same] at mem
      exact h.entries mem

end Drawn

/-! ## How many merge keys there are -/

/-- How many entries of a node are under merge keys. -/
def mergesAt (nodes : Array Node) (n : Nat) : Nat :=
  (entries nodes n).countP fun e => isTagged nodes Tag.merge e.1

/-- How many entries of all nodes are under merge keys. -/
def mergeCount (nodes : Array Node) : Nat :=
  ((List.range nodes.size).map (mergesAt nodes)).sum

theorem mergeCount_le (size : b.size = a.size) (le : ∀ i, mergesAt b i ≤ mergesAt a i) :
    mergeCount b ≤ mergeCount a := by
  rw [mergeCount, mergeCount, size]
  exact List.sum_le_sum fun i _ => le i

theorem mergeCount_lt (size : b.size = a.size) (le : ∀ i, mergesAt b i ≤ mergesAt a i)
    (inside : n < a.size) (lt : mergesAt b n < mergesAt a n) : mergeCount b < mergeCount a := by
  rw [mergeCount, mergeCount, size]
  exact List.sum_lt_sum _ _ (fun i _ => le i) ⟨n, List.mem_range.2 inside, lt⟩

/-- A mapping without merge keys takes over nothing. -/
theorem mergesAt_eq_zero (plain : IsPlain a (entries a n)) : mergesAt a n = 0 :=
  List.countP_eq_zero.2 fun e mem => Bool.eq_false_iff.1 (plain e mem)

/-- With one of its merge keys gone, a mapping makes one less. -/
theorem mergeCount_without (holds : HoldsEntries a n) {before after : List (Nat × Nat)} {k v : Nat}
    (split : entries a n = before ++ (k, v) :: after) (merge : isTagged a Tag.merge k = true) :
    mergeCount (withEntries a n (before ++ after)) < mergeCount a := by
  have less : mergesAt (withEntries a n (before ++ after)) n + 1 = mergesAt a n := by
    rw [mergesAt, mergesAt, entries_withEntries_self holds, split]
    simp only [isTagged_withEntries, List.countP_append, List.countP_cons, merge, if_true]
    omega
  have others (i : Nat) (ne : i ≠ n) :
      mergesAt (withEntries a n (before ++ after)) i = mergesAt a i := by
    rw [mergesAt, mergesAt, entries_withEntries_of_ne ne]
    simp only [isTagged_withEntries]
  refine mergeCount_lt Array.size_modify (fun i => ?_) (lt_size_of_holds holds) (by omega)
  by_cases same : i = n
  · subst same
    omega
  · exact Nat.le_of_eq (others i same)

/-- A mapping that takes over nothing any more adds nothing. -/
theorem mergeCount_of_plain (later : Later a b) (plain : IsPlain b (entries b n))
    (still : ∀ i, i ≠ n → entries b i = entries a i) : mergeCount b ≤ mergeCount a := by
  refine mergeCount_le later.size_eq fun i => ?_
  by_cases same : i = n
  · subst same
    rw [mergesAt_eq_zero plain]
    exact Nat.zero_le _
  · rw [mergesAt, mergesAt, still i same]
    simp only [later.merge_eq, le_refl]

end Graph

namespace Load

open Yaml.Graph

/-- How many entries a node holds. -/
def entryCount (x : Node) : Nat :=
  match x.content with
  | .mapping es => es.length
  | _ => 0

theorem countEntries_eq (nodes : Array Node) :
    countEntries nodes = (nodes.toList.map entryCount).sum := by
  have from_ (l : List Node) (n : Nat) : l.foldl (fun n node => match node.content with
      | .mapping entries => n + entries.length
      | _ => n) n = n + (l.map entryCount).sum := by
    induction l generalizing n with
    | nil => rfl
    | cons x rest ih =>
      rw [List.foldl_cons, ih, List.map_cons, List.sum_cons, ← Nat.add_assoc, entryCount]
      congr 1
      cases x.content <;> rfl
  rw [countEntries, ← Array.foldl_toList]
  exact (from_ _ 0).trans (Nat.zero_add _)

/-- There are no more merge keys than entries. -/
theorem mergeCount_le_countEntries (nodes : Array Node) :
    mergeCount nodes ≤ countEntries nodes := by
  have counts : (List.range nodes.size).map (fun i => (entries nodes i).length) =
      nodes.toList.map entryCount := by
    refine List.ext_getElem (by simp) fun i inside _ => ?_
    have inside : i < nodes.size := by simpa using inside
    rw [List.getElem_map, List.getElem_range, List.getElem_map, Array.getElem_toList, entries,
      Array.getElem?_eq_getElem inside, entryCount]
    rcases nodes[i] with ⟨tag, start, content⟩
    cases content <;> rfl
  rw [countEntries_eq, ← counts, mergeCount]
  exact List.sum_le_sum fun i _ => List.countP_le_length

/-! ## Taking over -/

variable {α β : Type} {s : Loading} {n : Nat}

/-- How a step may end: with a problem of some kind, or with a result and a state of which
something is known. -/
inductive Ends (Stop : Problem → Prop) (Q : α → Loading → Prop) :
    Except Problem (α × Loading) → Prop where
  | ok {a : α} {t : Loading} : Q a t → Ends Stop Q (.ok (a, t))
  | error {p : Problem} : Stop p → Ends Stop Q (.error p)

variable {Stop Stop' : Problem → Prop} {Q Q' : α → Loading → Prop} {R : β → Loading → Prop}

theorem Ends.imp {r : Except Problem (α × Loading)} (h : Ends Stop Q r)
    (stop : ∀ p, Stop p → Stop' p) (imp : ∀ a t, r = .ok (a, t) → Q a t → Q' a t) :
    Ends Stop' Q' r := by
  cases h with
  | ok holds => exact .ok (imp _ _ rfl holds)
  | error stops => exact .error (stop _ stops)

theorem Ends.bind {x : Load α} {f : α → Load β} (first : Ends Stop Q (x.run s))
    (next : ∀ a t, x.run s = .ok (a, t) → Q a t → Ends Stop R ((f a).run t)) :
    Ends Stop R ((x >>= f).run s) := by
  rw [StateT.run_bind]
  generalize x.run s = r at first next
  cases first with
  | ok holds => exact next _ _ rfl holds
  | error stops => exact .error stops

theorem Ends.map {x : Load α} {f : α → β} (h : Ends Stop Q (x.run s))
    (imp : ∀ a t, Q a t → R (f a) t) : Ends Stop R ((f <$> x).run s) := by
  rw [StateT.run_map]
  generalize x.run s = r at h
  cases h with
  | ok holds => exact .ok (imp _ _ holds)
  | error stops => exact .error stops

/-- Only a complaint ends the way. -/
def IsComplaint (p : Problem) : Prop := ∃ c, p = .complaint c

theorem ends_complain (c : Complaint) : Ends IsComplaint Q ((complain c : Load α).run s) :=
  .error ⟨c, rfl⟩

/-- What taking over comes to, as far as entries and merge keys go. -/
structure Draws (o : Array Node) (s t : Loading) : Prop where
  nodes : ∃ nodes, t = { s with nodes }
  drawn : Drawn o t.nodes
  count : mergeCount t.nodes ≤ mergeCount s.nodes

theorem Draws.trans {o : Array Node} {s t u : Loading} (h : Draws o s t) (h' : Draws o t u) :
    Draws o s u where
  nodes := by
    obtain ⟨nodes, rfl⟩ := h.nodes
    obtain ⟨nodes', rfl⟩ := h'.nodes
    exact ⟨nodes', rfl⟩
  drawn := h'.drawn
  count := Nat.le_trans h'.count h.count

/-- A step has mappings take over their entries, if there are fewer merge keys than a bound;
`merged` were found already. -/
def TakesOver (o : Array Node) (bound : Nat) (merged : List (Nat × Nat)) (step : Nat → Load Unit) :
    Prop :=
  ∀ {n : Nat} {s : Loading}, Drawn o s.nodes → HoldsEntries o n →
    (∀ e ∈ merged, Gives o n e) → mergeCount s.nodes < bound →
    Ends IsComplaint (fun _ t => Draws o s t ∧ ∀ e ∈ entries t.nodes n, Gives o n e)
      ((step n).run s)

variable {o : Array Node} {fuel : Nat}

/-- A node of the text is there. -/
theorem exists_nodeAt (drawn : Drawn o s.nodes) (inside : n < o.size) :
    ∃ x, s.nodes[n]? = some x ∧ (nodeAt n).run s = .ok (x, s) := by
  have inside : n < s.nodes.size := drawn.later.size_eq ▸ inside
  have there := Array.getElem?_eq_getElem inside
  exact ⟨_, there, nodeAt_eq_ok.2 ⟨there, rfl⟩⟩

/-- Gathering entries ends, and they are entries that the sources are given. -/
theorem ends_gather {step : Nat → Load Unit} (takes : TakesOver o fuel [] step) (place : Mark)
    {ms : List Nat} (inside : ∀ m ∈ ms, m < o.size) (drawn : Drawn o s.nodes)
    (few : mergeCount s.nodes < fuel) :
    Ends IsComplaint (fun more t => Draws o s t ∧ ∀ e ∈ more, ∃ m ∈ ms, Gives o m e)
      ((gather step place ms).run s) := by
  induction ms generalizing s with
  | nil => exact .ok ⟨⟨⟨_, rfl⟩, drawn, Nat.le_refl _⟩, List.forall_mem_nil _⟩
  | cons m rest ih =>
    obtain ⟨x, there, at_⟩ := exists_nodeAt drawn (inside m List.mem_cons_self)
    rw [gather, run_bind_of_ok at_]
    cases content : x.content with
    | scalar text => exact ends_complain _
    | sequence items => exact ends_complain _
    | mapping es =>
      have holds : HoldsEntries o m := .former ⟨x, es, there, content⟩ drawn.later
      refine (takes drawn holds (List.forall_mem_nil _) few).bind fun _ t _ after => ?_
      obtain ⟨draws, given⟩ := after
      rw [run_bind_of_ok run_entriesOf]
      refine (ih (fun m mem => inside m (List.mem_cons_of_mem _ mem)) draws.drawn
        (Nat.lt_of_le_of_lt draws.count few)).bind fun more u _ after => ?_
      obtain ⟨draws', given'⟩ := after
      refine .ok ⟨draws.trans draws', fun e mem => ?_⟩
      rcases List.mem_append.1 mem with mem | mem
      · obtain ⟨m', mem', given⟩ := given' e mem
        exact ⟨m', List.mem_cons_of_mem _ mem', given⟩
      · exact ⟨m, List.mem_cons_self, given e mem⟩

/-- Without merge keys a mapping gets what was found already. -/
theorem draws_finished {merged : List (Nat × Nat)} (drawn : Drawn o s.nodes)
    (holds : HoldsEntries o n) (found : ∀ e ∈ merged, Gives o n e)
    (plain : IsPlain s.nodes (entries s.nodes n)) {t : Loading} (after : t = { s with
      nodes := withEntries (withNamedSigns s.nodes (entries s.nodes n)) n
        (merged ++ entries s.nodes n) }) :
    Draws o s t ∧ ∀ e ∈ entries t.nodes n, Gives o n e := by
  subst after
  have holds := holds.later drawn.later
  have spliced := Spliced.of_plain holds plain
    fun e mem => (drawn.later.merge_eq e.1).trans (found e mem).not_merge
  have given (e : Nat × Nat) (mem : e ∈ merged ++ entries s.nodes n) : Gives o n e :=
    (List.mem_append.1 mem).elim (found e) (drawn.gives_of_plain plain)
  refine ⟨⟨⟨_, rfl⟩, ⟨drawn.later.trans spliced.later, fun {i e} mem => ?_⟩,
    mergeCount_of_plain spliced.later spliced.plain fun i ne => ?_⟩, fun e mem => ?_⟩
  · rw [entries_named holds] at mem
    split at mem
    · rename_i same
      subst same
      exact .inr (given e mem)
    · exact drawn.entries mem
  · rw [entries_named holds, if_neg ne]
  · rw [entries_named holds, if_pos rfl] at mem
    exact given e mem

/-- With one of its merge keys gone, a mapping still has what it had. -/
theorem draws_without (drawn : Drawn o s.nodes) (holds : HoldsEntries s.nodes n)
    {before after : List (Nat × Nat)} {k v : Nat}
    (split : entries s.nodes n = before ++ (k, v) :: after)
    (merge : isTagged s.nodes Tag.merge k = true) :
    Draws o s { s with nodes := withEntries s.nodes n (before ++ after) } where
  nodes := ⟨_, rfl⟩
  drawn := by
    refine drawn.withEntries holds (later_without holds split merge) fun e mem => drawn.entries ?_
    rw [split]
    exact ((List.sublist_cons_self (k, v) after).append_left before).subset mem
  count := Nat.le_of_lt (mergeCount_without holds split merge)

/-- **Taking over.**  With more fuel than there are merge keys, only a complaint ends the way. -/
theorem ends_flatten (whole : IsWhole o) (fuel : Nat) (merged : List (Nat × Nat)) :
    TakesOver o fuel merged (flatten fuel merged) := by
  induction fuel generalizing merged with
  | zero => exact fun _ _ _ none => absurd none (Nat.not_lt_zero _)
  | succ fuel ih =>
    intro n s drawn holds found few
    rw [flatten, run_bind_of_ok run_entriesOf, run_bind_of_ok (run_takeMerge _)]
    cases merge? : firstMerge? s.nodes (entries s.nodes n) with
    | none =>
      dsimp only
      rw [run_bind_of_ok (run_nameEqualsSigns _), run_setEntries]
      exact .ok (draws_finished drawn holds found (firstMerge?_eq_none merge?) rfl)
    | some r =>
      obtain ⟨v, rest⟩ := r
      obtain ⟨before, k, after, split, rfl, merge⟩ := firstMerge?_eq_some merge?
      have mem : (k, v) ∈ entries s.nodes n := by
        rw [split]
        exact List.mem_append_right _ List.mem_cons_self
      have inside := (drawn.lt_size whole mem).2
      have mem : (k, v) ∈ entries o n := drawn.merge mem merge
      have merge' : isTagged o Tag.merge k = true := drawn.later.merge_eq k ▸ merge
      -- One merge key is gone, so there is fuel enough for the sources and for the rest.
      have here := holds.later drawn.later
      have without := draws_without drawn here split merge
      have few : mergeCount (withEntries s.nodes n (before ++ after)) < fuel :=
        Nat.lt_of_lt_of_le (mergeCount_without here split merge) (Nat.le_of_lt_succ few)
      dsimp only
      rw [run_bind_of_ok (run_setEntries _)]
      generalize hs : { s with nodes := withEntries s.nodes n (before ++ after) } = s' at without
      have few : mergeCount s'.nodes < fuel := hs ▸ few
      obtain ⟨mapping, -, at_⟩ := exists_nodeAt without.drawn (lt_size_of_holds holds)
      rw [run_bind_of_ok at_]
      obtain ⟨source, there, at_⟩ := exists_nodeAt without.drawn inside
      rw [run_bind_of_ok at_]
      have finish {more : List (Nat × Nat)} {t : Loading} (draws : Draws o s' t)
          (given : ∀ e ∈ more, ∃ m ∈ sources o v, Gives o m e) :
          Ends IsComplaint (fun _ t => Draws o s t ∧ ∀ e ∈ entries t.nodes n, Gives o n e)
            ((flatten fuel (merged ++ more) n).run t) := by
        have found : ∀ e ∈ merged ++ more, Gives o n e := by
          refine List.forall_mem_append.2 ⟨found, fun e mem' => ?_⟩
          obtain ⟨m, source, given⟩ := given e mem'
          exact .taken mem merge' source given
        refine (ih _ draws.drawn holds found (Nat.lt_of_le_of_lt draws.count few)).imp (fun _ => id)
          fun _ _ _ after => ⟨(without.trans draws).trans after.1, after.2⟩
      have sources_eq : sources o v = sources s'.nodes v := (without.drawn.later.sources_eq v).symm
      cases content : source.content with
      | mapping es =>
        have holds' : HoldsEntries o v := .former ⟨source, es, there, content⟩ without.drawn.later
        refine (ih [] without.drawn holds' (List.forall_mem_nil _) few).bind fun _ t _ after => ?_
        rw [run_bind_of_ok run_entriesOf]
        refine finish after.1 fun e mem => ⟨v, ?_, after.2 e mem⟩
        rw [sources_eq, sources, there, Option.map_some, content]
        exact List.mem_singleton.2 rfl
      | sequence items =>
        have items_eq : sources o v = items := by
          rw [sources_eq, sources, there, Option.map_some, content]
        refine (ends_gather (ih []) _ (fun m mem => whole.source (items_eq ▸ mem)) without.drawn
          few).bind fun more t _ after => ?_
        exact finish after.1 (items_eq ▸ after.2)
      | scalar text => exact ends_complain _

end Load
end Yaml
end ApiManual
