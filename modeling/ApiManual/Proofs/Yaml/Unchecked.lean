import Mathlib.Data.List.Perm.Subperm
import ApiManual.Proofs.Yaml.SideBySide

/-!
# Without a look at the keys

Looking for repeated keys must not change what a text comes to when no mapping has any.  Here
this is proved for texts with clear keys: such a text comes to the same with and without the
look, whether it is loaded or refused, and whatever it is refused for.  The only exception is a
mapping that overlaps others: when it is made late, it is looked at with the entries that it
takes over, and may be refused for a key that it has not repeated (`load_eq_unchecked`,
`refuses_overlapping`).

While the keys of a mapping are looked at, one way is ahead of the other by these keys; both
are level again when the mapping has been made (`Abreast.mappingTag`).
-/

namespace ApiManual
namespace Yaml

open Yaml.Graph Loading

/-! ## Keys that are made early -/

namespace Load

variable {o : Array Node} {s s' t : Loading} {k : Nat} {a : Scalar}

theorem run_construct_of_read (unique : Bool) (make : Nat → Load Made) {x : Node}
    {kind : ScalarTag} {text : String} (there : s.nodes[k]? = some x)
    (tag : scalarTag? x.tag = some kind) (content : x.content = .scalar text)
    (read : readScalar kind x text = .ok a) :
    (construct unique make k).run s = .ok (.scalar a, s) := by
  have at_ : (nodeAt k).run s = .ok (x, s) := nodeAt_eq_ok.2 ⟨there, rfl⟩
  rw [construct, run_bind_of_ok at_, tag]
  dsimp only
  rw [run_bind_of_ok run_get, scalarText, bind_assoc, run_bind_of_ok at_, content]
  dsimp only
  rw [run_bind_of_ok (run_pure text), StateT.run_map, isBlind_scalar, read]
  rfl

/-- Making a node that can be read. -/
theorem run_make_of_read (unique : Bool) (fuel : Nat) (from_ : From o s)
    (reads : read? o k = some a) (idle : k ∉ s.active) :
    ∃ s', (make unique (fuel + 1) k).run s = .ok (.scalar a, s') ∧
      (s' = s ∨ s.madeOf k = none ∧
        s' = { s with made := s.made.setIfInBounds k (some (.scalar a)) }) := by
  obtain ⟨x, was, reads⟩ := Option.bind_eq_some_iff.1 reads
  cases new : s.madeOf k with
  | some m =>
    rw [run_make_of_made unique fuel new, from_.scalars was reads new]
    exact ⟨s, rfl, .inl rfl⟩
  | none =>
    obtain ⟨y, there, becomes⟩ := from_.later.exists_node was
    obtain ⟨rfl, kind, text, tag, content, read⟩ := Node.scalar?_eq_some reads becomes
    have constructed : (construct unique (make unique fuel) k).run
        { s with active := k :: s.active } = .ok (.scalar a, { s with active := k :: s.active }) :=
      run_construct_of_read unique _ there tag content read
    rw [run_make_of_new unique fuel new idle, constructed]
    exact ⟨_, rfl, .inr ⟨rfl, rfl⟩⟩

end Load

namespace Loading

variable {o : Array Node} {active : List Nat} {early : Nat → Prop} {s s' t t' : Loading} {k : Nat}
  {a : Scalar}

theorem From.inside (h : From o s) (reads : read? o k = some a) : k < s.made.size := by
  obtain ⟨x, there, -⟩ := Option.bind_eq_some_iff.1 reads
  rw [h.size]
  exact (Array.getElem?_eq_some_iff.1 there).1

/-- A key is made in the first way only. -/
theorem Abreast.early_key (h : Abreast o active early s t) (is_early : early k)
    (reads : read? o k = some a) (new : s.madeOf k = none)
    (from_ : From o { s with made := s.made.setIfInBounds k (some (.scalar a)) }) :
    Abreast o active early { s with made := s.made.setIfInBounds k (some (.scalar a)) } t := by
  have made {i : Nat} := madeOf_record (m := .scalar a) (i := i) (h.left.from_.inside reads)
  refine ⟨⟨from_, h.left.active_eq, h.left.origin, ?touched, h.left.queue⟩, h.right, h.nodes,
    h.active_eq, h.waiting, ?made⟩
  case touched =>
    intro i tag change
    refine (h.left.touched tag change).imp_right fun rest => rest.imp_left fun ⟨m, before⟩ => ?_
    by_cases same : i = k
    · exact ⟨_, made.trans (if_pos same)⟩
    · exact ⟨m, (made.trans (if_neg same)).trans before⟩
  case made =>
    intro i
    rw [made]
    by_cases same : i = k
    · subst same
      rw [if_pos rfl]
      rcases h.made i with none | ⟨-, none, -⟩
      · exact .inr ⟨is_early, none.trans new, a, reads, rfl⟩
      · exact .inr ⟨is_early, none, a, reads, rfl⟩
    · rw [if_neg same]
      exact h.made i

/-- A key that was made early is made in the second way, too. -/
theorem Abreast.late_key (h : Abreast o active early s t) (reads : read? o k = some a)
    (made_early : s.madeOf k = some (.scalar a))
    (from_ : From o { t with made := t.made.setIfInBounds k (some (.scalar a)) }) :
    Abreast o active early s { t with made := t.made.setIfInBounds k (some (.scalar a)) } := by
  have made {i : Nat} := madeOf_record (m := .scalar a) (i := i) (h.right.inside reads)
  refine ⟨h.left, from_, h.nodes, h.active_eq, h.waiting, fun i => ?_⟩
  rw [made]
  by_cases same : i = k
  · subst same
    exact .inl ((if_pos rfl).trans made_early.symm)
  · rw [if_neg same]
    exact h.made i

/-- The keys among some entries are different from each other and from some others. -/
def Unrepeated (o : Array Node) (seen : List Scalar) (own : List (Nat × Nat)) : Prop :=
  (own.Pairwise fun e f => ∀ a b, read? o e.1 = some a → read? o f.1 = some b →
    a.sameKey b = false) ∧
  ∀ e ∈ own, ∀ a, read? o e.1 = some a → ∀ b ∈ seen, b.sameKey a = false

theorem Unrepeated.tail {seen : List Scalar} {e : Nat × Nat} {own : List (Nat × Nat)}
    (h : Unrepeated o seen (e :: own)) (reads : read? o e.1 = some a) :
    Unrepeated o (a :: seen) own := by
  obtain ⟨apart, others⟩ := h
  obtain ⟨first, apart⟩ := List.pairwise_cons.1 apart
  refine ⟨apart, fun f mem b reads' => List.forall_mem_cons.2 ⟨first f mem a b reads reads', ?_⟩⟩
  exact others f (List.mem_cons_of_mem _ mem) b reads'

/-- Looking at keys that can be read makes them, or finds one that is repeated. -/
theorem Abreast.checkUnique (fuel : Nat) {place : Mark} {seen : List Scalar}
    {es : List (Nat × Nat)} (h : Abreast o active early s t)
    (busy : ∀ i ∈ active, isTagged o Tag.mapping i = true)
    (keys : ∀ e ∈ es.filter fun e => !isTagged s.nodes Tag.merge e.1,
      early e.1 ∧ ∃ a, read? o e.1 = some a) :
    (∃ s', (Load.checkUnique (Load.make true (fuel + 1)) place seen es).run s = .ok ((), s') ∧
      s'.nodes = s.nodes ∧ Abreast o active early s' t) ∨
    (∃ key place', (Load.checkUnique (Load.make true (fuel + 1)) place seen es).run s =
      .error (.repeatedKey key place place') ∧
      ¬ Unrepeated o seen (es.filter fun e => !isTagged s.nodes Tag.merge e.1)) := by
  induction es generalizing s seen with
  | nil => exact .inl ⟨s, rfl, rfl, h⟩
  | cons e rest ih =>
    rw [Load.checkUnique, Load.run_bind_of_ok (Load.run_hasTag Tag.merge)]
    by_cases merge : isTagged s.nodes Tag.merge e.1 = true
    · rw [List.filter_cons_of_neg (by simp [merge])] at keys ⊢
      rw [if_pos merge]
      exact ih h keys
    rw [List.filter_cons_of_pos (by simp [merge])] at keys ⊢
    obtain ⟨is_early, a, reads⟩ := keys e List.mem_cons_self
    have idle : e.1 ∉ s.active := by
      intro mem
      rw [h.left.active_eq] at mem
      have tag := busy _ mem
      rw [isTagged_of_read? reads] at tag
      cases tag
    obtain ⟨s', run, after⟩ := Load.run_make_of_read true fuel h.left.from_ reads idle
    have from_ := (Load.makes_make true o _ h.left.from_ run).1.from_
    have h' : s'.nodes = s.nodes ∧ Abreast o active early s' t := by
      rcases after with rfl | ⟨new, rfl⟩
      · exact ⟨rfl, h⟩
      · exact ⟨rfl, h.early_key is_early reads new from_⟩
    obtain ⟨nodes, h'⟩ := h'
    rw [if_neg merge, Load.run_bind_of_ok run]
    dsimp only
    split
    · rename_i found
      obtain ⟨b, mem, same⟩ := List.any_eq_true.1 found
      obtain ⟨x, was, -⟩ := Option.bind_eq_some_iff.1 reads
      obtain ⟨y, there, -⟩ := h'.left.from_.later.exists_node was
      refine .inr ⟨a, y.start, ?_, fun distinct => ?_⟩
      · rw [Load.run_bind_of_ok (Load.nodeAt_eq_ok.2 ⟨there, rfl⟩)]
        rfl
      · rw [distinct.2 e List.mem_cons_self a reads b mem] at same
        cases same
    · have keys' : ∀ f ∈ rest.filter fun f => !isTagged s'.nodes Tag.merge f.1,
          early f.1 ∧ ∃ a, read? o f.1 = some a := by
        rw [nodes]
        exact fun f mem => keys f (List.mem_cons_of_mem _ mem)
      rcases ih h' keys' with ⟨t', run', nodes', h''⟩ | ⟨key, place', run', distinct⟩
      · exact .inl ⟨t', run', nodes'.trans nodes, h''⟩
      · rw [nodes] at distinct
        exact .inr ⟨key, place', run', fun distinct' => distinct (distinct'.tail reads)⟩

theorem unrepeated_of_not_repeatsKey {n : Nat} (h : ¬ RepeatsKey o n) :
    Unrepeated o [] (ownEntries o n) := by
  refine ⟨List.pairwise_iff_forall_sublist.2 fun {e f} sub a b first second => ?_, nofun⟩
  exact Bool.eq_false_iff.2 fun same => h ⟨e, f, a, b, sub, first, second, same⟩

theorem Abreast.mono {early' : Nat → Prop} (h : Abreast o active early s t)
    (more : ∀ i, early i → early' i) : Abreast o active early' s t :=
  ⟨h.left, h.right, h.nodes, h.active_eq, h.waiting,
    fun i => (h.made i).imp_right fun ahead => ahead.imp_left (more i)⟩

/-- What has been made in the second way as well is not made early any more. -/
theorem Parallel.settle {α : Type} {early' : Nat → Prop} {r r' : Except Problem (α × Loading)}
    (h : Parallel o active early' r r')
    (made : ∀ a t, r' = .ok (a, t) → ∀ i, early' i → early i ∨ t.HasMade i) :
    Parallel o active early r r' := by
  cases h with
  | @ok a s t abreast =>
    refine .ok ⟨abreast.left, abreast.right, abreast.nodes, abreast.active_eq, abreast.waiting,
      fun i => (abreast.made i).imp_right fun ⟨ahead, absent, reads⟩ => ⟨?_, absent, reads⟩⟩
    refine (made a t rfl i ahead).resolve_right fun ⟨m, made⟩ => ?_
    rw [absent] at made
    cases made
  | error p => exact .error p
  | refused there tag overlaps => exact .refused there tag overlaps

theorem Parallel.map {α β : Type} {x y : Load α} (f : α → β)
    (h : Parallel o active early (x.run s) (y.run t)) :
    Parallel o active early ((f <$> x).run s) ((f <$> y).run t) := by
  rw [StateT.run_map, StateT.run_map]
  generalize x.run s = r at h
  generalize y.run t = r' at h
  cases h with
  | ok abreast => exact .ok abreast
  | error p => exact .error p
  | refused there tag overlaps => exact .refused there tag overlaps

/-- A mapping is made, after a look at its keys in the first way. -/
theorem Abreast.mappingTag (clear : IsClear o) {fuel n : Nat}
    (h : Abreast o (n :: active) early s t)
    (busy : ∀ i ∈ n :: active, isTagged o Tag.mapping i = true)
    (fresh : entries s.nodes n ≠ entries o n → Overlaps o n)
    (makes : ∀ early k, InStep o (n :: active) early (Load.make true (fuel + 1) k)
      (Load.make false (fuel + 1) k))
    {node : Node} (there : s.nodes[n]? = some node) :
    Parallel o (n :: active) early
      ((Load.refuseDuplicates (Load.make true (fuel + 1)) node >>= fun _ =>
        Made.map <$> Load.mapping (Load.make true (fuel + 1)) n).run s)
      ((Made.map <$> Load.mapping (Load.make false (fuel + 1)) n).run t) := by
  obtain ⟨node', es, there', content⟩ := (clear.holds (busy n List.mem_cons_self)).later
    h.left.from_.later
  rw [there] at there'
  cases there'
  have own_eq : (es.filter fun e => !isTagged s.nodes Tag.merge e.1) = ownEntries s.nodes n := by
    rw [ownEntries, entries_of_content there content]
  let early' (i : Nat) : Prop := early i ∨ ∃ e ∈ ownEntries s.nodes n, e.1 = i
  have keys : ∀ e ∈ es.filter fun e => !isTagged s.nodes Tag.merge e.1,
      early' e.1 ∧ ∃ a, read? o e.1 = some a := by
    intro e mem
    rw [own_eq] at mem
    refine ⟨.inr ⟨e, mem, rfl⟩, ?_⟩
    obtain ⟨mem, merge⟩ := mem_ownEntries.1 mem
    obtain ⟨j, mem⟩ := h.left.origin mem
    exact clear.key (mem_ownEntries.2 ⟨mem, h.left.from_.later.merge_eq e.1 ▸ merge⟩)
  have looked := @Abreast.checkUnique o (n :: active) early' s t fuel node.start [] es
    (h.mono fun i => .inl) busy keys
  rw [Load.refuseDuplicates, content]
  dsimp only
  rcases looked with ⟨s', run, nodes, h'⟩ | ⟨key, place', run, distinct⟩
  · rw [Load.run_bind_of_ok run]
    refine (((InStep.mapping (makes early') (.inl List.mem_cons_self)).parallel h').map _).settle ?_
    rintro _ t' ended i (ahead | ⟨e, mem, rfl⟩)
    · exact .inl ahead
    -- The keys that were looked at are keys of the mapping that has been made.
    rw [StateT.run_map] at ended
    cases made : (Load.mapping (Load.make false (fuel + 1)) n).run t with
    | error p => rw [made] at ended; cases ended
    | ok r =>
      rw [made] at ended
      cases ended
      obtain ⟨advances, filled, -⟩ :=
        Load.advances_of_mapping (Load.makes_make false o _) h.right made
      have mem : e ∈ ownEntries r.2.nodes n :=
        (advances.later.own n).subset (h.nodes ▸ mem)
      exact .inr ((filled.key (mem_ownEntries.1 mem).1).imp' _ fun _ made => made)
  · rw [Load.run_bind_of_error run]
    obtain ⟨x, was, becomes⟩ := h.left.from_.later.exists_former there
    have tag := busy n List.mem_cons_self
    have overlaps : Overlaps o n := by
      refine fresh fun same => distinct ?_
      have own_same : ownEntries s.nodes n = ownEntries o n := by
        simp only [ownEntries, same, h.left.from_.later.merge_eq]
      rw [own_eq, own_same]
      exact unrepeated_of_not_repeatsKey (clear.unrepeated tag)
    rw [becomes.start]
    exact .refused was ((isTagged_of_node was).1 tag) overlaps

/-- The nodes that are being made, and how many may be made inside of each other yet. -/
structure Room (o : Array Node) (fuel : Nat) (active : List Nat) : Prop where
  nodup : active.Nodup
  busy : ∀ i ∈ active, isTagged o Tag.mapping i = true
  fuel_eq : fuel + active.length = o.size + 1

theorem Abreast.construct (clear : IsClear o) {fuel n : Nat}
    (h : Abreast o (n :: active) early s t) (busy : ∀ i ∈ active, isTagged o Tag.mapping i = true)
    (fresh : isTagged o Tag.mapping n = true → entries s.nodes n ≠ entries o n → Overlaps o n)
    (makes : isTagged o Tag.mapping n = true → fuel ≠ 0 ∧ ∀ early k,
      InStep o (n :: active) early (Load.make true fuel k) (Load.make false fuel k)) :
    Parallel o (n :: active) early ((Load.construct true (Load.make true fuel) n).run s)
      ((Load.construct false (Load.make false fuel) n).run t) := by
  rw [Load.construct, Load.construct]
  refine ((InStep.nodeAt n).parallel h).bind fun node s' t' left _ h => ?_
  obtain ⟨there, rfl⟩ := Load.nodeAt_eq_ok.1 left
  cases Load.scalarTag? node.tag with
  | some kind =>
    dsimp only
    rw [Load.run_bind_of_ok Load.run_get, Load.run_bind_of_ok Load.run_get, h.nodes]
    refine ((InStep.scalarText _ n).parallel h).bind fun text s' t' _ _ h => ?_
    exact ((InStep.scalar kind node text).parallel h).map _
  | none =>
    cases collected : Load.collectionTag? node.tag with
    | some kind =>
      have collection := (Load.isCollection_iff h.left.from_ there).2 ⟨kind, collected⟩
      refine .ok ⟨⟨h.left.from_.congr rfl rfl, h.left.active_eq, h.left.origin, h.left.touched, ?_⟩,
        h.right.congr rfl rfl, h.nodes, h.active_eq, congrArg (· ++ [n]) h.waiting, h.made⟩
      intro i mem
      rcases List.mem_append.1 mem with mem | mem
      · exact h.left.queue mem
      · rw [List.mem_singleton.1 mem]
        exact collection
    | none =>
      dsimp only
      split
      · rename_i tag
        have tagged := (Load.tag_iff h.left.from_ there (by decide) (by decide)).2 tag
        obtain ⟨some_fuel, makes⟩ := makes tagged
        obtain ⟨fuel, rfl⟩ := Nat.exists_eq_succ_of_ne_zero some_fuel
        exact h.mappingTag clear (List.forall_mem_cons.2 ⟨tagged, busy⟩) (fresh tagged) makes there
      · exact .error _

/-- A node has been made in both ways, and is no longer being made. -/
theorem Abreast.recorded {n : Nat} {m : Made} (h : Abreast o (n :: active) early s t)
    (left : From o (s.recorded n m)) (right : From o (t.recorded n m))
    (made : (s.recorded n m).madeOf n = some m) (made' : (t.recorded n m).madeOf n = some m) :
    Abreast o active early (s.recorded n m) (t.recorded n m) := by
  have idle : (s.recorded n m).active = active := by
    rw [Loading.recorded, h.left.active_eq]
    rfl
  have level : (t.recorded n m).active = (s.recorded n m).active := congrArg List.tail h.active_eq
  refine ⟨⟨left, idle, h.left.origin, ?touched, h.left.queue⟩, right, h.nodes, level, h.waiting,
    ?made⟩
  case touched =>
    intro i tag change
    rcases h.left.touched tag change with overlaps | ⟨m', made⟩ | mem
    · exact .inl overlaps
    · by_cases same : i = n
      · subst same
        exact .inr (.inl ⟨m, by assumption⟩)
      · exact .inr (.inl ⟨m', (madeOf_recorded same).trans made⟩)
    · rcases List.mem_cons.1 mem with rfl | mem
      · exact .inr (.inl ⟨m, made⟩)
      · exact .inr (.inr mem)
  case made =>
    intro i
    by_cases same : i = n
    · subst same
      exact .inl (made'.trans made.symm)
    · rw [madeOf_recorded same, madeOf_recorded same]
      exact h.made i

theorem Room.lt_size {fuel n : Nat} (h : Room o fuel active) (mem : n ∈ active) : n < o.size := by
  have tag := h.busy n mem
  rw [isTagged, decide_eq_true_eq, Option.map_eq_some_iff] at tag
  obtain ⟨x, there, -⟩ := tag
  exact (Array.getElem?_eq_some_iff.1 there).1

/-- There is room for as many nodes as there are. -/
theorem Room.cons {fuel n : Nat} (h : Room o (fuel + 1) active)
    (tag : isTagged o Tag.mapping n = true) (idle : n ∉ active) :
    Room o fuel (n :: active) ∧ fuel ≠ 0 := by
  have room : Room o fuel (n :: active) := by
    refine ⟨List.nodup_cons.2 ⟨idle, h.nodup⟩, List.forall_mem_cons.2 ⟨tag, h.busy⟩, ?_⟩
    rw [List.length_cons]
    have := h.fuel_eq
    omega
  refine ⟨room, ?_⟩
  have few : (n :: active).length ≤ o.size := by
    have sub : (n :: active) ⊆ List.range o.size :=
      fun i mem => List.mem_range.2 (room.lt_size mem)
    have := (List.subperm_of_subset room.nodup sub).length_le
    rwa [List.length_range] at this
  have := room.fuel_eq
  omega

theorem Abreast.push {n : Nat} (h : Abreast o active early s t) :
    Abreast o (n :: active) early { s with active := n :: s.active }
      { t with active := n :: t.active } where
  left := {
    from_ := h.left.from_.congr rfl rfl
    active_eq := congrArg (n :: ·) h.left.active_eq
    origin := h.left.origin
    touched := fun tag change => (h.left.touched tag change).imp_right fun rest =>
      rest.imp_right fun mem => List.mem_cons_of_mem n mem
    queue := h.left.queue }
  right := h.right.congr rfl rfl
  nodes := h.nodes
  active_eq := congrArg (n :: ·) h.active_eq
  waiting := h.waiting
  made := h.made

/-- A node that is new in both ways is made in both. -/
theorem Abreast.make_new (clear : IsClear o) {fuel n : Nat} (room : Room o (fuel + 1) active)
    (makes : isTagged o Tag.mapping n = true → n ∉ active → ∀ early k,
      InStep o (n :: active) early (Load.make true fuel k) (Load.make false fuel k))
    (h : Abreast o active early s t) (new : s.madeOf n = none) (new' : t.madeOf n = none) :
    Parallel o active early ((Load.make true (fuel + 1) n).run s)
      ((Load.make false (fuel + 1) n).run t) := by
  have active_eq' : t.active = active := h.active_eq.trans h.left.active_eq
  by_cases mem : n ∈ active
  · rw [Load.run_make_of_active true fuel new (h.left.active_eq ▸ mem),
      Load.run_make_of_active false fuel new' (active_eq' ▸ mem)]
    exact (InStep.bind (.nodeAt n) fun _ => .complain _).parallel h
  have left := Load.run_make_of_new true fuel new (h.left.active_eq ▸ mem)
  have right := Load.run_make_of_new false fuel new' (active_eq' ▸ mem)
  have inside := @Abreast.construct o active early _ _ clear fuel n h.push room.busy
    (fun tag change => by
      rcases h.left.touched tag change with overlaps | ⟨m, made⟩ | active
      · exact overlaps
      · rw [new] at made
        cases made
      · exact absurd active mem)
    (fun tag => ⟨(room.cons tag mem).2, makes tag mem⟩)
  rw [left, right]
  generalize (Load.construct true (Load.make true fuel) n).run
    { s with active := n :: s.active } = r at inside left
  generalize (Load.construct false (Load.make false fuel) n).run
    { t with active := n :: t.active } = r' at inside right
  cases inside with
  | ok abreast =>
    obtain ⟨advances, made⟩ := Load.makes_make true o _ h.left.from_ left
    obtain ⟨advances', made'⟩ := Load.makes_make false o _ h.right right
    exact .ok (abreast.recorded advances.from_ advances'.from_ made made')
  | error p => exact .error p
  | refused there tag overlaps => exact .refused there tag overlaps

/-- **Side by side.**  A node is made in both ways alike. -/
theorem inStep_make (clear : IsClear o) (fuel : Nat) (room : Room o fuel active) (n : Nat) :
    InStep o active early (Load.make true fuel n) (Load.make false fuel n) := by
  induction fuel generalizing active early n with
  | zero => exact .breakDown _
  | succ fuel ih =>
    refine ⟨fun {s t} h => ?_⟩
    rcases h.made n with same | ⟨is_early, new', a, reads, made⟩
    · cases made : s.madeOf n with
      | some m =>
        rw [Load.run_make_of_made true fuel made,
          Load.run_make_of_made false fuel (same.trans made)]
        exact .ok h
      | none =>
        exact h.make_new clear room (fun tag idle _ k => ih (room.cons tag idle).1 k) made
          (same.trans made)
    · have idle : n ∉ t.active := by
        rw [h.active_eq, h.left.active_eq]
        intro mem
        have tag := room.busy n mem
        rw [isTagged_of_read? reads] at tag
        cases tag
      obtain ⟨t', run, after⟩ := Load.run_make_of_read false fuel h.right reads idle
      have from_ := (Load.makes_make false o _ h.right run).1.from_
      rw [Load.run_make_of_made true fuel made, run]
      rcases after with rfl | ⟨-, rfl⟩
      · exact .ok h
      · exact .ok (h.late_key reads made from_)

/-! ## Loading -/

theorem inStep_all (clear : IsClear o) {n : Nat} {s t : Loading} (h : Abreast o [] early s t) :
    Parallel o [] early ((Load.all true n).run s) ((Load.all false n).run t) := by
  have size : s.nodes.size = o.size := h.left.from_.later.size_eq
  have make (k : Nat) : InStep o [] early (Load.make true (s.nodes.size + 1) k)
      (Load.make false (s.nodes.size + 1) k) :=
    inStep_make clear _ ⟨List.nodup_nil, List.forall_mem_nil _, by rw [size]; rfl⟩ k
  rw [Load.all, Load.all, Load.run_bind_of_ok Load.run_get, Load.run_bind_of_ok Load.run_get,
    h.nodes]
  refine ((make n).parallel h).bind fun _ s' t' _ _ h => ?_
  rw [Load.run_bind_of_ok Load.run_get, Load.run_bind_of_ok Load.run_get, h.nodes]
  exact (InStep.completeAll make _).parallel h

/-- Without anything early, the same has been made in both ways. -/
theorem Abreast.made_eq (h : Abreast o active (fun _ => False) s t) : s.made = t.made := by
  have size : s.made.size = t.made.size := h.left.from_.size.trans h.right.size.symm
  refine Array.ext size fun i lt lt' => ?_
  have same : t.madeOf i = s.madeOf i := (h.made i).resolve_right fun ahead => ahead.1
  rw [madeOf, madeOf, Array.getElem?_eq_getElem lt, Array.getElem?_eq_getElem lt'] at same
  exact same.symm

end Loading

/-- **Loading with and without a look at the keys.**  A text with clear keys comes to the same
in both ways, or the look refuses a key in a mapping that overlaps others. -/
theorem load_eq_unchecked {cs : List Char} {g : Graph} (graph : Graph.ofChars cs = .ok g)
    (clear : IsClear g.nodes) :
    load cs = g.load false ∨ ∃ n x key place, g.nodes[n]? = some x ∧ x.tag = Tag.mapping ∧
      Overlaps g.nodes n ∧ load cs = .error (.repeatedKey key x.start place) := by
  have checked : load cs = g.load true := by
    rw [load, graph]
    rfl
  rw [checked]
  cases root : g.root with
  | none =>
    rw [Graph.load, Graph.load, root]
    exact .inl rfl
  | some n =>
    have unmade {i : Nat} {m : Made} : (begun g.nodes).madeOf i ≠ some m := by
      rw [madeOf_begun]
      rintro ⟨⟩
    have start : From g.nodes (begun g.nodes) := ⟨.refl _, Array.size_replicate ..,
      fun made => absurd made unmade, fun _ _ made => absurd made unmade,
      fun made => absurd made unmade⟩
    have level : Abreast g.nodes [] (fun _ => False) (begun g.nodes) (begun g.nodes) :=
      ⟨⟨start, rfl, fun mem => ⟨_, mem⟩, fun _ change => absurd rfl change,
        fun mem => absurd mem List.not_mem_nil⟩, start, rfl, rfl, rfl, fun _ => .inl rfl⟩
    have parallel := inStep_all (n := n) clear level
    rw [load_of_root root, load_of_root root]
    generalize (Load.all true n).run (begun g.nodes) = r at parallel
    generalize (Load.all false n).run (begun g.nodes) = r' at parallel
    cases parallel with
    | ok abreast =>
      refine .inl ?_
      rw [Except.map, Except.map, abreast.made_eq]
    | error p => exact .inl rfl
    | refused there tag overlaps => exact .inr ⟨_, _, _, _, there, tag, overlaps, rfl⟩

/-! ## Telling clear keys -/

namespace Graph

/-- Whether two nodes that can be read are different keys. -/
def keysDiffer (nodes : Array Node) (k l : Nat) : Bool :=
  match read? nodes k, read? nodes l with
  | some a, some b => !a.sameKey b
  | _, _ => true

/-- Whether the keys of one node are clear. -/
def isClearAt (nodes : Array Node) (n : Nat) : Bool :=
  (!isTagged nodes Tag.mapping n || (nodes[n]?.map Node.kind) = some .mapping) &&
    (ownEntries nodes n).all (fun e => (read? nodes e.1).isSome) &&
    decide ((ownEntries nodes n).Pairwise fun e f => keysDiffer nodes e.1 f.1 = true)

theorem isClear_of_isClearAt {nodes : Array Node}
    (h : (List.range nodes.size).all (isClearAt nodes) = true) : IsClear nodes := by
  have at_ {n : Nat} (inside : n < nodes.size) : isClearAt nodes n = true :=
    List.all_eq_true.1 h n (List.mem_range.2 inside)
  have absent {n : Nat} (outside : ¬ n < nodes.size) : nodes[n]? = none :=
    Array.getElem?_eq_none (Nat.le_of_not_lt outside)
  simp only [isClearAt, Bool.and_eq_true, decide_eq_true_eq] at at_
  refine ⟨fun {n} tag => ?holds, fun {n e} mem => ?key, fun {n} tag repeats => ?unrepeated⟩
  case holds =>
    by_cases inside : n < nodes.size
    · obtain ⟨⟨holds, -⟩, -⟩ := at_ inside
      rw [tag] at holds
      obtain ⟨x, there, kind⟩ := Option.map_eq_some_iff.1 (by simpa using holds)
      cases content : x.content with
      | mapping es => exact ⟨x, es, there, content⟩
      | scalar text => rw [Node.kind, content] at kind; cases kind
      | sequence items => rw [Node.kind, content] at kind; cases kind
    · rw [isTagged, absent inside] at tag
      cases tag
  case key =>
    by_cases inside : n < nodes.size
    · obtain ⟨⟨-, read⟩, -⟩ := at_ inside
      exact Option.isSome_iff_exists.1 (List.all_eq_true.1 read e mem)
    · rw [ownEntries, entries, absent inside] at mem
      cases mem
  case unrepeated =>
    obtain ⟨e, f, a, b, sub, first, second, same⟩ := repeats
    by_cases inside : n < nodes.size
    · obtain ⟨-, apart⟩ := at_ inside
      have differ := List.pairwise_pair.1 (apart.sublist sub)
      rw [keysDiffer, first, second] at differ
      dsimp only at differ
      rw [same] at differ
      cases differ
    · rw [isTagged, absent inside] at tag
      cases tag

end Graph

/-- The text `{b: &b {t: 1}, l: [{<<: *b, t: 2}]}`. -/
def overriding : Graph where
  nodes := #[⟨Tag.mapping, ⟨0, 0⟩, .mapping [(1, 2), (5, 6)]⟩, ⟨Tag.text, ⟨0, 1⟩, .scalar "b"⟩,
    ⟨Tag.mapping, ⟨0, 4⟩, .mapping [(3, 4)]⟩, ⟨Tag.text, ⟨0, 8⟩, .scalar "t"⟩,
    ⟨Tag.int, ⟨0, 11⟩, .scalar "1"⟩, ⟨Tag.text, ⟨0, 15⟩, .scalar "l"⟩,
    ⟨Tag.sequence, ⟨0, 18⟩, .sequence [7]⟩, ⟨Tag.mapping, ⟨0, 19⟩, .mapping [(8, 2), (9, 10)]⟩,
    ⟨Tag.merge, ⟨0, 20⟩, .scalar "<<"⟩, ⟨Tag.text, ⟨0, 28⟩, .scalar "t"⟩,
    ⟨Tag.int, ⟨0, 31⟩, .scalar "2"⟩]
  root := some 0

/-- A key that is taken over and overridden is not repeated, not even where it is made late. -/
theorem load_overriding :
    Graph.ofChars "{b: &b {t: 1}, l: [{<<: *b, t: 2}]}".toList = .ok overriding ∧
    IsClear overriding.nodes ∧
    load "{b: &b {t: 1}, l: [{<<: *b, t: 2}]}".toList = overriding.load false := by
  have graph : Graph.ofChars "{b: &b {t: 1}, l: [{<<: *b, t: 2}]}".toList = .ok overriding :=
    ofChars_eq_ok (by decide +kernel)
  have clear : IsClear overriding.nodes := isClear_of_isClearAt (by decide +kernel)
  refine ⟨graph, clear, (load_eq_unchecked graph clear).resolve_right ?_⟩
  rintro ⟨n, x, key, place, -, -, -, refused⟩
  have loaded : (load "{b: &b {t: 1}, l: [{<<: *b, t: 2}]}".toList).toOption.isSome = true := by
    decide +kernel
  rw [refused] at loaded
  cases loaded

/-- The text `{l: [&b {<<: {x: 1}, x: 2}], <<: *b}`. -/
def overlapping : Graph where
  nodes := #[⟨Tag.mapping, ⟨0, 0⟩, .mapping [(1, 2), (10, 3)]⟩, ⟨Tag.text, ⟨0, 1⟩, .scalar "l"⟩,
    ⟨Tag.sequence, ⟨0, 4⟩, .sequence [3]⟩, ⟨Tag.mapping, ⟨0, 5⟩, .mapping [(4, 5), (8, 9)]⟩,
    ⟨Tag.merge, ⟨0, 9⟩, .scalar "<<"⟩, ⟨Tag.mapping, ⟨0, 13⟩, .mapping [(6, 7)]⟩,
    ⟨Tag.text, ⟨0, 14⟩, .scalar "x"⟩, ⟨Tag.int, ⟨0, 17⟩, .scalar "1"⟩,
    ⟨Tag.text, ⟨0, 21⟩, .scalar "x"⟩, ⟨Tag.int, ⟨0, 24⟩, .scalar "2"⟩,
    ⟨Tag.merge, ⟨0, 29⟩, .scalar "<<"⟩]
  root := some 0

/-- A mapping that takes over a key, overrides it and is taken over from itself is refused if
it is made late, though no key is repeated. -/
theorem refuses_overlapping :
    ¬ ∀ (cs : List Char) (g : Graph), Graph.ofChars cs = .ok g → IsClear g.nodes →
      load cs = g.load false := by
  intro always
  have same := always "{l: [&b {<<: {x: 1}, x: 2}], <<: *b}".toList overlapping
    (ofChars_eq_ok (by decide +kernel)) (isClear_of_isClearAt (by decide +kernel))
  have refused : (load "{l: [&b {<<: {x: 1}, x: 2}], <<: *b}".toList).toOption.isSome = false := by
    decide +kernel
  have loaded : (overlapping.load false).toOption.isSome = true := by decide +kernel
  rw [same, loaded] at refused
  cases refused

end Yaml
end ApiManual
