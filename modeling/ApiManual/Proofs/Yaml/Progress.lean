import ApiManual.Proofs.Yaml.Splicing

/-!
# What has been made

Nodes are made into values one inside the other, each of them once; the items of lists, sets
and lists of pairs come later.  Here is what there is to say about a state on this way.

`Settled` says that all that belongs to the value of a node has been made, the entries that a
mapping takes over included.  `Advances` says what making a node does to a state: what was made
stays, what is being made is not made a second time, and each node that is new either waits
for its items or is settled.  Of an entry that some mapping gives to another one it says that
it is not forgotten (`Covers`): the entry can still be taken over, or it has been made, or it is
one of those in the making around this node.  This is needed as mappings may take over from
each other in a circle, where taking over goes wherever it was started.
-/

namespace ApiManual
namespace Yaml

open Yaml.Graph

/-! ## Scalars -/

namespace Load

variable {α β : Type} {s s' : Loading} {n : Nat}

/-- A step does not look at the state, and leaves it as it is. -/
def IsBlind (x : Load α) (r : Except Problem α) : Prop := ∀ s, x.run s = r.map (·, s)

theorem isBlind_complain (c : Complaint) : IsBlind (complain c : Load α) (.error (.complaint c)) :=
  fun _ => rfl

theorem isBlind_breakDown (b : Breakdown) :
    IsBlind (breakDown b : Load α) (.error (.breakdown b)) := fun _ => rfl

theorem isBlind_pure (a : α) : IsBlind (pure a) (.ok a) := fun _ => rfl

theorem IsBlind.map {x : Load α} {r : Except Problem α} (h : IsBlind x r) (f : α → β) :
    IsBlind (f <$> x) (r.map f) := by
  intro s
  rw [StateT.run_map, h s]
  cases r <;> rfl

/-- The scalar of a node, without a state. -/
def readScalar (kind : ScalarTag) (node : Node) (text : String) : Except Problem Scalar :=
  ((scalar kind node text).run ⟨#[], #[], [], []⟩).map Prod.fst

theorem IsBlind.eq_readScalar {kind : ScalarTag} {node : Node} {text : String}
    {r : Except Problem Scalar} (h : IsBlind (scalar kind node text) r) :
    r = readScalar kind node text := by
  rw [readScalar, h]
  cases r <;> rfl

theorem isBlind_number {α : Type} (r : Except NumberFault α) : ∃ r', IsBlind (number r) r' := by
  rcases r with (- | - | -) | x
  · exact ⟨_, isBlind_breakDown _⟩
  · exact ⟨_, isBlind_breakDown _⟩
  · exact ⟨_, isBlind_breakDown _⟩
  · exact ⟨_, isBlind_pure x⟩

theorem isBlind_truth (text : String) : ∃ r, IsBlind (truth text) r := by
  rw [truth]
  split
  · exact ⟨_, isBlind_pure _⟩
  · exact ⟨_, isBlind_breakDown _⟩

theorem isBlind_bytes (text : String) (place : Mark) : ∃ r, IsBlind (bytes text place) r := by
  rw [bytes]
  split
  · exact ⟨_, isBlind_complain _⟩
  · split
    · exact ⟨_, isBlind_pure _⟩
    · exact ⟨_, isBlind_complain _⟩

theorem isBlind_moment (node : Node) : ∃ r, IsBlind (moment node) r := by
  rw [moment]
  split
  · split
    · exact ⟨_, isBlind_breakDown _⟩
    · split
      · exact ⟨_, isBlind_pure _⟩
      · exact ⟨_, isBlind_breakDown _⟩
  · exact ⟨_, isBlind_breakDown _⟩

/-- Reading a scalar does not look at the state. -/
theorem isBlind_scalar (kind : ScalarTag) (node : Node) (text : String) :
    IsBlind (scalar kind node text) (readScalar kind node text) := by
  have blind : ∃ r, IsBlind (scalar kind node text) r := by
    cases kind with
    | null => exact ⟨_, isBlind_pure _⟩
    | text => exact ⟨_, isBlind_pure _⟩
    | bool => exact (isBlind_truth text).imp' _ fun _ blind => blind.map _
    | int => exact (isBlind_number _).imp' _ fun _ blind => blind.map _
    | float => exact (isBlind_number _).imp' _ fun _ blind => blind.map _
    | binary => exact (isBlind_bytes text node.start).imp' _ fun _ blind => blind.map _
    | timestamp => exact isBlind_moment node
  obtain ⟨r, blind⟩ := blind
  rwa [blind.eq_readScalar] at blind

theorem exists_run_underTag? (tag : String) (es : List (Nat × Nat)) :
    ∃ found, (underTag? tag es).run s = .ok (found, s) := by
  induction es with
  | nil => exact ⟨none, rfl⟩
  | cons e rest ih =>
    rw [underTag?, run_bind_of_ok (run_hasTag tag)]
    split
    · exact ⟨some e.2, rfl⟩
    · exact ih

/-- Looking for the text of a scalar changes nothing. -/
theorem scalarText_eq_ok {fuel : Nat} {text : String}
    (h : (scalarText fuel n).run s = .ok (text, s')) :
    s' = s ∧ ∀ x t, s.nodes[n]? = some x → x.content = .scalar t → text = t := by
  induction fuel generalizing n with
  | zero => cases h
  | succ fuel ih =>
    rw [scalarText, bind_eq_ok] at h
    obtain ⟨node, _, at_, h⟩ := h
    obtain ⟨there, rfl⟩ := nodeAt_eq_ok.1 at_
    rw [there]
    cases content : node.content with
    | scalar t =>
      rw [content] at h
      cases h
      refine ⟨rfl, ?_⟩
      rintro x t ⟨⟩ content'
      rw [content] at content'
      exact (Content.scalar.inj content')
    | sequence items => rw [content] at h; cases h
    | mapping es =>
      rw [content] at h
      refine ⟨?_, ?_⟩
      · obtain ⟨found, run⟩ := exists_run_underTag? (s := s) Tag.value es
        dsimp only at h
        rw [run_bind_of_ok run] at h
        cases found with
        | none => cases h
        | some v => exact (ih h).1
      · rintro x t ⟨⟩ content'
        rw [content] at content'
        cases content'

end Load

/-- The scalar that a scalar node is made into, if there is one. -/
def Node.scalar? (x : Node) : Option Scalar :=
  match Load.scalarTag? x.tag, x.content with
  | some kind, .scalar text => (Load.readScalar kind x text).toOption
  | _, _ => none

/-- A node that a scalar can be read from stays as it is. -/
theorem Node.scalar?_eq_some {x y : Node} {a : Scalar} (reads : x.scalar? = some a)
    (becomes : x.Becomes y) : y = x ∧ ∃ kind text, Load.scalarTag? x.tag = some kind ∧
      x.content = .scalar text ∧ Load.readScalar kind x text = .ok a := by
  rw [Node.scalar?] at reads
  split at reads
  · rename_i kind text tag content
    refine ⟨becomes.eq_of_scalar content ?_, kind, text, tag, content, ?_⟩
    · intro value
      rw [value] at tag
      cases tag
    · cases read : Load.readScalar kind x text with
      | ok b =>
        rw [read] at reads
        cases reads
        rfl
      | error p =>
        rw [read] at reads
        cases reads
  · cases reads

/-! ## What has been made -/

/-- Whether something was made into a value that gets its items later. -/
def Made.isCollection : Made → Bool
  | .list _ | .pairs _ | .set _ => true
  | .scalar _ | .map _ => false

/-- Whether a node becomes a value that gets its items later. -/
def Graph.IsCollection (nodes : Array Node) (n : Nat) : Prop :=
  ∃ x kind, nodes[n]? = some x ∧ Load.collectionTag? x.tag = some kind

/-- No two entries are under one key. -/
def HasKeysOnce {α : Type} (es : List (Scalar × α)) : Prop :=
  es.Pairwise fun e f => e.1.sameKey f.1 = false

theorem fst_of_mem_putEntry {α : Type} {k : Scalar} {v : α} {es : List (Scalar × α)}
    {f : Scalar × α} (mem : f ∈ putEntry Scalar.sameKey k v es) :
    f.1 = k ∨ ∃ e ∈ es, e.1 = f.1 := by
  induction es with
  | nil =>
    rw [putEntry, List.mem_singleton] at mem
    exact .inl (congrArg Prod.fst mem)
  | cons e rest ih =>
    obtain ⟨k', v'⟩ := e
    rw [putEntry] at mem
    split at mem
    · rcases List.mem_cons.1 mem with rfl | mem
      · exact .inr ⟨_, List.mem_cons_self, rfl⟩
      · exact .inr ⟨f, List.mem_cons_of_mem _ mem, rfl⟩
    · rcases List.mem_cons.1 mem with rfl | mem
      · exact .inr ⟨_, List.mem_cons_self, rfl⟩
      · rcases ih mem with same | ⟨e, inside, same⟩
        · exact .inl same
        · exact .inr ⟨e, List.mem_cons_of_mem _ inside, same⟩

/-- Putting an entry keeps each key once. -/
theorem HasKeysOnce.putEntry {α : Type} {es : List (Scalar × α)} (h : HasKeysOnce es) (k : Scalar)
    (v : α) : HasKeysOnce (putEntry Scalar.sameKey k v es) := by
  induction es with
  | nil => exact List.pairwise_singleton _ _
  | cons e rest ih =>
    obtain ⟨k', v'⟩ := e
    obtain ⟨first, others⟩ := List.pairwise_cons.1 h
    rw [ApiManual.putEntry]
    split
    · exact List.pairwise_cons.2 ⟨first, others⟩
    · rename_i new
      refine List.pairwise_cons.2 ⟨fun f mem => ?_, ih others⟩
      rcases fst_of_mem_putEntry mem with same | ⟨e, mem, same⟩
      · rw [same]
        exact Bool.eq_false_iff.2 new
      · rw [← same]
        exact first e mem

namespace Loading

variable {unique : Bool} {o : Array Node} {s s' s'' : Loading} {n : Nat}

/-- Whether a node has been made into something. -/
def HasMade (s : Loading) (n : Nat) : Prop := ∃ m, s.madeOf n = some m

/-- A state on the way from the nodes `o`. -/
structure From (o : Array Node) (s : Loading) : Prop where
  later : Later o s.nodes
  size : s.made.size = o.size
  kinds {n : Nat} {m : Made} : s.madeOf n = some m → (m.isCollection = true ↔ IsCollection o n)
  scalars {n : Nat} {x : Node} {a : Scalar} {m : Made} :
    o[n]? = some x → x.scalar? = some a → s.madeOf n = some m → m = .scalar a
  maps {n : Nat} {es : List (Scalar × Nat)} : s.madeOf n = some (.map es) → HasKeysOnce es

/-- What is being made and what waits do not matter. -/
theorem From.congr (h : From o s) (nodes : s'.nodes = s.nodes) (made : s'.made = s.made) :
    From o s' := by
  obtain ⟨_, _, _, _⟩ := s'
  cases nodes
  cases made
  exact ⟨h.later, h.size, h.kinds, h.scalars, h.maps⟩

/-- The mapping takes over nothing any more, and its entries have been made. -/
structure Filled (s : Loading) (n : Nat) : Prop where
  plain : IsPlain s.nodes (entries s.nodes n)
  key {e : Nat × Nat} : e ∈ entries s.nodes n → ∃ a, s.madeOf e.1 = some (.scalar a)
  value {e : Nat × Nat} : e ∈ entries s.nodes n → s.HasMade e.2

/-- The keys of two entries are different ones. -/
def KeysDiffer (s : Loading) (e f : Nat × Nat) : Prop :=
  ∀ a b, s.madeOf e.1 = some (.scalar a) → s.madeOf f.1 = some (.scalar b) → a.sameKey b = false

/-- All that belongs to the value of a node has been made, and the keys that it had itself are
different ones. -/
structure Settled (unique : Bool) (o : Array Node) (s : Loading) (n : Nat) : Prop where
  filled : isTagged o Tag.mapping n = true ∨ isTagged o Tag.set n = true → s.Filled n
  distinct : unique = true → isTagged o Tag.mapping n = true →
    (ownEntries o n).Pairwise s.KeysDiffer
  items {x : Node} {items : List Nat} : isTagged o Tag.sequence n = true → o[n]? = some x →
    x.content = .sequence items → ∀ i ∈ items, s.HasMade i
  pairs {x : Node} {items : List Nat} :
    isTagged o Tag.orderedMap n = true ∨ isTagged o Tag.pairs n = true → o[n]? = some x →
    x.content = .sequence items → ∀ i ∈ items, ∀ e ∈ ownEntries o i,
      s.HasMade e.1 ∧ s.HasMade e.2

/-- Each entry that a node had or was given is still given, or is one of some others, or has
been made. -/
def Covers (o : Array Node) (others : Nat × Nat → Prop) (s : Loading) : Prop :=
  ∀ (i : Nat) (e : Nat × Nat), Gives o i e →
    Gives s.nodes i e ∨ others e ∨ s.HasMade e.1 ∧ s.HasMade e.2

/-- A state that is further on the way: what was made is there, though a collection may have
got its items. -/
structure Grows (o : Array Node) (s s' : Loading) : Prop where
  later : Later s.nodes s'.nodes
  still {i : Nat} : IsPlain s.nodes (entries s.nodes i) → entries s'.nodes i = entries s.nodes i
  keeps {i : Nat} {m : Made} : s.madeOf i = some m →
    ∃ m', s'.madeOf i = some m' ∧ (m' = m ∨ IsCollection o i)

/-- What making nodes does to a state. -/
structure Advances (unique : Bool) (o : Array Node) (s s' : Loading) : Prop
    extends Grows o s s' where
  from_ : From o s'
  active : s'.active = s.active
  idle {i : Nat} : i ∈ s.active → s.madeOf i = none → s'.madeOf i = none
  waiting : s.waiting <+: s'.waiting
  queue {i : Nat} : i ∈ s'.waiting → i ∈ s.waiting ∨ IsCollection o i
  news {i : Nat} : s'.HasMade i → s.HasMade i ∨ i ∈ s'.waiting ∨ Settled unique o s' i
  covers {others : Nat × Nat → Prop} : Covers o others s → Covers o others s'

namespace Grows

theorem refl (s : Loading) : Grows o s s where
  later := .refl _
  still _ := rfl
  keeps made := ⟨_, made, .inl rfl⟩

theorem trans (h : Grows o s s') (h' : Grows o s' s'') : Grows o s s'' where
  later := h.later.trans h'.later
  still plain := by
    have same := h.still plain
    rw [h'.still (by rw [same]; exact h.later.isPlain_iff.2 plain), same]
  keeps made := by
    obtain ⟨m', made', same⟩ := h.keeps made
    obtain ⟨m'', made'', same'⟩ := h'.keeps made'
    refine ⟨m'', made'', ?_⟩
    rcases same' with rfl | collection
    · exact same
    · exact .inr collection

theorem hasMade (h : Grows o s s') (made : s.HasMade n) : s'.HasMade n := by
  obtain ⟨m, made⟩ := made
  obtain ⟨m', made', -⟩ := h.keeps made
  exact ⟨m', made'⟩

/-- A scalar stays the scalar that it is. -/
theorem scalar (h : Grows o s s') (start : From o s) {a : Scalar}
    (made : s.madeOf n = some (.scalar a)) : s'.madeOf n = some (.scalar a) := by
  obtain ⟨m', made', rfl | collection⟩ := h.keeps made
  · exact made'
  · cases (start.kinds made).2 collection

/-- What was made and is a scalar in the end was one before. -/
theorem was_scalar (h : Grows o s s') (stop : From o s') {a : Scalar} (made : s.HasMade n)
    (made' : s'.madeOf n = some (.scalar a)) : s.madeOf n = some (.scalar a) := by
  obtain ⟨m, made⟩ := made
  obtain ⟨m', made'', same⟩ := h.keeps made
  rw [made'] at made''
  cases made''
  rcases same with rfl | collection
  · exact made
  · cases (stop.kinds made').2 collection

end Grows

theorem Covers.grows {others : Nat × Nat → Prop} (h : Covers o others s)
    (grows : Grows o s s') (nodes : s'.nodes = s.nodes) : Covers o others s' := by
  intro i e given
  rcases h i e given with given | rest
  · exact .inl (nodes ▸ given)
  · exact .inr (rest.imp_right fun made => made.imp grows.hasMade grows.hasMade)

theorem Filled.grows (h : s.Filled n) (grows : Grows o s s') (start : From o s) : s'.Filled n := by
  have same := grows.still h.plain
  refine ⟨?plain, ?key, ?value⟩
  case plain => rw [same]; exact grows.later.isPlain_iff.2 h.plain
  case key =>
    intro e mem
    obtain ⟨a, made⟩ := h.key (same ▸ mem)
    exact ⟨a, grows.scalar start made⟩
  case value => exact fun mem => grows.hasMade (h.value (same ▸ mem))

/-- What a mapping had itself is among its entries. -/
theorem Filled.mem_of_own (h : s.Filled n) (start : From o s) {e : Nat × Nat}
    (mem : e ∈ ownEntries o n) : e ∈ entries s.nodes n := by
  rw [← h.plain.ownEntries_eq]
  exact (start.later.own n).subset mem

theorem KeysDiffer.grows {e f : Nat × Nat} (h : s.KeysDiffer e f) (grows : Grows o s s')
    (stop : From o s') (made : s.HasMade e.1) (made' : s.HasMade f.1) : s'.KeysDiffer e f :=
  fun a b first second =>
    h a b (grows.was_scalar stop made first) (grows.was_scalar stop made' second)

theorem Settled.grows (h : Settled unique o s n) (grows : Grows o s s') (start : From o s)
    (stop : From o s') : Settled unique o s' n where
  filled tags := (h.filled tags).grows grows start
  distinct checked tag := by
    have filled := h.filled (.inl tag)
    have made {e : Nat × Nat} (mem : e ∈ ownEntries o n) : s.HasMade e.1 :=
      (filled.key (filled.mem_of_own start mem)).imp' _ fun _ made => made
    exact (h.distinct checked tag).imp_of_mem fun mem mem' differ =>
      differ.grows grows stop (made mem) (made mem')
  items tag there content i mem := grows.hasMade (h.items tag there content i mem)
  pairs tags there content i mem e mem' :=
    (h.pairs tags there content i mem e mem').imp grows.hasMade grows.hasMade

namespace Advances

theorem refl (h : From o s) : Advances unique o s s where
  toGrows := .refl s
  from_ := h
  active := rfl
  idle _ made := made
  waiting := List.prefix_refl _
  queue := .inl
  news := .inl
  covers covers := covers

theorem trans (h : Advances unique o s s') (h' : Advances unique o s' s'') :
    Advances unique o s s'' where
  toGrows := h.toGrows.trans h'.toGrows
  from_ := h'.from_
  active := h'.active.trans h.active
  idle mem made := h'.idle (h.active ▸ mem) (h.idle mem made)
  waiting := h.waiting.trans h'.waiting
  queue mem := (h'.queue mem).elim h.queue .inr
  news made := by
    rcases h'.news made with made | new
    · rcases h.news made with made | waiting | settled
      · exact .inl made
      · exact .inr (.inl (h'.waiting.subset waiting))
      · exact .inr (.inr (settled.grows h'.toGrows h.from_ h'.from_))
    · exact .inr new
  covers covers := h'.covers (h.covers covers)

/-- Taking over entries and then making all of them. -/
theorem of_spliced {nodes : Array Node} (spliced : Spliced [] n s.nodes nodes)
    (h : Advances unique o { s with nodes } s')
    (made : ∀ e ∈ entries nodes n, s'.HasMade e.1 ∧ s'.HasMade e.2) : Advances unique o s s' where
  later := spliced.later.trans h.later
  still plain := by
    have same := spliced.still (.inr rfl) plain
    have same' := h.still (by rw [same]; exact spliced.later.isPlain_iff.2 plain)
    exact same'.trans same
  keeps := h.keeps
  from_ := h.from_
  active := h.active
  idle := h.idle
  waiting := h.waiting
  queue := h.queue
  news := h.news
  covers {others} covers := by
    have covers' : Covers o (fun e => others e ∨ e ∈ entries nodes n) { s with nodes } := by
      intro i e given
      rcases covers i e given with given | other | made
      · exact (spliced.gives given).imp_right fun mem => .inl (.inr mem)
      · exact .inr (.inl (.inl other))
      · exact .inr (.inr made)
    intro i e given
    rcases h.covers covers' i e given with given | (other | mem) | made'
    · exact .inl given
    · exact .inr (.inl other)
    · exact .inr (.inr (made e mem))
    · exact .inr (.inr made')

end Advances

/-- Where taking over entries leads is on the way, too. -/
theorem From.of_spliced (h : From o s) {nodes : Array Node}
    (spliced : Spliced [] n s.nodes nodes) : From o { s with nodes } where
  later := h.later.trans spliced.later
  size := h.size
  kinds := h.kinds
  scalars := h.scalars
  maps := h.maps

end Loading

end Yaml
end ApiManual
