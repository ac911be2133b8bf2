import ApiManual.Proofs.Naming
import ApiManual.Proofs.Results
import ApiManual.Proofs.Yaml.Flaws
import ApiManual.Proofs.Yaml.Ordered

/-!
# Where reading breaks down

Reading the nodes of a text ends with a value, with a complaint, or at a flaw of the nodes
(`Graph.flaw_of_load`, `Graph.flaw_of_value`).  So nothing else ends it: all numbers are numbers of
nodes, what is needed has been made, and every loop comes to an end.  And a key without a text in
the value is one that a mapping among the nodes has or is given (`Graph.hasUntoldKey_of_value`).

The fuel of the loops is enough for different reasons.  A node is made inside others that are all
different ones, and there are no more of them than nodes.  A collection waits once, as it is made
once: what waits and what is not made yet are together no more than there are nodes
(`Loading.pending`).  And a value is put together along a trail of nodes that ends where it meets
one of them again.
-/

namespace ApiManual
namespace Yaml

open Yaml.Graph

/-- All the nodes that something made refers to. -/
def Made.links : Made → List Nat
  | .scalar _ | .set _ => []
  | .list items => items
  | .map es => es.map Prod.snd
  | .pairs items => items.flatMap fun e => [e.1, e.2]

namespace Loading

variable {g : Graph} {s t u : Loading} {n : Nat} {m : Made} {slack : Nat}

/-- What a node has been made into refers to nodes that have been made, and outside of pairs to
those that the node holds. -/
structure Sound (g : Graph) (s : Loading) (n : Nat) (m : Made) : Prop where
  links : ∀ i ∈ m.links, s.HasMade i
  list {items : List Nat} : m = .list items → ∀ i ∈ items, Holds g.nodes n i
  map {es : List (Scalar × Nat)} : m = .map es → ∀ e ∈ es, Holds g.nodes n e.2
  set {items : List Scalar} : m = .set items → isTagged g.nodes Tag.set n = true
  scalar {a : Scalar} : m = .scalar a → a.hasText = false → IsUntold g.nodes n
  keys {es : List (Scalar × Nat)} : m = .map es → ∀ e ∈ es, e.1.hasText = false →
    HasUntoldKey g.nodes

/-- What has been made is a node. -/
theorem lt_size_of_made (made : s.madeOf n = some m) : n < s.made.size := by
  by_contra outside
  rw [madeOf, Array.getElem?_eq_none (Nat.le_of_not_lt outside)] at made
  cases made

theorem Sound.mono (h : Sound g s n m) (made : ∀ i, s.HasMade i → t.HasMade i) : Sound g t n m :=
  ⟨fun i mem => made i (h.links i mem), h.list, h.map, h.set, h.scalar, h.keys⟩

theorem Sound.of_scalar {a : Scalar} (untold : a.hasText = false → IsUntold g.nodes n) :
    Sound g s n (.scalar a) where
  links := List.forall_mem_nil _
  list := by rintro _ ⟨⟩
  map := by rintro _ ⟨⟩
  set := by rintro _ ⟨⟩
  scalar := by
    rintro _ ⟨⟩
    exact untold
  keys := by rintro _ ⟨⟩

theorem Sound.of_list {items : List Nat} (made : ∀ i ∈ items, s.HasMade i)
    (holds : ∀ i ∈ items, Holds g.nodes n i) : Sound g s n (.list items) where
  links := made
  list := by
    rintro _ ⟨⟩
    exact holds
  map := by rintro _ ⟨⟩
  set := by rintro _ ⟨⟩
  scalar := by rintro _ ⟨⟩
  keys := by rintro _ ⟨⟩

theorem Sound.of_map {es : List (Scalar × Nat)}
    (each : ∀ e ∈ es, s.HasMade e.2 ∧ Holds g.nodes n e.2)
    (keys : ∀ e ∈ es, e.1.hasText = false → HasUntoldKey g.nodes) : Sound g s n (.map es) where
  links := List.forall_mem_map.2 fun e mem => (each e mem).1
  list := by rintro _ ⟨⟩
  map := by
    rintro _ ⟨⟩ e mem
    exact (each e mem).2
  set := by rintro _ ⟨⟩
  scalar := by rintro _ ⟨⟩
  keys := by
    rintro _ ⟨⟩
    exact keys

theorem Sound.of_set {items : List Scalar} (tagged : isTagged g.nodes Tag.set n = true) :
    Sound g s n (.set items) where
  links := List.forall_mem_nil _
  list := by rintro _ ⟨⟩
  map := by rintro _ ⟨⟩
  set := fun _ => tagged
  scalar := by rintro _ ⟨⟩
  keys := by rintro _ ⟨⟩

theorem Sound.of_pairs {items : List (Nat × Nat)}
    (each : ∀ e ∈ items, s.HasMade e.1 ∧ s.HasMade e.2) : Sound g s n (.pairs items) where
  links i link := by
    obtain ⟨e, mem, number⟩ := List.mem_flatMap.1 link
    rcases List.mem_cons.1 number with rfl | number
    · exact (each e mem).1
    · obtain rfl := List.mem_singleton.1 number
      exact (each e mem).2
  list := by rintro _ ⟨⟩
  map := by rintro _ ⟨⟩
  set := by rintro _ ⟨⟩
  scalar := by rintro _ ⟨⟩
  keys := by rintro _ ⟨⟩

/-- A state on the way from the nodes of a text. -/
structure Safe (g : Graph) (s : Loading) : Prop where
  size : s.made.size = g.nodes.size
  drawn : Drawn g.nodes s.nodes
  sound {n : Nat} {m : Made} : s.madeOf n = some m → Sound g s n m

/-- What is being made and what waits do not matter. -/
theorem Safe.congr (h : Safe g s) (nodes : t.nodes = s.nodes) (made : t.made = s.made) :
    Safe g t := by
  obtain ⟨_, _, _, _⟩ := t
  cases nodes
  cases made
  exact ⟨h.size, h.drawn, fun made => (h.sound made).mono fun _ => id⟩

/-- A step goes on: what was made is made, what is being made is not, and not much more is
pending. -/
structure Proceeds (g : Graph) (slack : Nat) (s t : Loading) : Prop where
  safe : Safe g t
  active : t.active = s.active
  made : ∀ i, s.HasMade i → t.HasMade i
  idle : ∀ i ∈ s.active, s.madeOf i = none → t.madeOf i = none
  waiting : ∀ i ∈ t.waiting, i ∈ s.waiting ∨ i < g.nodes.size
  pending_le : t.pending ≤ s.pending + slack

theorem Proceeds.refl (h : Safe g s) : Proceeds g slack s s :=
  ⟨h, rfl, fun _ => id, fun _ _ => id, fun _ => .inl, Nat.le_add_right _ _⟩

theorem Proceeds.relax (h : Proceeds g 0 s t) : Proceeds g slack s t :=
  ⟨h.safe, h.active, h.made, h.idle, h.waiting, Nat.le_trans h.pending_le (Nat.le_add_right _ _)⟩

theorem Proceeds.trans (h : Proceeds g 0 s t) (h' : Proceeds g slack t u) :
    Proceeds g slack s u where
  safe := h'.safe
  active := h'.active.trans h.active
  made i made := h'.made i (h.made i made)
  idle i mem none := h'.idle i (h.active ▸ mem) (h.idle i mem none)
  waiting i mem := (h'.waiting i mem).elim (h.waiting i) .inr
  pending_le := by
    have := h.pending_le
    have := h'.pending_le
    omega

/-- Where a node has been made into something that is sound, the way goes on. -/
theorem Safe.record (h : Safe g s) (inside : n < g.nodes.size) (sound : Sound g s n m)
    (recorded : t.made = s.made.setIfInBounds n (some m)) (nodes : t.nodes = s.nodes) :
    Safe g t ∧ ∀ i, s.HasMade i → t.HasMade i := by
  have inside : n < s.made.size := h.size ▸ inside
  have made (i : Nat) : s.HasMade i → t.HasMade i := HasMade.set inside recorded
  refine ⟨⟨?_, nodes ▸ h.drawn, fun {i m'} made' => ?_⟩, made⟩
  · rw [recorded, Array.size_setIfInBounds, h.size]
  · rw [madeOf_set inside recorded] at made'
    split at made'
    · rename_i same
      cases made'
      exact same ▸ sound.mono made
    · exact (h.sound made').mono made

end Loading

namespace Load

open Loading

variable {g : Graph} {s : Loading} {n : Nat} {active : List Nat} {make : Nat → Load Made}

/-- Nodes can be made while some others are being made. -/
def MakesSafely (g : Graph) (active : List Nat) (make : Nat → Load Made) : Prop :=
  ∀ {n : Nat} {s : Loading}, n < g.nodes.size → Safe g s → s.active = active →
    Ends g.Explains (fun m t => Proceeds g 0 s t ∧ t.madeOf n = some m) ((make n).run s)

/-- What is complained of is explained. -/
theorem explains_of_isComplaint {p : Problem} (h : IsComplaint p) : g.Explains p := by
  obtain ⟨c, rfl⟩ := h
  rintro b ⟨⟩

theorem explains_complain {α : Type} {Q : α → Loading → Prop} (c : Complaint) :
    Ends g.Explains Q ((complain c : Load α).run s) := .error nofun

/-- A complaint about a node of the text. -/
theorem ends_complainAt {α : Type} {Q : α → Loading → Prop} (safe : Safe g s)
    (inside : n < g.nodes.size) (c : Node → Complaint) :
    Ends g.Explains Q ((nodeAt n >>= fun x => complain (c x) : Load α).run s) := by
  obtain ⟨x, -, at_⟩ := exists_nodeAt safe.drawn inside
  rw [run_bind_of_ok at_]
  exact explains_complain _

/-! ## Mappings -/

/-- A key that is repeated is told, or it has no text. -/
theorem explains_repeatedKey (key : Scalar) (place place' : Mark)
    (untold : key.hasText = false → HasUntoldKey g.nodes) :
    g.Explains (.repeatedKey key place place') := by
  rintro b same
  rw [Problem.repeatedKey] at same
  split at same
  · cases same
  · rename_i told
    cases same
    exact .untoldKey (untold (Bool.eq_false_iff.2 told))

/-- Looking for a repeated key breaks down at a set, and at one without a text. -/
theorem ends_checkUnique (makes : MakesSafely g active make) (place : Mark) (seen : List Scalar)
    {es : List (Nat × Nat)} (tag : isTagged g.nodes Tag.mapping n = true)
    (entry : ∀ e ∈ es, e.1 < g.nodes.size ∧
      (isTagged g.nodes Tag.merge e.1 = false → Gives g.nodes n e))
    (safe : Safe g s) (at_ : s.active = active) :
    Ends g.Explains (fun _ t => Proceeds g 0 s t) ((checkUnique make place seen es).run s) := by
  induction es generalizing s seen with
  | nil => exact .ok (.refl safe)
  | cons e rest ih =>
    obtain ⟨⟨inside, given⟩, others⟩ := List.forall_mem_cons.1 entry
    rw [checkUnique, run_bind_of_ok (run_hasTag Tag.merge), safe.drawn.later.merge_eq]
    split
    · exact ih seen others safe at_
    rename_i own
    refine (makes inside safe at_).bind fun m t _ after => ?_
    obtain ⟨first, made⟩ := after
    have next (seen : List Scalar) : Ends g.Explains (fun _ u => Proceeds g 0 s u)
        ((checkUnique make place seen rest).run t) :=
      (ih seen others first.safe (first.active.trans at_)).imp (fun _ => id)
        fun _ _ _ second => first.trans second
    cases m with
    | scalar a =>
      dsimp only
      split
      · obtain ⟨x, -, run⟩ := exists_nodeAt first.safe.drawn inside
        rw [run_bind_of_ok run]
        refine .error (explains_repeatedKey a place x.start fun untold => ?_)
        exact ⟨n, e, tag, given (Bool.eq_false_iff.2 own), (first.safe.sound made).scalar rfl untold⟩
      · exact next _
    | set items =>
      refine .error ?_
      rintro b ⟨⟩
      exact .setKey tag (given (Bool.eq_false_iff.2 own)) ((first.safe.sound made).set rfl)
    | list items => exact next _
    | pairs items => exact next _
    | map es => exact next _

/-- A key that a mapping has got, if it has no text, is given as such. -/
def KeyIsGiven (g : Graph) (n : Nat) (k : Scalar) : Prop :=
  k.hasText = false → ∃ e, Gives g.nodes n e ∧ IsUntold g.nodes e.1

/-- What has been made under a key is a value that the mapping has been given. -/
def ValueIsGiven (g : Graph) (n : Nat) (s : Loading) (v : Nat) : Prop :=
  s.HasMade v ∧ ∃ k, Gives g.nodes n (k, v)

/-- Making the entries of a mapping. -/
theorem ends_makeEntries (makes : MakesSafely g active make) (place : Mark)
    {taken : List (Scalar × Nat)} {es : List (Nat × Nat)}
    (entry : ∀ e ∈ es, (e.1 < g.nodes.size ∧ e.2 < g.nodes.size) ∧ Gives g.nodes n e)
    (before : ∀ e ∈ taken, KeyIsGiven g n e.1 ∧ ValueIsGiven g n s e.2)
    (safe : Safe g s) (at_ : s.active = active) :
    Ends g.Explains (fun more t => Proceeds g 0 s t ∧
      ∀ e ∈ more, KeyIsGiven g n e.1 ∧ ValueIsGiven g n t e.2)
      ((makeEntries make place taken es).run s) := by
  induction es generalizing s taken with
  | nil => exact .ok ⟨.refl safe, before⟩
  | cons e rest ih =>
    obtain ⟨⟨⟨key, value⟩, given⟩, others⟩ := List.forall_mem_cons.1 entry
    rw [makeEntries]
    refine (makes key safe at_).bind fun m t _ after => ?_
    obtain ⟨first, is⟩ := after
    cases m with
    | scalar a =>
      refine (makes value first.safe (first.active.trans at_)).bind fun m u _ after => ?_
      obtain ⟨second, made⟩ := after
      have whole := first.trans second
      have before' : ∀ f ∈ putEntry Scalar.sameKey a e.2 taken,
          KeyIsGiven g n f.1 ∧ ValueIsGiven g n u f.2 := by
        refine forall_mem_putEntry (fun untold => ?_) ⟨⟨m, made⟩, e.1, given⟩ fun f mem => ?_
        · exact ⟨e, given, (first.safe.sound is).scalar rfl untold⟩
        · exact (before f mem).imp_right fun before => before.imp_left (whole.made _)
      exact (ih others before' second.safe (whole.active.trans at_)).imp (fun _ => id)
        fun _ _ _ third => ⟨whole.trans third.1, third.2⟩
    | set items => exact ends_complainAt first.safe key _
    | list items => exact ends_complainAt first.safe key _
    | pairs items => exact ends_complainAt first.safe key _
    | map es => exact ends_complainAt first.safe key _

/-- Taking over entries leaves all else as it is. -/
theorem proceeds_of_draws {t : Loading} (safe : Safe g s) (draws : Draws g.nodes s t) :
    Proceeds g 0 s t := by
  obtain ⟨nodes, rfl⟩ := draws.nodes
  exact ⟨⟨safe.size, draws.drawn, fun made => (safe.sound made).mono fun _ => id⟩, rfl, fun _ => id,
    fun _ _ => id, fun _ => .inl, Nat.le_refl _⟩

theorem ends_mapping (whole : IsWhole g.nodes) (makes : MakesSafely g active make)
    (inside : n < g.nodes.size) (safe : Safe g s) (at_ : s.active = active) :
    Ends g.Explains (fun more t => Proceeds g 0 s t ∧
      ∀ e ∈ more, KeyIsGiven g n e.1 ∧ ValueIsGiven g n t e.2) ((mapping make n).run s) := by
  obtain ⟨x, there, run⟩ := exists_nodeAt safe.drawn inside
  rw [mapping, run_bind_of_ok run]
  cases content : x.content with
  | scalar text => exact explains_complain _
  | sequence items => exact explains_complain _
  | mapping es =>
    have holds : HoldsEntries g.nodes n := .former ⟨x, es, there, content⟩ safe.drawn.later
    dsimp only
    rw [run_bind_of_ok run_get]
    have taken := ends_flatten whole (countEntries s.nodes + 1) [] safe.drawn holds
      (List.forall_mem_nil _) (Nat.lt_succ_of_le (mergeCount_le_countEntries _))
    refine (taken.imp (fun _ => explains_of_isComplaint) fun _ _ _ => id).bind
      fun _ t _ after => ?_
    obtain ⟨draws, given⟩ := after
    rw [run_bind_of_ok run_entriesOf]
    have first := proceeds_of_draws safe draws
    refine (ends_makeEntries makes x.start
      (fun e mem => ⟨draws.drawn.lt_size whole mem, given e mem⟩) (List.forall_mem_nil _)
      first.safe (first.active.trans at_)).imp (fun _ => id) fun _ _ _ second => ?_
    exact ⟨first.trans second.1, second.2⟩

/-- The tag that a node has now is the one that it had. -/
theorem tagged_of_node (safe : Safe g s) {x : Node} (there : s.nodes[n]? = some x) {tag : String}
    (at_ : x.tag = tag) (value : tag ≠ Tag.value) (text : tag ≠ Tag.text) :
    isTagged g.nodes tag n = true := by
  rw [← safe.drawn.later.isTagged_eq value text]
  exact (isTagged_of_node there).2 at_

/-- Looking at a node that has the tag of a mapping breaks down at a set among its keys, or if it
is none. -/
theorem ends_refuseDuplicates (whole : IsWhole g.nodes) (makes : MakesSafely g active make)
    (safe : Safe g s) (at_ : s.active = active) {x : Node} (there : s.nodes[n]? = some x)
    (tag : x.tag = Tag.mapping) :
    Ends g.Explains (fun _ t => Proceeds g 0 s t) ((refuseDuplicates make x).run s) := by
  have tagged := tagged_of_node safe there tag (by decide) (by decide)
  obtain ⟨y, was, becomes⟩ := safe.drawn.later.exists_former there
  have tag' : y.tag = Tag.mapping := (isTagged_of_node was).1 tagged
  rw [refuseDuplicates]
  cases content : x.content with
  | mapping es =>
    have own := entries_of_content there content
    refine ends_checkUnique makes x.start [] tagged (fun e mem => ?_) safe at_
    have mem : e ∈ entries s.nodes n := own ▸ mem
    refine ⟨(safe.drawn.lt_size whole mem).1, fun own => safe.drawn.gives mem ?_⟩
    rw [safe.drawn.later.merge_eq]
    exact own
  | scalar text =>
    dsimp only
    split
    · exact .ok (.refl safe)
    · rename_i other
      refine .error ?_
      rintro b ⟨⟩
      refine .textAsMapping was tag' (becomes.scalar_of content) ?_
      rintro rfl
      exact other rfl
  | sequence items =>
    dsimp only
    split
    · exact .ok (.refl safe)
    · rename_i other
      refine .error ?_
      rintro b ⟨⟩
      refine .sequenceAsMapping was tag' (becomes.sequence_of content) ?_
      rintro rfl
      exact other rfl

/-! ## Making nodes -/

/-- Making a node of its scalar. -/
theorem ends_construct_scalar (whole : IsWhole g.nodes) (safe : Safe g s)
    (inside : n < g.nodes.size)
    {x : Node} (there : s.nodes[n]? = some x) {kind : ScalarTag}
    (tag : scalarTag? x.tag = some kind) :
    Ends g.Explains (fun m t => Proceeds g 1 s t ∧ Sound g t n m)
      ((do
        let text ← scalarText ((← get).nodes.size + 1) n
        Made.scalar <$> scalar kind x text : Load Made).run s) := by
  have size := safe.drawn.later.size_eq
  rw [run_bind_of_ok run_get]
  have found : Ends g.Explains
      (fun text t => t = s ∧ (scalarText (s.nodes.size + 1) n).run s = .ok (text, t))
      ((scalarText (s.nodes.size + 1) n).run s) := by
    cases run : (scalarText (s.nodes.size + 1) n).run s with
    | error p => exact .error (flaw_of_scalarText whole safe.drawn (.nil n) inside (by omega) run)
    | ok r => exact .ok ⟨(scalarText_eq_ok run).1, rfl⟩
  refine found.bind fun text t _ after => ?_
  obtain ⟨rfl, run⟩ := after
  obtain ⟨y, was, becomes⟩ := safe.drawn.later.exists_former there
  rw [StateT.run_map, isBlind_scalar]
  cases read : readScalar kind x text with
  | ok a =>
    refine .ok ⟨.refl safe, .of_scalar fun untold => ?_⟩
    obtain ⟨int, z, spelled, untold⟩ := exists_whole_of_readScalar tag read untold
    have same : y.tag = Tag.int := by
      rcases becomes.tag with same | ⟨-, text⟩
      · exact same ▸ int
      · rw [int] at text
        exact absurd text (by decide)
    exact ⟨y, text, z, was, same, spells_of_scalarText safe.drawn run, spelled, untold⟩
  | error p =>
    refine .error ?_
    rintro b rfl
    have misspells := misspells_of_readScalar tag (content_of_scalarText safe.drawn there run) read
    exact .misspelt was (spells_of_scalarText safe.drawn run) (misspells.former becomes)

theorem tag_of_collectionTag? {tag : String} {kind : CollectionTag}
    (h : collectionTag? tag = some kind) :
    (kind = .sequence → tag = Tag.sequence) ∧ (kind = .set → tag = Tag.set) := by
  rcases collectionTag?_eq_some h with rfl | rfl | rfl | rfl <;> cases h <;>
    exact ⟨by simp, by simp⟩

theorem ends_construct (whole : IsWhole g.nodes) (makes : MakesSafely g active make)
    (inside : n < g.nodes.size) (safe : Safe g s) (at_ : s.active = active) :
    Ends g.Explains (fun m t => Proceeds g 1 s t ∧ Sound g t n m)
      ((construct true make n).run s) := by
  obtain ⟨x, there, run⟩ := exists_nodeAt safe.drawn inside
  rw [construct, run_bind_of_ok run]
  cases tag : scalarTag? x.tag with
  | some kind => exact ends_construct_scalar whole safe inside there tag
  | none =>
    cases collected : collectionTag? x.tag with
    | some kind =>
      have set (same : kind = .set) : isTagged g.nodes Tag.set n = true :=
        tagged_of_node safe there ((tag_of_collectionTag? collected).2 same) (by decide) (by decide)
      refine .ok ⟨⟨safe.congr rfl rfl, rfl, fun _ => id, fun _ _ => id, ?waiting, ?pending⟩, ?sound⟩
      case waiting =>
        intro i mem
        refine (List.mem_append.1 mem).imp_right fun mem => ?_
        obtain rfl := List.mem_singleton.1 mem
        exact inside
      case pending =>
        show s.made.count none + (s.waiting ++ [n]).length ≤ _
        rw [List.length_append, pending]
        exact Nat.le_refl _
      case sound =>
        cases kind with
        | sequence => exact .of_list (List.forall_mem_nil _) (List.forall_mem_nil _)
        | set => exact .of_set (set rfl)
        | pairList what => exact .of_pairs (List.forall_mem_nil _)
    | none =>
      dsimp only
      split
      · rename_i mapping
        have tagged := tagged_of_node safe there mapping (by decide) (by decide)
        rw [if_pos rfl]
        refine (ends_refuseDuplicates whole makes safe at_ there mapping).bind fun _ t _ first => ?_
        have made := ends_mapping whole makes inside first.safe (first.active.trans at_)
        refine made.map fun es u second => ⟨(first.trans second.1).relax, ?_⟩
        refine .of_map (fun e mem => ?_) fun e mem untold => ?_
        · obtain ⟨-, made, k, given⟩ := second.2 e mem
          exact ⟨made, .value tagged given⟩
        · obtain ⟨f, given, untold⟩ := (second.2 e mem).1 untold
          exact ⟨n, f, tagged, given, untold⟩
      · exact explains_complain _

/-- The nodes that are being made are different ones, and there is fuel for the others. -/
structure Allows (size fuel : Nat) (active : List Nat) : Prop where
  nodup : active.Nodup
  inside : ∀ i ∈ active, i < size
  enough : size < fuel + active.length

theorem Allows.cons {size fuel : Nat} (h : Allows size (fuel + 1) active) (new : n ∉ active)
    (inside : n < size) : Allows size fuel (n :: active) where
  nodup := List.nodup_cons.2 ⟨new, h.nodup⟩
  inside := List.forall_mem_cons.2 ⟨inside, h.inside⟩
  enough := by
    have := h.enough
    rw [List.length_cons]
    omega

/-- Where a new node has been made, that is recorded, and no more is pending than before. -/
theorem proceeds_of_recorded {t : Loading} {m : Made} (inside : n < g.nodes.size)
    (new : s.madeOf n = none) (idle : n ∉ s.active)
    (proceeds : Proceeds g 1 { s with active := n :: s.active } t) (sound : Sound g t n m) :
    Proceeds g 0 s (t.recorded n m) ∧ (t.recorded n m).madeOf n = some m := by
  have there : n < t.made.size := proceeds.safe.size ▸ inside
  obtain ⟨safe', made⟩ := proceeds.safe.record (t := t.recorded n m) inside sound rfl rfl
  have self : (t.recorded n m).madeOf n = some m := by
    rw [madeOf_set there rfl, if_pos rfl]
  refine ⟨⟨safe', ?active, fun i old => made i (proceeds.made i old), ?idle, proceeds.waiting,
    ?pending⟩, self⟩
  case active => exact congrArg List.tail proceeds.active
  case idle =>
    intro i mem none
    have ne : i ≠ n := by
      rintro rfl
      exact idle mem
    rw [madeOf_recorded ne]
    exact proceeds.idle i (List.mem_cons_of_mem n mem) none
  case pending =>
    have less := count_set_of_none m there (proceeds.idle n List.mem_cons_self new)
    have le := proceeds.pending_le
    simp only [pending, recorded] at le ⊢
    omega

/-- **Making a node.**  It is made, or complained of, or has a flaw. -/
theorem makesSafely_make (whole : IsWhole g.nodes) (fuel : Nat)
    (allows : Allows g.nodes.size fuel active) : MakesSafely g active (Load.make true fuel) := by
  induction fuel generalizing active with
  | zero =>
    have := length_le_of_inside allows.nodup allows.inside
    have := allows.enough
    omega
  | succ fuel ih =>
    rintro n s inside safe rfl
    cases new : s.madeOf n with
    | some m =>
      rw [run_make_of_made true fuel new]
      exact .ok ⟨.refl safe, new⟩
    | none =>
      by_cases mem : n ∈ s.active
      · rw [run_make_of_active true fuel new mem]
        exact ends_complainAt safe inside _
      · rw [run_make_of_new true fuel new mem]
        have safe' : Safe g { s with active := n :: s.active } := safe.congr rfl rfl
        have made := ends_construct whole (ih (allows.cons mem inside)) inside safe' rfl
        generalize (construct true (Load.make true fuel) n).run _ = r at made
        cases made with
        | error explains => exact .error explains
        | ok made => exact .ok (proceeds_of_recorded inside new mem made.1 made.2)

/-! ## The items of collections -/

theorem ends_items (makes : MakesSafely g active make) {items : List Nat}
    (inside : ∀ i ∈ items, i < g.nodes.size) (safe : Safe g s) (at_ : s.active = active) :
    Ends g.Explains (fun _ t => Proceeds g 0 s t ∧ ∀ i ∈ items, t.HasMade i)
      ((items.forM fun item => discard (make item) : Load Unit).run s) := by
  induction items generalizing s with
  | nil => exact .ok ⟨.refl safe, List.forall_mem_nil _⟩
  | cons item rest ih =>
    obtain ⟨there, others⟩ := List.forall_mem_cons.1 inside
    have one : Ends g.Explains (fun _ t => Proceeds g 0 s t ∧ t.HasMade item)
        ((discard (make item) : Load Unit).run s) :=
      (makes there safe at_).map fun m _ made => made.imp_right fun made => ⟨m, made⟩
    refine one.bind fun _ t _ after => ?_
    obtain ⟨first, made⟩ := after
    refine (ih others first.safe (first.active.trans at_)).imp (fun _ => id)
      fun _ u _ second => ⟨first.trans second.1, ?_⟩
    exact List.forall_mem_cons.2 ⟨second.1.made item made, second.2⟩

/-- The key and the value of an item are nodes. -/
theorem ends_pairOf (whole : IsWhole g.nodes) (safe : Safe g s) (what : PairList) (place : Mark)
    (inside : n < g.nodes.size) :
    Ends g.Explains (fun e t => t = s ∧ e.1 < g.nodes.size ∧ e.2 < g.nodes.size)
      ((pairOf what place n).run s) := by
  obtain ⟨x, there, run⟩ := exists_nodeAt safe.drawn inside
  rw [pairOf, run_bind_of_ok run]
  cases content : x.content with
  | scalar text => exact explains_complain _
  | sequence items => exact explains_complain _
  | mapping es =>
    cases es with
    | nil => exact explains_complain _
    | cons e rest =>
      cases rest with
      | cons => exact explains_complain _
      | nil =>
        have mem : e ∈ entries s.nodes n := by
          rw [entries_of_content there content]
          exact List.mem_singleton.2 rfl
        exact .ok ⟨rfl, safe.drawn.lt_size whole mem⟩

theorem ends_makePairs (whole : IsWhole g.nodes) (makes : MakesSafely g active make)
    (what : PairList) (place : Mark) {items : List Nat} (inside : ∀ i ∈ items, i < g.nodes.size)
    (safe : Safe g s) (at_ : s.active = active) :
    Ends g.Explains (fun es t => Proceeds g 0 s t ∧ ∀ e ∈ es, t.HasMade e.1 ∧ t.HasMade e.2)
      ((makePairs make what place items).run s) := by
  induction items generalizing s with
  | nil => exact .ok ⟨.refl safe, List.forall_mem_nil _⟩
  | cons item rest ih =>
    obtain ⟨there, others⟩ := List.forall_mem_cons.1 inside
    have one : Ends g.Explains (fun e t => Proceeds g 0 s t ∧ t.HasMade e.1 ∧ t.HasMade e.2) ((do
        let e ← pairOf what place item
        let _ ← make e.1
        let _ ← make e.2
        return e : Load (Nat × Nat)).run s) := by
      refine (ends_pairOf whole safe what place there).bind fun e t _ pair => ?_
      obtain ⟨rfl, key, value⟩ := pair
      refine (makes key safe at_).bind fun k u _ first => ?_
      refine (makes value first.1.safe (first.1.active.trans at_)).bind fun v w _ second => ?_
      exact .ok ⟨first.1.trans second.1, second.1.made _ ⟨k, first.2⟩, v, second.2⟩
    rw [makePairs, List.mapM_cons]
    refine one.bind fun e t _ after => ?_
    obtain ⟨first, made⟩ := after
    refine (ih others first.safe (first.active.trans at_)).bind fun es u _ after => ?_
    obtain ⟨second, made'⟩ := after
    refine .ok ⟨first.trans second, List.forall_mem_cons.2 ⟨?_, made'⟩⟩
    exact made.imp (second.made _) (second.made _)

/-- Where a collection has got its items, that is recorded. -/
theorem ends_refill {t : Loading} {m : Made} (inside : n < g.nodes.size) (idle : s.active = [])
    (proceeds : Proceeds g 0 s t) (sound : Sound g t n m) :
    Ends g.Explains (fun _ u => Proceeds g 0 s u) ((record n m).run t) := by
  rw [run_record]
  obtain ⟨safe, made⟩ := proceeds.safe.record
    (t := { t with made := t.made.setIfInBounds n (some m) }) inside sound rfl rfl
  refine .ok ⟨safe, proceeds.active, fun i old => made i (proceeds.made i old), ?idle,
    proceeds.waiting, ?pending⟩
  case idle =>
    intro i mem
    rw [idle] at mem
    cases mem
  case pending =>
    have less := count_set_le m (proceeds.safe.size ▸ inside)
    have le := proceeds.pending_le
    simp only [pending] at le ⊢
    omega

theorem ends_complete (whole : IsWhole g.nodes) (makes : MakesSafely g [] make)
    (inside : n < g.nodes.size) (safe : Safe g s) (idle : s.active = []) :
    Ends g.Explains (fun _ t => Proceeds g 0 s t) ((complete make n).run s) := by
  obtain ⟨x, there, run⟩ := exists_nodeAt safe.drawn inside
  obtain ⟨y, was, becomes⟩ := safe.drawn.later.exists_former there
  rw [complete, run_bind_of_ok run]
  have items_inside {items : List Nat} (content : x.content = .sequence items) :
      ∀ i ∈ items, i < g.nodes.size := by
    intro i mem
    refine whole n y was i ?_
    rw [becomes.sequence_of content]
    exact mem
  cases collected : collectionTag? x.tag with
  | none => exact .ok (.refl safe)
  | some kind =>
    have tags := tag_of_collectionTag? collected
    cases kind with
    | sequence =>
      cases content : x.content with
      | scalar text => exact explains_complain _
      | mapping es => exact explains_complain _
      | sequence items =>
        refine (ends_items makes (items_inside content) safe idle).bind fun _ t _ first => ?_
        refine ends_refill inside idle first.1 (.of_list first.2 fun i mem => ?_)
        have tagged := tagged_of_node safe there (tags.1 rfl) (by decide) (by decide)
        exact .item was ((isTagged_of_node was).1 tagged) (becomes.sequence_of content) mem
    | set =>
      refine (ends_mapping whole makes inside safe idle).bind fun es t _ first => ?_
      refine ends_refill inside idle first.1 (.of_set ?_)
      exact tagged_of_node safe there (tags.2 rfl) (by decide) (by decide)
    | pairList what =>
      cases content : x.content with
      | scalar text => exact explains_complain _
      | mapping es => exact explains_complain _
      | sequence items =>
        exact (ends_makePairs whole makes what x.start (items_inside content) safe idle).bind
          fun es t _ first => ends_refill inside idle first.1 (.of_pairs first.2)

/-! ## Making everything -/

/-- **Making all items.**  There is fuel for everything that is pending. -/
theorem ends_completeAll (whole : IsWhole g.nodes) (makes : MakesSafely g [] make) {fuel : Nat}
    (safe : Safe g s) (idle : s.active = []) (inside : ∀ i ∈ s.waiting, i < g.nodes.size)
    (enough : s.pending < fuel) :
    Ends g.Explains (fun _ t => Safe g t ∧ ∀ i, s.HasMade i → t.HasMade i)
      ((completeAll make fuel).run s) := by
  induction fuel generalizing s with
  | zero => exact absurd enough (Nat.not_lt_zero _)
  | succ fuel ih =>
    rw [completeAll, run_bind_of_ok run_get]
    cases waiting : s.waiting with
    | nil => exact .ok ⟨safe, fun _ => id⟩
    | cons n rest =>
      obtain ⟨here, others⟩ := List.forall_mem_cons.1 (waiting ▸ inside)
      dsimp only
      rw [run_bind_of_ok (run_modify _)]
      have fewer : Loading.pending { s with waiting := rest } < s.pending := by
        simp only [pending, waiting, List.length_cons]
        omega
      have safe' : Safe g { s with waiting := rest } := safe.congr rfl rfl
      refine (ends_complete whole makes here safe' idle).bind fun _ t _ first => ?_
      have le := first.pending_le
      refine (ih first.safe (first.active.trans idle)
        (fun i mem => (first.waiting i mem).elim (others i) id) (by omega)).imp (fun _ => id)
        fun _ u _ after => ⟨after.1, fun i old => after.2 i (first.made i old)⟩

end Load

namespace Graph

open Loading

variable {g : Graph} {l : Loaded} {r : Nat}

theorem safe_begun (g : Graph) : Safe g (begun g.nodes) where
  size := Array.size_replicate ..
  drawn := .refl _
  sound made := by
    rw [madeOf_begun] at made
    cases made

/-- How loading may end. -/
theorem ends_all (whole : IsWhole g.nodes) (inside : r < g.nodes.size) :
    Load.Ends g.Explains (fun _ t => Safe g t ∧ t.HasMade r)
      ((Load.all true r).run (begun g.nodes)) := by
  have makes : Load.MakesSafely g [] (Load.make true (g.nodes.size + 1)) :=
    Load.makesSafely_make whole _ ⟨.nil, List.forall_mem_nil _, Nat.lt_succ_self _⟩
  rw [Load.all, Load.run_bind_of_ok Load.run_get]
  refine (makes inside (safe_begun g) rfl).bind fun m t _ after => ?_
  obtain ⟨first, made⟩ := after
  have size : t.nodes.size = g.nodes.size := first.safe.drawn.later.size_eq
  have le := first.pending_le
  have few : (begun g.nodes).pending = g.nodes.size := by
    rw [pending, begun]
    simp
  rw [Load.run_bind_of_ok Load.run_get]
  refine (Load.ends_completeAll whole makes first.safe first.active
    (fun i mem => (first.waiting i mem).resolve_left List.not_mem_nil) (by omega)).imp (fun _ => id)
    fun _ u _ after => ⟨after.1, after.2 r ⟨m, made⟩⟩

/-- **Loading.**  It breaks down only at a flaw. -/
theorem flaw_of_load (whole : IsWhole g.nodes) (root : ∀ n, g.root = some n → n < g.nodes.size)
    {b : Breakdown} (h : g.load true = .error (.breakdown b)) : g.Flaw b := by
  cases at_ : g.root with
  | none =>
    rw [load, at_] at h
    cases h
  | some r =>
    rw [load_of_root at_] at h
    have ends := ends_all whole (root r at_)
    generalize (Load.all true r).run (begun g.nodes) = outcome at ends h
    cases ends with
    | ok => cases h
    | error explains =>
      cases h
      exact explains b rfl

/-! ## Values -/

/-- A way from the outermost node along which a value is put together; inside of pairs it may
have started anywhere. -/
structure Route (g : Graph) (r : Nat) (inPair : Bool) (outer : List Nat) (n : Nat) : Prop where
  trail : Trail (fun i j => inPair = true ∨ Holds g.nodes i j) g.nodes.size outer n
  start : inPair = false → Relation.ReflTransGen (Holds g.nodes) r n

theorem Route.cons {inPair : Bool} {outer : List Nat} {n i : Nat} (h : Route g r inPair outer n)
    (new : n ∉ outer) (inside : n < g.nodes.size) (holds : Holds g.nodes n i) :
    Route g r inPair (n :: outer) i :=
  ⟨h.trail.cons new inside (.inr holds), fun out => (h.start out).tail holds⟩

/-- Inside of pairs a way starts anew, unless it was inside of pairs before. -/
theorem Route.pair {inPair : Bool} {outer : List Nat} {n i : Nat} (h : Route g r inPair outer n)
    (new : n ∉ outer) (inside : n < g.nodes.size) :
    Route g r true (if inPair then n :: outer else []) i := by
  refine ⟨?_, nofun⟩
  split
  · rename_i out
    subst out
    exact h.trail.cons new inside (.inl rfl)
  · exact .nil i

/-- How many steps a way may still take: inside of pairs no node is met twice, and before them
none is met twice either. -/
def steps (g : Graph) (inPair : Bool) : Nat :=
  if inPair then g.nodes.size else 2 * g.nodes.size + 1

/-- A value that cannot be put together is inside itself. -/
theorem circular_of_value {s : Loading} (safe : Safe g s) {fuel : Nat} {inPair : Bool}
    {outer : List Nat} {n : Nat} {p : Problem} (route : Route g r inPair outer n)
    (enough : g.steps inPair < fuel + outer.length) (made : s.HasMade n)
    (h : Made.value s.made fuel inPair outer n = .error p) :
    inPair = false ∧ p = .breakdown .endlessValue ∧
      ∃ m, Relation.ReflTransGen (Holds g.nodes) r m ∧ Relation.TransGen (Holds g.nodes) m m := by
  induction fuel generalizing inPair n outer with
  | zero =>
    have := route.trail.length_le
    rw [steps] at enough
    split at enough <;> omega
  | succ fuel ih =>
    obtain ⟨m, made⟩ := made
    have inside : n < g.nodes.size := by
      rw [← safe.size]
      exact lt_size_of_made made
    have further (new : n ∉ outer) {i : Nat} (holds : Holds g.nodes n i) (made : s.HasMade i)
        (h : Made.value s.made fuel inPair (n :: outer) i = .error p) := by
      refine ih (route.cons new inside holds) ?_ made h
      rw [List.length_cons]
      omega
    cases Made.blocked_of_value h with
    | again mem =>
      have round := route.trail.leads n mem
      simp only [Bool.false_eq_true, false_or] at round
      exact ⟨rfl, rfl, n, route.start rfl, round⟩
    | unmade none =>
      rw [madeOf, none] at made
      cases made
    | item new found mem fails =>
      have sound := safe.sound found
      exact further new (sound.list rfl _ mem) (sound.links _ mem) fails
    | entry new found mem fails =>
      have sound := safe.sound found
      exact further new (sound.map rfl _ mem) (sound.links _ (List.mem_map_of_mem mem)) fails
    | @pair _ _ _ i items e _ new found mem part fails =>
      -- Before the pair no node was met twice, and inside of it none will be.
      have enough' : g.steps true < fuel + (if inPair then n :: outer else []).length := by
        have := length_le_of_inside (List.nodup_cons.2 ⟨new, route.trail.nodup⟩)
          (List.forall_mem_cons.2 ⟨inside, route.trail.inside⟩)
        rw [List.length_cons] at this
        cases inPair <;> simp [steps] at enough ⊢ <;> omega
      have link : i ∈ (Made.pairs items).links := by
        refine List.mem_flatMap.2 ⟨e, mem, ?_⟩
        rw [List.mem_pair]
        exact part
      cases (ih (route.pair new inside) enough' ((safe.sound found).links i link) fails).1

/-- The value of what has been loaded is put together from what has been made in the end, if there
are any nodes. -/
theorem value_of_load (whole : IsWhole g.nodes) (root : ∀ n, g.root = some n → n < g.nodes.size)
    (loaded : g.load true = .ok l) : l.value = .ok .null ∨ ∃ r s, g.root = some r ∧ Safe g s ∧
      s.HasMade r ∧ l.value = Made.value s.made (2 * s.made.size + 2) false [] r := by
  cases at_ : g.root with
  | none =>
    rw [load, at_] at loaded
    cases loaded
    exact .inl rfl
  | some r =>
    rw [load_of_root at_] at loaded
    have ends := ends_all whole (root r at_)
    generalize (Load.all true r).run (begun g.nodes) = outcome at ends loaded
    cases ends with
    | error explains => cases loaded
    | @ok a s after =>
      cases loaded
      exact .inr ⟨r, s, rfl, after.1, after.2, rfl⟩

/-- **Values.**  What has been loaded is a value, unless it is inside itself. -/
theorem flaw_of_value (whole : IsWhole g.nodes) (root : ∀ n, g.root = some n → n < g.nodes.size)
    (loaded : g.load true = .ok l) {p : Problem} (h : l.value = .error p) :
    p = .breakdown .endlessValue ∧ g.Flaw .endlessValue := by
  rcases value_of_load whole root loaded with empty | ⟨r, s, at_, safe, made, value⟩
  · rw [empty] at h
    cases h
  · rw [value] at h
    have route : Route g r false [] r := ⟨.nil r, fun _ => .refl⟩
    have enough : g.steps false < 2 * s.made.size + 2 + ([] : List Nat).length := by
      simp [steps, safe.size]
    obtain ⟨-, same, m, reached, round⟩ := circular_of_value safe route enough made h
    exact ⟨same, .circularValue at_ reached round⟩

/-- All keys of a value have texts if those of the nodes have. -/
theorem hasKeyTexts_of_made {s : Loading} (safe : Safe g s) (told : ¬ HasUntoldKey g.nodes)
    {fuel : Nat} {inPair : Bool} {outer : List Nat} {n : Nat} {v : Value}
    (h : Made.value s.made fuel inPair outer n = .ok v) : v.hasKeyTexts = true := by
  refine Made.value_induction (motive := fun _ v => v.hasKeyTexts = true)
    ?loop ?scalar ?set ?list ?map ?pairs h
  case loop => rw [Value.hasKeyTexts.eq_def]
  case scalar =>
    intro _ a
    rw [Value.hasKeyTexts.eq_def]
  case set =>
    intro _ items
    rw [Value.hasKeyTexts.eq_def]
  case list =>
    intro _ vs ih
    exact Value.hasKeyTexts_list_iff.2 ih
  case map =>
    intro _ n entries es found keys ih
    refine Value.hasKeyTexts_map_iff.2 fun e mem => ⟨?_, ih e mem⟩
    by_contra untold
    have sound : Sound g s n (.map entries) := safe.sound found
    have key : e.1 ∈ entries.map Prod.fst := keys ▸ List.mem_map_of_mem mem
    obtain ⟨e', mem', same⟩ := List.mem_map.1 key
    refine told (sound.keys rfl e' mem' ?_)
    rw [same]
    exact Bool.eq_false_iff.2 untold
  case pairs =>
    intro _ vs parts
    refine Value.hasKeyTexts_list_iff.2 fun v mem => ?_
    -- What is inside a pair does not count.
    obtain ⟨a, b, rfl, -, -⟩ := parts v mem
    rw [Value.hasKeyTexts.eq_def]

/-- **Keys.**  All keys of what has been loaded have texts, unless a mapping among the nodes has a
key without one. -/
theorem hasUntoldKey_of_value (whole : IsWhole g.nodes)
    (root : ∀ n, g.root = some n → n < g.nodes.size) (loaded : g.load true = .ok l) {v : Value}
    (h : l.value = .ok v) (untold : v.hasKeyTexts = false) : HasUntoldKey g.nodes := by
  by_contra told
  rcases value_of_load whole root loaded with empty | ⟨r, s, -, safe, -, value⟩
  · rw [empty] at h
    cases h
    cases untold
  · rw [value] at h
    rw [hasKeyTexts_of_made safe told h] at untold
    cases untold

end Graph
end Yaml
end ApiManual
