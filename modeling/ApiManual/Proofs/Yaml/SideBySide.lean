import ApiManual.Proofs.Yaml.UniqueKeys

/-!
# Two ways of loading, side by side

Two ways of loading start from the same nodes, and now and then the first one makes some
scalars early (`Abreast`).  As long as they treat nodes alike, they end alike, unless the first
one has refused a key (`Parallel`, `InStep`).  There is one rule for each step that makes
something out of what it is given: if the two ways keep in step there, they do in the whole.

The texts in question have clear keys (`Graph.IsClear`): every key can be read as a scalar, and
no mapping repeats one.  `OnWay` says which mappings may have got entries before their turn:
those that have a merge key and are under the merge key of another one (`Graph.Overlaps`).
-/

namespace ApiManual
namespace Yaml

open Yaml.Graph Loading

/-! ## Steps on nodes alone -/

namespace Load

variable {α β : Type} {n : Nat}

/-- A step looks at the nodes alone and changes nothing else. -/
def ActsOnNodes (x : Load α) : Prop :=
  ∀ nodes, ∃ r : Except Problem (α × Array Node), ∀ s : Loading, s.nodes = nodes →
    x.run s = r.map fun p => (p.1, { s with nodes := p.2 })

namespace ActsOnNodes

theorem of_run {x : Load α} (f : Array Node → α) (g : Array Node → Array Node)
    (h : ∀ s, x.run s = .ok (f s.nodes, { s with nodes := g s.nodes })) : ActsOnNodes x := by
  intro nodes
  refine ⟨.ok (f nodes, g nodes), ?_⟩
  rintro s rfl
  exact h s

theorem pure (a : α) : ActsOnNodes (pure a : Load α) := of_run (fun _ => a) id fun _ => rfl

theorem of_error {x : Load α} {p : Problem} (h : ∀ s, x.run s = .error p) : ActsOnNodes x :=
  fun _ => ⟨.error p, fun s _ => h s⟩

theorem complain (c : Complaint) : ActsOnNodes (complain c : Load α) := of_error fun _ => rfl

theorem breakDown (b : Breakdown) : ActsOnNodes (breakDown b : Load α) := of_error fun _ => rfl

theorem bind {x : Load α} {f : α → Load β} (h : ActsOnNodes x) (h' : ∀ a, ActsOnNodes (f a)) :
    ActsOnNodes (x >>= f) := by
  intro nodes
  obtain ⟨r, run⟩ := h nodes
  match r, run with
  | .error p, run =>
    refine ⟨.error p, fun s at_ => ?_⟩
    exact run_bind_of_error (run s at_)
  | .ok (a, nodes'), run =>
    obtain ⟨r', run'⟩ := h' a nodes'
    refine ⟨r', fun s at_ => ?_⟩
    rw [run_bind_of_ok (run s at_), run' _ rfl]

theorem nodeAt : ActsOnNodes (nodeAt n) := by
  intro nodes
  cases there : nodes[n]? with
  | some node =>
    refine ⟨.ok (node, nodes), ?_⟩
    rintro s rfl
    rw [run_nodeAt, there]
    rfl
  | none =>
    refine ⟨.error (.breakdown .endlessValue), ?_⟩
    rintro s rfl
    rw [run_nodeAt, there]
    rfl

theorem gather {step : Nat → Load Unit} (h : ∀ m, ActsOnNodes (step m)) {place : Mark}
    {ms : List Nat} : ActsOnNodes (gather step place ms) := by
  induction ms with
  | nil => exact .pure _
  | cons m rest ih =>
    rw [Load.gather]
    refine .bind .nodeAt fun node => ?_
    cases node.content with
    | mapping es =>
      exact .bind (h m) fun _ => .bind (of_run (fun nodes => entries nodes m) id fun _ => rfl)
        fun _ => .bind ih fun _ => .pure _
    | scalar text => exact .complain _
    | sequence items => exact .complain _

theorem flatten (fuel : Nat) (merged : List (Nat × Nat)) : ActsOnNodes (flatten fuel merged n) := by
  induction fuel generalizing merged n with
  | zero => exact .breakDown _
  | succ fuel ih =>
    rw [Load.flatten]
    refine .bind (of_run (fun nodes => entries nodes n) id fun _ => rfl) fun es => ?_
    refine .bind (of_run (fun nodes => firstMerge? nodes es) id fun s => run_takeMerge es)
      fun found => ?_
    have set (es : List (Nat × Nat)) : ActsOnNodes (setEntries n es) :=
      of_run (fun _ => ()) (fun nodes => withEntries nodes n es) fun _ => rfl
    cases found with
    | none =>
      exact .bind (of_run (fun _ => ()) (fun nodes => withNamedSigns nodes es)
        fun s => run_nameEqualsSigns es) fun _ => set _
    | some found =>
      refine .bind (set _) fun _ => .bind .nodeAt fun mapping => .bind .nodeAt fun source => ?_
      cases source.content with
      | mapping es' =>
        exact .bind (ih []) fun _ => .bind (of_run (fun nodes => entries nodes found.1) id
          fun _ => rfl) fun _ => ih _
      | sequence items => exact .bind (.gather fun m => ih []) fun _ => ih _
      | scalar text => exact .bind (.complain _) fun _ => ih _

theorem underTag? (tag : String) (es : List (Nat × Nat)) : ActsOnNodes (underTag? tag es) := by
  induction es with
  | nil => exact .pure _
  | cons e rest ih =>
    rw [Load.underTag?]
    refine .bind (of_run (fun nodes => isTagged nodes tag e.1) id fun _ => rfl) fun found => ?_
    cases found with
    | true => exact .pure _
    | false => exact ih

theorem scalarText (fuel : Nat) : ActsOnNodes (scalarText fuel n) := by
  induction fuel generalizing n with
  | zero => exact .breakDown _
  | succ fuel ih =>
    rw [Load.scalarText]
    refine .bind .nodeAt fun node => ?_
    cases node.content with
    | scalar text => exact .pure _
    | sequence items => exact .complain _
    | mapping es =>
      refine .bind (.underTag? _ _) fun found => ?_
      cases found with
      | some v => exact ih
      | none => exact .complain _

end ActsOnNodes
end Load

/-! ## Clear keys -/

namespace Graph

/-- A mapping that takes over entries and that some mapping takes over entries from. -/
def Overlaps (nodes : Array Node) (n : Nat) : Prop :=
  ¬ IsPlain nodes (entries nodes n) ∧ IsSource nodes n

/-- The mappings hold entries, their keys can be read, and none of them is repeated. -/
structure IsClear (nodes : Array Node) : Prop where
  holds {n : Nat} : isTagged nodes Tag.mapping n = true → HoldsEntries nodes n
  key {n : Nat} {e : Nat × Nat} : e ∈ ownEntries nodes n → ∃ a, read? nodes e.1 = some a
  unrepeated {n : Nat} : isTagged nodes Tag.mapping n = true → ¬ RepeatsKey nodes n

/-- A node that can be read is no mapping. -/
theorem isTagged_of_read? {nodes : Array Node} {n : Nat} {a : Scalar} (h : read? nodes n = some a) :
    isTagged nodes Tag.mapping n = false := by
  obtain ⟨x, there, reads⟩ := Option.bind_eq_some_iff.1 h
  rw [Bool.eq_false_iff, Ne, isTagged_of_node there]
  intro tag
  rw [Node.scalar?, tag] at reads
  cases reads

end Graph

/-! ## Side by side -/

namespace Loading

variable {o : Array Node} {active : List Nat} {early : Nat → Prop} {s t : Loading}

/-- A state on the way while some nodes are being made.  Only a mapping that overlaps others has
other entries than it had before it is made. -/
structure OnWay (o : Array Node) (active : List Nat) (s : Loading) : Prop where
  from_ : From o s
  active_eq : s.active = active
  origin {i : Nat} {e : Nat × Nat} : e ∈ entries s.nodes i → ∃ j, e ∈ entries o j
  touched {i : Nat} : isTagged o Tag.mapping i = true → entries s.nodes i ≠ entries o i →
    Overlaps o i ∨ s.HasMade i ∨ i ∈ active
  queue {i : Nat} : i ∈ s.waiting → IsCollection o i

/-- Two states that differ in nothing but some scalars, which have been made in the first one
only. -/
structure Abreast (o : Array Node) (active : List Nat) (early : Nat → Prop) (s t : Loading) :
    Prop where
  left : OnWay o active s
  right : From o t
  nodes : t.nodes = s.nodes
  active_eq : t.active = s.active
  waiting : t.waiting = s.waiting
  made (i : Nat) : t.madeOf i = s.madeOf i ∨
    early i ∧ t.madeOf i = none ∧ ∃ a, read? o i = some a ∧ s.madeOf i = some (.scalar a)

/-- How two ways of loading end. -/
inductive Parallel (o : Array Node) (active : List Nat) (early : Nat → Prop) {α : Type} :
    Except Problem (α × Loading) → Except Problem (α × Loading) → Prop where
  | ok {a : α} {s t : Loading} : Abreast o active early s t →
      Parallel o active early (.ok (a, s)) (.ok (a, t))
  | error (p : Problem) : Parallel o active early (.error p) (.error p)
  /-- The first one refuses a key in a mapping that overlaps others. -/
  | refused {n : Nat} {x : Node} {key : Scalar} {place : Mark}
      {r : Except Problem (α × Loading)} : o[n]? = some x → x.tag = Tag.mapping → Overlaps o n →
      Parallel o active early (.error (.repeatedKey key x.start place)) r

/-- Two steps side by side. -/
structure InStep (o : Array Node) (active : List Nat) (early : Nat → Prop) {α : Type}
    (x y : Load α) : Prop where
  parallel {s t : Loading} : Abreast o active early s t →
    Parallel o active early (x.run s) (y.run t)

variable {α β : Type} {x y : Load α}

theorem Parallel.bind {active' : List Nat} {early' : Nat → Prop} {f g : α → Load β}
    (h : Parallel o active' early' (x.run s) (y.run t))
    (h' : ∀ a s' t', x.run s = .ok (a, s') → y.run t = .ok (a, t') →
      Abreast o active' early' s' t' → Parallel o active early ((f a).run s') ((g a).run t')) :
    Parallel o active early ((x >>= f).run s) ((y >>= g).run t) := by
  rw [StateT.run_bind, StateT.run_bind]
  generalize left : x.run s = r at h h'
  generalize right : y.run t = r' at h h'
  cases h with
  | ok abreast => exact h' _ _ _ rfl rfl abreast
  | error p => exact .error p
  | refused there tag overlaps => exact .refused there tag overlaps

theorem InStep.bind {f g : α → Load β} (h : InStep o active early x y)
    (h' : ∀ a, InStep o active early (f a) (g a)) :
    InStep o active early (x >>= f) (y >>= g) :=
  ⟨fun abreast => (h.parallel abreast).bind fun a _ _ _ _ abreast => (h' a).parallel abreast⟩

theorem InStep.pure (a : α) : InStep o active early (pure a : Load α) (pure a) := ⟨.ok⟩

theorem InStep.complain (c : Complaint) :
    InStep o active early (Load.complain c : Load α) (Load.complain c) := ⟨fun _ => .error _⟩

theorem InStep.breakDown (b : Breakdown) :
    InStep o active early (Load.breakDown b : Load α) (Load.breakDown b) := ⟨fun _ => .error _⟩

theorem InStep.nodeAt (n : Nat) : InStep o active early (Load.nodeAt n) (Load.nodeAt n) := by
  refine ⟨fun {s t} abreast => ?_⟩
  rw [Load.run_nodeAt, Load.run_nodeAt, abreast.nodes]
  cases s.nodes[n]? with
  | none => exact .error _
  | some node => exact .ok abreast

/-- Taking over entries while a mapping is being made. -/
theorem OnWay.spliced (h : OnWay o active s) {n : Nat} {nodes : Array Node}
    (spliced : Spliced [] n s.nodes nodes)
    (inside : n ∈ active ∨ isTagged o Tag.mapping n = false) :
    OnWay o active { s with nodes } where
  from_ := h.from_.of_spliced spliced
  active_eq := h.active_eq
  origin mem := by
    obtain ⟨j, mem⟩ := (spliced.origin mem).resolve_left List.not_mem_nil
    exact h.origin mem
  touched {i} tag change := by
    by_cases same : entries s.nodes i = entries o i
    · have change : entries nodes i ≠ entries s.nodes i := by rw [same]; exact change
      rcases spliced.changed change with rfl | source
      · refine .inr (.inr (inside.resolve_right fun other => ?_))
        rw [tag] at other
        cases other
      · refine .inl ⟨fun plain => change (spliced.still (.inr rfl) ?_), ?_⟩
        · rw [same]
          exact h.from_.later.isPlain_iff.2 plain
        · exact h.from_.later.isSource (fun _ _ mem => h.origin mem) source
    · exact h.touched tag same
  queue := h.queue

theorem InStep.flatten {n : Nat} (fuel : Nat)
    (inside : n ∈ active ∨ isTagged o Tag.mapping n = false) {s t : Loading}
    (abreast : Abreast o active early s t) (holds : HoldsEntries s.nodes n) :
    Parallel o active early ((Load.flatten fuel [] n).run s) ((Load.flatten fuel [] n).run t) := by
  obtain ⟨r, run⟩ := Load.ActsOnNodes.flatten (n := n) fuel [] s.nodes
  have left := run s rfl
  rw [left, run t abreast.nodes]
  cases r with
  | error p => exact .error p
  | ok r =>
    obtain ⟨nodes', same, spliced⟩ :=
      Load.splices_flatten fuel [] holds (List.forall_mem_nil _) left
    cases same
    exact .ok ⟨abreast.left.spliced spliced inside,
      abreast.right.of_spliced (abreast.nodes ▸ spliced), rfl, abreast.active_eq, abreast.waiting,
      abreast.made⟩

theorem InStep.entriesOf (n : Nat) :
    InStep o active early (Load.entriesOf n) (Load.entriesOf n) := by
  refine ⟨fun {s t} abreast => ?_⟩
  rw [Load.run_entriesOf, Load.run_entriesOf, abreast.nodes]
  exact .ok abreast

theorem InStep.scalarText (fuel n : Nat) :
    InStep o active early (Load.scalarText fuel n) (Load.scalarText fuel n) := by
  refine ⟨fun {s t} abreast => ?_⟩
  obtain ⟨r, run⟩ := Load.ActsOnNodes.scalarText (n := n) fuel s.nodes
  have left := run s rfl
  rw [left, run t abreast.nodes]
  match r, left with
  | .error p, _ => exact .error p
  | .ok (text, nodes), left =>
    have same : nodes = s.nodes := congrArg Loading.nodes (Load.scalarText_eq_ok left).1
    subst same
    have right : { t with nodes := s.nodes } = t := by rw [← abreast.nodes]
    exact .ok (right.symm ▸ abreast)

theorem InStep.scalar (kind : Load.ScalarTag) (node : Node) (text : String) :
    InStep o active early (Load.scalar kind node text) (Load.scalar kind node text) := by
  refine ⟨fun {s t} abreast => ?_⟩
  rw [Load.isBlind_scalar, Load.isBlind_scalar]
  cases Load.readScalar kind node text with
  | error p => exact .error p
  | ok a => exact .ok abreast

variable {make make' : Nat → Load Made}

theorem InStep.makeEntries (h : ∀ k, InStep o active early (make k) (make' k)) {place : Mark}
    {taken : List (Scalar × Nat)} {es : List (Nat × Nat)} :
    InStep o active early (Load.makeEntries make place taken es)
      (Load.makeEntries make' place taken es) := by
  induction es generalizing taken with
  | nil => exact .pure _
  | cons e rest ih =>
    rw [Load.makeEntries, Load.makeEntries]
    refine .bind (h e.1) fun m => ?_
    cases m with
    | scalar a => exact .bind (h e.2) fun _ => ih
    | list items => exact .bind (.nodeAt e.1) fun _ => .complain _
    | pairs items => exact .bind (.nodeAt e.1) fun _ => .complain _
    | map items => exact .bind (.nodeAt e.1) fun _ => .complain _
    | set items => exact .bind (.nodeAt e.1) fun _ => .complain _

theorem InStep.mapping (h : ∀ k, InStep o active early (make k) (make' k)) {n : Nat}
    (inside : n ∈ active ∨ isTagged o Tag.mapping n = false) :
    InStep o active early (Load.mapping make n) (Load.mapping make' n) := by
  refine ⟨fun {s t} abreast => ?_⟩
  rw [Load.mapping, Load.mapping]
  refine ((InStep.nodeAt n).parallel abreast).bind fun node s' t' left right abreast => ?_
  obtain ⟨there, rfl⟩ := Load.nodeAt_eq_ok.1 left
  cases content : node.content with
  | scalar text => exact .error _
  | sequence items => exact .error _
  | mapping es =>
    dsimp only
    rw [Load.run_bind_of_ok Load.run_get, Load.run_bind_of_ok Load.run_get, abreast.nodes]
    refine (InStep.flatten _ inside abreast ⟨node, es, there, content⟩).bind
      fun _ s' t' _ _ abreast => ?_
    exact ((InStep.entriesOf n).bind fun _ => .makeEntries h).parallel abreast

/-! ## The items of collections -/

theorem read?_of_isCollection {n : Nat} (h : IsCollection o n) : read? o n = none := by
  obtain ⟨x, kind, there, tag⟩ := h
  rw [read?, there, Option.bind_some, Node.scalar?, Load.scalarTag?_of_collection tag]

theorem From.refilled {n : Nat} {m : Made} (h : From o s) (collection : IsCollection o n)
    (kind : m.isCollection = true) :
    From o { s with made := s.made.setIfInBounds n (some m) } := by
  obtain ⟨x, -, there, -⟩ := id collection
  have inside : n < s.made.size := h.size ▸ (Array.getElem?_eq_some_iff.1 there).1
  refine ⟨h.later, (Array.size_setIfInBounds ..).trans h.size, ?kinds, ?scalars, ?maps⟩
  case kinds =>
    intro i m' made
    rw [madeOf_record inside] at made
    split at made
    · rename_i same
      cases made
      exact iff_of_true kind (same ▸ collection)
    · exact h.kinds made
  case scalars =>
    intro i y a m' there reads made
    rw [madeOf_record inside] at made
    split at made
    · rename_i same
      have none := read?_of_isCollection (same ▸ collection)
      rw [read?, there, Option.bind_some, reads] at none
      cases none
    · exact h.scalars there reads made
  case maps =>
    intro i es made
    rw [madeOf_record inside] at made
    split at made
    · rw [Option.some.inj made] at kind
      cases kind
    · exact h.maps made

theorem InStep.refill {n : Nat} {m : Made} (collection : IsCollection o n)
    (kind : m.isCollection = true) :
    InStep o active early (Load.record n m) (Load.record n m) := by
  refine ⟨fun {s t} h => ?_⟩
  obtain ⟨x, -, there, -⟩ := id collection
  have size := (Array.getElem?_eq_some_iff.1 there).1
  have made {i : Nat} :=
    madeOf_record (s := s) (n := n) (m := m) (i := i) (h.left.from_.size ▸ size)
  have made' {i : Nat} := madeOf_record (s := t) (n := n) (m := m) (i := i) (h.right.size ▸ size)
  refine .ok ⟨⟨h.left.from_.refilled collection kind, h.left.active_eq, h.left.origin, ?touched,
    h.left.queue⟩, h.right.refilled collection kind, h.nodes, h.active_eq, h.waiting, ?made⟩
  case touched =>
    intro i tag change
    refine (h.left.touched tag change).imp_right fun rest => rest.imp_left fun ⟨m', before⟩ => ?_
    by_cases same : i = n
    · exact ⟨_, made.trans (if_pos same)⟩
    · exact ⟨m', (made.trans (if_neg same)).trans before⟩
  case made =>
    intro i
    rw [made, made']
    by_cases same : i = n
    · rw [if_pos same, if_pos same]
      exact .inl rfl
    · rw [if_neg same, if_neg same]
      exact h.made i

theorem InStep.pairOf (what : PairList) (place : Mark) (item : Nat) :
    InStep o active early (Load.pairOf what place item) (Load.pairOf what place item) := by
  rw [Load.pairOf]
  refine .bind (.nodeAt item) fun node => ?_
  cases node.content with
  | scalar text => exact .complain _
  | sequence items => exact .complain _
  | mapping es =>
    cases es with
    | nil => exact .complain _
    | cons e rest =>
      cases rest with
      | nil => exact .pure e
      | cons => exact .complain _

theorem InStep.makePairs (h : ∀ k, InStep o active early (make k) (make' k)) (what : PairList)
    (place : Mark) (items : List Nat) :
    InStep o active early (Load.makePairs make what place items)
      (Load.makePairs make' what place items) := by
  induction items with
  | nil => exact .pure _
  | cons item rest ih =>
    rw [Load.makePairs, Load.makePairs, List.mapM_cons, List.mapM_cons]
    refine .bind (.bind (InStep.pairOf what place item) fun e => ?_) fun _ =>
      .bind ih fun _ => .pure _
    exact .bind (h e.1) fun _ => .bind (h e.2) fun _ => .pure _

theorem InStep.items (h : ∀ k, InStep o active early (make k) (make' k)) (items : List Nat) :
    InStep o active early (items.forM fun item => discard (make item))
      (items.forM fun item => discard (make' item)) := by
  induction items with
  | nil => exact .pure _
  | cons item rest ih =>
    have one : InStep o active early (make item >>= fun _ => Pure.pure () : Load Unit)
        (make' item >>= fun _ => Pure.pure ()) := .bind (h item) fun _ => .pure _
    exact .bind one fun _ => ih

theorem InStep.complete (h : ∀ k, InStep o active early (make k) (make' k)) {n : Nat}
    (collection : IsCollection o n) :
    InStep o active early (Load.complete make n) (Load.complete make' n) := by
  have other : isTagged o Tag.mapping n = false := by
    obtain ⟨x, kind, there, tag⟩ := collection
    rw [Bool.eq_false_iff, Ne, isTagged_of_node there]
    intro mapping
    rw [mapping] at tag
    cases tag
  rw [Load.complete, Load.complete]
  refine .bind (.nodeAt n) fun node => ?_
  cases Load.collectionTag? node.tag with
  | none => exact .pure _
  | some kind =>
    cases kind with
    | sequence =>
      cases node.content with
      | sequence items => exact .bind (.items h items) fun _ => .refill collection rfl
      | scalar text => exact .complain _
      | mapping es => exact .complain _
    | set => exact .bind (.mapping h (.inr other)) fun _ => .refill collection rfl
    | pairList what =>
      cases node.content with
      | sequence items =>
        exact .bind (.makePairs h what _ items) fun _ => .refill collection rfl
      | scalar text => exact .complain _
      | mapping es => exact .complain _

theorem InStep.completeAll (h : ∀ k, InStep o active early (make k) (make' k)) (fuel : Nat) :
    InStep o active early (Load.completeAll make fuel) (Load.completeAll make' fuel) := by
  induction fuel with
  | zero => exact .breakDown _
  | succ fuel ih =>
    refine ⟨fun {s t} abreast => ?_⟩
    rw [Load.completeAll, Load.completeAll, Load.run_bind_of_ok Load.run_get,
      Load.run_bind_of_ok Load.run_get, abreast.waiting]
    cases waiting : s.waiting with
    | nil => exact .ok abreast
    | cons n rest =>
      have queue {i : Nat} (mem : i ∈ n :: rest) : IsCollection o i :=
        abreast.left.queue (waiting ▸ mem)
      have popped : Abreast o active early { s with waiting := rest } { t with waiting := rest } :=
        ⟨⟨abreast.left.from_.congr rfl rfl, abreast.left.active_eq, abreast.left.origin,
          abreast.left.touched, fun mem => queue (List.mem_cons_of_mem n mem)⟩,
          abreast.right.congr rfl rfl,
          abreast.nodes, abreast.active_eq, rfl, abreast.made⟩
      dsimp only
      rw [Load.run_bind_of_ok (Load.run_modify _), Load.run_bind_of_ok (Load.run_modify _)]
      exact ((InStep.complete h (queue List.mem_cons_self)).parallel popped).bind
        fun _ _ _ _ _ abreast => ih.parallel abreast

end Loading

end Yaml
end ApiManual
