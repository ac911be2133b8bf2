import ApiManual.Yaml.Load

/-!
# Steps of loading

A step of loading ends in a state or stops with a problem.  For each of the small steps
there is here what it does to a state, and for two steps one after the other what it
means that both succeed (`Load.bind_eq_ok`).  What is proved about loading opens its
state through these equations alone.
-/

namespace ApiManual
namespace Yaml

/-- Whether a node has a tag. -/
def Graph.isTagged (nodes : Array Node) (tag : String) (n : Nat) : Bool :=
  (nodes[n]?.map Node.tag) = some tag

/-- The nodes with other entries in one of them. -/
def Graph.withEntries (nodes : Array Node) (n : Nat) (es : List (Nat × Nat)) : Array Node :=
  nodes.modify n fun node => { node with content := .mapping es }

/-- What a node has been made into. -/
def Loading.madeOf (s : Loading) (n : Nat) : Option Made := s.made[n]?.join

/-- The state in which it has been recorded what the last node on its way was made into. -/
def Loading.recorded (s : Loading) (n : Nat) (m : Made) : Loading :=
  { s with made := s.made.setIfInBounds n (some m), active := s.active.tail }

theorem Loading.madeOf_recorded {s : Loading} {n i : Nat} {m : Made} (h : i ≠ n) :
    (s.recorded n m).madeOf i = s.madeOf i := by
  rw [madeOf, recorded, Array.getElem?_setIfInBounds_ne h.symm]
  rfl

theorem Loading.madeOf_record {s : Loading} {n i : Nat} {m : Made} (inside : n < s.made.size) :
    Loading.madeOf { s with made := s.made.setIfInBounds n (some m) } i =
      if i = n then some m else s.madeOf i := by
  rw [madeOf]
  by_cases same : i = n
  · subst same
    rw [if_pos rfl, Array.getElem?_setIfInBounds_self_of_lt inside]
    rfl
  · rw [if_neg same, Array.getElem?_setIfInBounds_ne (Ne.symm same)]
    rfl

/-- The state in which nothing has been made yet. -/
def Loading.begun (nodes : Array Node) : Loading :=
  ⟨nodes, Array.replicate nodes.size none, [], []⟩

theorem Loading.madeOf_begun (nodes : Array Node) (n : Nat) : (begun nodes).madeOf n = none := by
  rw [madeOf, begun, Array.getElem?_replicate]
  split <;> rfl

theorem Graph.load_of_root {g : Graph} {n : Nat} (root : g.root = some n) (unique : Bool) :
    g.load unique = ((Load.all unique n).run (Loading.begun g.nodes)).map
      fun r => ⟨r.2.made, some n⟩ := by
  rw [load, root, Loading.begun]
  dsimp only
  cases (Load.all unique n).run ⟨g.nodes, Array.replicate g.nodes.size none, [], []⟩ <;> rfl

namespace Load

variable {α β : Type} {s : Loading} {n : Nat}

theorem run_pure (a : α) : (pure a : Load α).run s = .ok (a, s) := rfl

theorem run_get : (get : Load Loading).run s = .ok (s, s) := rfl

theorem run_modify (f : Loading → Loading) : (modify f : Load Unit).run s = .ok ((), f s) := rfl

theorem run_madeOf : (madeOf n).run s = .ok (s.madeOf n, s) := rfl

theorem run_record (m : Made) :
    (record n m).run s = .ok ((), { s with made := s.made.setIfInBounds n (some m) }) := rfl

theorem run_hasTag (tag : String) :
    (hasTag tag n).run s = .ok (Graph.isTagged s.nodes tag n, s) := rfl

theorem run_entriesOf : (entriesOf n).run s = .ok (Graph.entries s.nodes n, s) := rfl

theorem run_setEntries (es : List (Nat × Nat)) :
    (setEntries n es).run s = .ok ((), { s with nodes := Graph.withEntries s.nodes n es }) := rfl

theorem run_nodeAt : (nodeAt n).run s = match s.nodes[n]? with
    | some node => .ok (node, s)
    | none => .error (.breakdown .endlessValue) := by
  show (match s.nodes[n]? with
    | some node => pure node
    | none => breakDown .endlessValue : Load Node).run s = _
  cases s.nodes[n]? <;> rfl

/-- A node that is looked at is there, and nothing changes. -/
theorem nodeAt_eq_ok {node : Node} {t : Loading} :
    (nodeAt n).run s = .ok (node, t) ↔ s.nodes[n]? = some node ∧ s = t := by
  rw [run_nodeAt]
  cases s.nodes[n]? <;> simp

/-- Two steps succeed when the second one does after the first. -/
theorem bind_eq_ok {x : Load α} {f : α → Load β} {r : β × Loading} :
    (x >>= f).run s = .ok r ↔ ∃ a t, x.run s = .ok (a, t) ∧ (f a).run t = .ok r := by
  rw [StateT.run_bind]
  cases x.run s with
  | error p => exact iff_of_false nofun nofun
  | ok r =>
    constructor
    · exact fun h => ⟨r.1, r.2, rfl, h⟩
    · rintro ⟨a, t, ⟨⟩, h⟩
      exact h

/-- A first step that succeeds leads to the second one. -/
theorem run_bind_of_ok {x : Load α} {f : α → Load β} {a : α} {t : Loading}
    (h : x.run s = .ok (a, t)) : (x >>= f).run s = (f a).run t := by
  rw [StateT.run_bind, h]
  rfl

/-- A first step that stops stops both. -/
theorem run_bind_of_error {x : Load α} {f : α → Load β} {p : Problem}
    (h : x.run s = .error p) : (x >>= f).run s = .error p := by
  rw [StateT.run_bind, h]
  rfl

/-- A node that has been made is not made again. -/
theorem run_make_of_made (unique : Bool) (fuel : Nat) {m : Made} (made : s.madeOf n = some m) :
    (make unique (fuel + 1) n).run s = .ok (m, s) := by
  rw [make, run_bind_of_ok run_madeOf, made]
  rfl

/-- A node that is being made cannot be made inside itself. -/
theorem run_make_of_active (unique : Bool) (fuel : Nat) (new : s.madeOf n = none)
    (active : n ∈ s.active) : (make unique (fuel + 1) n).run s =
      (nodeAt n >>= fun node => complain (.selfContained node.start)).run s := by
  have active : s.active.contains n = true := by simpa using active
  rw [make, run_bind_of_ok run_madeOf, new]
  dsimp only
  rw [run_bind_of_ok run_get, active, if_pos rfl, StateT.run_bind, StateT.run_bind, run_nodeAt]
  cases s.nodes[n]? <;> rfl

/-- A node that is new is made from what it holds. -/
theorem run_make_of_new (unique : Bool) (fuel : Nat) (new : s.madeOf n = none)
    (idle : n ∉ s.active) : (make unique (fuel + 1) n).run s =
      ((construct unique (make unique fuel) n).run { s with active := n :: s.active }).map
        fun r => (r.1, r.2.recorded n r.1) := by
  have idle : s.active.contains n = false := by simpa using idle
  rw [make, run_bind_of_ok run_madeOf, new]
  dsimp only
  rw [run_bind_of_ok run_get, idle, if_neg Bool.false_ne_true, run_bind_of_ok (run_modify _),
    StateT.run_bind]
  cases (construct unique (make unique fuel) n).run { s with active := n :: s.active } <;> rfl

end Load
end Yaml
end ApiManual
