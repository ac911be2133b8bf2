import ApiManual.Proofs.Json.AsYaml.Nodes
import ApiManual.Proofs.Yaml.Ordered

/-!
# The value of a JSON text

The nodes of a JSON text are in order (`isOrdered_of_tree`): a parent stands before its
parts, every atom is a scalar that can be read, and the names of an object are texts that
differ.  So the text is loaded, and what its nodes are made into is the value of the syntax
tree (`value_of_tree`).

Where the nodes of a part of the tree stand among all nodes is what `Stands` says; both
inductions follow the tree and cut the nodes as the tree is cut.
-/

namespace ApiManual
namespace Yaml

open Json (Tree Items Members Document)
open Yaml.Graph (IsOrderedAt keyed read?)

/-! ## Where nodes stand -/

/-- From a number on, these are the nodes. -/
def Stands (nodes : Array Node) (n : Nat) (ps : List Part) : Prop :=
  ∃ before behind, parts nodes = before ++ (ps ++ behind) ∧ before.length = n

namespace Stands

variable {nodes : Array Node} {n : Nat} {p : Part} {ps qs : List Part}

theorem head (h : Stands nodes n (p :: ps)) :
    ∃ x, nodes[n]? = some x ∧ x.tag = p.1 ∧ x.content = p.2 := by
  obtain ⟨before, behind, split, rfl⟩ := h
  have at_ : (parts nodes)[before.length]? = some p := by
    rw [split, List.getElem?_append_right (Nat.le_refl _), Nat.sub_self]
    rfl
  rw [parts, List.getElem?_map, Option.map_eq_some_iff] at at_
  obtain ⟨x, there, rfl⟩ := at_
  exact ⟨x, by rw [← Array.getElem?_toList, there], rfl, rfl⟩

theorem left (h : Stands nodes n (ps ++ qs)) : Stands nodes n ps := by
  obtain ⟨before, behind, split, size⟩ := h
  exact ⟨before, qs ++ behind, by rw [split, List.append_assoc], size⟩

theorem right (h : Stands nodes n (ps ++ qs)) : Stands nodes (n + ps.length) qs := by
  obtain ⟨before, behind, split, rfl⟩ := h
  exact ⟨before ++ ps, behind, by rw [split, List.append_assoc, List.append_assoc],
    List.length_append⟩

theorem tail (h : Stands nodes n (p :: ps)) : Stands nodes (n + 1) ps :=
  right (show Stands nodes n ([p] ++ ps) from h)

theorem le_size (h : Stands nodes n ps) : n + ps.length ≤ nodes.size := by
  obtain ⟨before, behind, split, rfl⟩ := h
  rw [← length_parts, split]
  simp

end Stands

/-! ## The nodes are in order -/

theorem treeSize_pos (t : Tree) : 0 < treeSize t := by
  cases t <;> simp [treeSize]

theorem mem_itemsNumbers {is : Items} {n j : Nat} (mem : j ∈ itemsNumbers is n) :
    n ≤ j ∧ j < n + itemsSize is := by
  cases is with
  | last _ item _ =>
    obtain rfl := List.mem_singleton.1 mem
    have pos := treeSize_pos item
    rw [itemsSize]
    omega
  | more _ item _ rest =>
    have pos := treeSize_pos item
    rw [itemsSize]
    rcases List.mem_cons.1 mem with rfl | mem
    · omega
    · have within := mem_itemsNumbers mem
      omega

theorem mem_membersNumbers {ms : Members} {n : Nat} {e : Nat × Nat}
    (mem : e ∈ membersNumbers ms n) : n ≤ e.1 ∧ n ≤ e.2 ∧ e.1 < n + membersSize ms ∧
      e.2 < n + membersSize ms := by
  cases ms with
  | last _ _ _ _ value _ =>
    obtain rfl := List.mem_singleton.1 mem
    have pos := treeSize_pos value
    rw [membersSize]
    omega
  | more _ _ _ _ value _ rest =>
    have pos := treeSize_pos value
    rw [membersSize]
    rcases List.mem_cons.1 mem with rfl | mem
    · omega
    · have within := mem_membersNumbers mem
      omega

/-- A node that holds a text in quotes is that text. -/
theorem read?_of_text {nodes : Array Node} {n : Nat} {ps : List Part} {text : String}
    (h : Stands nodes n ((Tag.text, .scalar text) :: ps)) :
    read? nodes n = some (.text text) := by
  obtain ⟨x, there, tag, content⟩ := h.head
  dsimp only at tag content
  have known : Load.scalarTag? Tag.text = some .text := rfl
  rw [read?, there, Option.bind_some, Node.scalar?, tag, content, known]
  rfl

/-- A node that holds an atom is read as the atom. -/
theorem read?_of_atom {nodes : Array Node} {n : Nat} {ps : List Part} {a : Json.Atom}
    (isYaml : a.isYaml = true) (h : Stands nodes n ((atomTag a, .scalar (atomText a)) :: ps)) :
    read? nodes n = some a.scalar := by
  obtain ⟨x, there, tag, content⟩ := h.head
  dsimp only at tag content
  obtain ⟨kind, known, reads⟩ := scalar_atom isYaml
  rw [read?, there, Option.bind_some, Node.scalar?, tag, content, known]
  dsimp only
  rw [Load.readScalar, reads]
  rfl

/-- The keys of the nodes of members are their names. -/
theorem read?_of_members {nodes : Array Node} {ms : Members} {n : Nat}
    (h : Stands nodes n (membersParts ms n)) :
    (membersNumbers ms n).map (fun e => read? nodes e.1) =
      ms.names.map fun name => some (.text name) := by
  cases ms with
  | last _ key _ _ value _ =>
    rw [membersParts] at h
    exact congrArg (fun key => [key]) (read?_of_text h)
  | more _ key _ _ value _ rest =>
    rw [membersParts] at h
    have behind := h.tail.right
    rw [length_treeParts, Nat.add_assoc, Nat.add_comm 1] at behind
    rw [membersNumbers, List.map_cons, read?_of_text h, read?_of_members behind]
    rfl

/-- Names that differ are keys that differ. -/
theorem hasKeysOnce_of_members {nodes : Array Node} {ms : Members} {n : Nat}
    (h : Stands nodes n (membersParts ms n)) (differ : ms.names.Nodup) :
    HasKeysOnce ((membersNumbers ms n).map (keyed nodes)) := by
  have keys : ((membersNumbers ms n).map fun e => read? nodes e.1).Pairwise
      fun a b => (a.getD .null).sameKey (b.getD .null) = false := by
    rw [read?_of_members h, List.pairwise_map]
    refine differ.imp fun {a b} ne => ?_
    simp [Scalar.sameKey, Scalar.identity, ne]
  exact List.pairwise_map.2 (List.pairwise_map.1 keys)

/-- The keys of members can be read. -/
theorem isSome_read?_of_members {nodes : Array Node} {ms : Members} {n : Nat}
    (h : Stands nodes n (membersParts ms n)) {e : Nat × Nat} (mem : e ∈ membersNumbers ms n) :
    (read? nodes e.1).isSome := by
  have mem := List.mem_map_of_mem (f := fun e => read? nodes e.1) mem
  rw [read?_of_members h, List.mem_map] at mem
  obtain ⟨name, -, same⟩ := mem
  rw [← same]
  rfl

mutual

/-- The nodes of a value are in order. -/
theorem isOrderedAt_of_tree {nodes : Array Node} (t : Tree) {n i : Nat}
    (h : Stands nodes n (treeParts t n)) (isYaml : t.isYaml = true)
    (differ : t.namesDiffer = true) (from_ : n ≤ i) (below : i < n + treeSize t) :
    IsOrderedAt nodes i := by
  have size := h.le_size
  rw [length_treeParts] at size
  cases t with
  | atom a =>
    obtain rfl : i = n := by rw [treeSize] at below; omega
    exact .scalar (read?_of_atom isYaml h)
  | emptyList inside =>
    obtain rfl : i = n := by rw [treeSize] at below; omega
    obtain ⟨x, there, tag, content⟩ := h.head
    exact .sequence there tag content nofun
  | emptyObject inside =>
    obtain rfl : i = n := by rw [treeSize] at below; omega
    obtain ⟨x, there, tag, content⟩ := h.head
    exact .mapping there tag content nofun nofun List.Pairwise.nil
  | list items =>
    rw [treeSize] at size below
    rw [treeParts] at h
    rcases Nat.eq_or_lt_of_le from_ with rfl | behind
    · obtain ⟨x, there, tag, content⟩ := h.head
      refine .sequence there tag content fun j mem => ?_
      have within := mem_itemsNumbers mem
      omega
    · exact isOrderedAt_of_items items h.tail isYaml differ behind (by omega)
  | object members =>
    rw [treeSize] at size below
    rw [treeParts] at h
    simp only [Tree.namesDiffer, Bool.and_eq_true, decide_eq_true_eq] at differ
    rcases Nat.eq_or_lt_of_le from_ with rfl | behind
    · obtain ⟨x, there, tag, content⟩ := h.head
      refine .mapping there tag content (fun e mem => ?_)
        (fun e mem => isSome_read?_of_members h.tail mem) (hasKeysOnce_of_members h.tail differ.1)
      have within := mem_membersNumbers mem
      omega
    · exact isOrderedAt_of_members members h.tail isYaml differ.2 behind (by omega)

/-- The nodes of items are in order. -/
theorem isOrderedAt_of_items {nodes : Array Node} (is : Items) {n i : Nat}
    (h : Stands nodes n (itemsParts is n)) (isYaml : is.isYaml = true)
    (differ : is.namesDiffer = true) (from_ : n ≤ i) (below : i < n + itemsSize is) :
    IsOrderedAt nodes i := by
  cases is with
  | last _ item _ =>
    simp only [Items.isYaml, Bool.and_eq_true] at isYaml
    exact isOrderedAt_of_tree item h isYaml.1.2 differ from_ below
  | more _ item _ rest =>
    simp only [Items.isYaml, Items.namesDiffer, Bool.and_eq_true] at isYaml differ
    rw [itemsSize] at below
    rw [itemsParts] at h
    have behind := h.right
    rw [length_treeParts] at behind
    rcases Nat.lt_or_ge i (n + treeSize item) with inside | outside
    · exact isOrderedAt_of_tree item h.left isYaml.1.1.2 differ.1 from_ inside
    · exact isOrderedAt_of_items rest behind isYaml.2 differ.2 outside (by omega)

/-- The nodes of members are in order. -/
theorem isOrderedAt_of_members {nodes : Array Node} (ms : Members) {n i : Nat}
    (h : Stands nodes n (membersParts ms n)) (isYaml : ms.isYaml = true)
    (differ : ms.namesDiffer = true) (from_ : n ≤ i) (below : i < n + membersSize ms) :
    IsOrderedAt nodes i := by
  cases ms with
  | last _ key _ _ value _ =>
    simp only [Members.isYaml, Bool.and_eq_true] at isYaml
    rw [membersSize] at below
    rw [membersParts] at h
    rcases Nat.eq_or_lt_of_le from_ with rfl | inside
    · exact .scalar (read?_of_text h)
    · exact isOrderedAt_of_tree value h.tail isYaml.1.2 differ inside (by omega)
  | more _ key _ _ value _ rest =>
    simp only [Members.isYaml, Members.namesDiffer, Bool.and_eq_true] at isYaml differ
    rw [membersSize] at below
    rw [membersParts] at h
    have behind := h.tail.right
    rw [length_treeParts, Nat.add_assoc, Nat.add_comm 1] at behind
    rcases Nat.eq_or_lt_of_le from_ with rfl | inside
    · exact .scalar (read?_of_text h)
    rcases Nat.lt_or_ge i (n + (treeSize value + 1)) with before | outside
    · exact isOrderedAt_of_tree value h.tail.left isYaml.1.1.2 differ.1 inside (by omega)
    · exact isOrderedAt_of_members rest behind isYaml.2 differ.2 outside (by omega)

end

/-! ## The value that they are made into -/

section

variable {s : Loading} {outer : List Nat} {n fuel : Nat}

/-- A node behind all those around it is none of them. -/
theorem contains_of_fresh (fresh : ∀ i ∈ outer, i < n) : outer.contains n = false := by
  rw [Bool.eq_false_iff, Ne, List.contains_iff_mem]
  exact fun mem => Nat.lt_irrefl n (fresh n mem)

theorem value_of_scalar {a : Scalar} (made : s.madeOf n = some (.scalar a))
    (fresh : ∀ i ∈ outer, i < n) :
    Made.value s.made (fuel + 1) false outer n = .ok (.scalar a) := by
  rw [Loading.madeOf] at made
  rw [Made.value, contains_of_fresh fresh, made]
  rfl

theorem value_of_list {items : List Nat} (made : s.madeOf n = some (.list items))
    (fresh : ∀ i ∈ outer, i < n) : Made.value s.made (fuel + 1) false outer n =
      .list <$> items.mapM (Made.value s.made fuel false (n :: outer)) := by
  rw [Loading.madeOf] at made
  rw [Made.value, contains_of_fresh fresh, made]
  rfl

theorem value_of_map {es : List (Scalar × Nat)} (made : s.madeOf n = some (.map es))
    (fresh : ∀ i ∈ outer, i < n) : Made.value s.made (fuel + 1) false outer n =
      .map <$> es.mapM fun e => (e.1, ·) <$> Made.value s.made fuel false (n :: outer) e.2 := by
  rw [Loading.madeOf] at made
  rw [Made.value, contains_of_fresh fresh, made]
  rfl

end

section

variable {nodes : Array Node} {s : Loading}

open Loading (Done)

mutual

/-- The value of the nodes of a tree is its value. -/
theorem value_of_tree (done : ∀ i, s.HasMade i → Done nodes s i) (t : Tree)
    {n fuel : Nat} {outer : List Nat} (h : Stands nodes n (treeParts t n))
    (isYaml : t.isYaml = true) (made : s.HasMade n)
    (fresh : ∀ i ∈ outer, i < n) (enough : treeSize t ≤ fuel) :
    Made.value s.made fuel false outer n = .ok t.value := by
  obtain ⟨fuel, rfl⟩ := Nat.exists_eq_add_of_le' (Nat.le_trans (treeSize_pos t) enough)
  obtain ⟨final, parts⟩ := done n made
  have within : ∀ i ∈ n :: outer, i < n + 1 :=
    List.forall_mem_cons.2 ⟨n.lt_succ_self, fun i mem => Nat.lt_succ_of_lt (fresh i mem)⟩
  cases t with
  | atom a =>
    rw [Graph.final_of_read? (read?_of_atom isYaml h)] at final
    exact value_of_scalar final fresh
  | emptyList inside =>
    obtain ⟨x, there, -, content⟩ := h.head
    rw [Graph.final_of_sequence there content] at final
    exact value_of_list final fresh
  | emptyObject inside =>
    obtain ⟨x, there, -, content⟩ := h.head
    rw [Graph.final_of_mapping there content] at final
    exact value_of_map final fresh
  | list items =>
    rw [treeParts] at h
    rw [treeSize] at enough
    obtain ⟨x, there, -, content⟩ := h.head
    rw [Graph.final_of_sequence there content] at final parts
    rw [value_of_list final fresh, values_of_items done items h.tail isYaml parts within
      (Nat.le_of_succ_le_succ enough)]
    rfl
  | object members =>
    rw [treeParts] at h
    rw [treeSize] at enough
    obtain ⟨x, there, -, content⟩ := h.head
    rw [Graph.final_of_mapping there content] at final parts
    have made : ∀ e ∈ membersNumbers members (n + 1), s.HasMade e.2 := fun e mem =>
      parts e.2 (List.mem_map_of_mem (List.mem_map_of_mem mem))
    rw [value_of_map final fresh, entries_of_members done members h.tail isYaml made within
      (Nat.le_of_succ_le_succ enough)]
    rfl

/-- The values of items are read in their order. -/
theorem values_of_items (done : ∀ i, s.HasMade i → Done nodes s i) (is : Items)
    {n fuel : Nat} {outer : List Nat} (h : Stands nodes n (itemsParts is n))
    (isYaml : is.isYaml = true) (made : ∀ i ∈ itemsNumbers is n, s.HasMade i)
    (fresh : ∀ i ∈ outer, i < n) (enough : itemsSize is ≤ fuel) :
    (itemsNumbers is n).mapM (Made.value s.made fuel false outer) = .ok is.values := by
  cases is with
  | last _ item _ =>
    simp only [Items.isYaml, Bool.and_eq_true] at isYaml
    rw [itemsNumbers, List.forall_mem_singleton] at made
    rw [itemsNumbers, List.mapM_cons, value_of_tree done item h isYaml.1.2 made fresh enough]
    rfl
  | more _ item _ rest =>
    simp only [Items.isYaml, Bool.and_eq_true] at isYaml
    rw [itemsNumbers, List.forall_mem_cons] at made
    rw [itemsParts] at h
    rw [itemsSize] at enough
    have behind := h.right
    rw [length_treeParts] at behind
    rw [itemsNumbers, List.mapM_cons, value_of_tree done item h.left isYaml.1.1.2 made.1 fresh
      (by omega), values_of_items done rest behind isYaml.2 made.2
        (fun i mem => Nat.lt_add_right _ (fresh i mem)) (by omega)]
    rfl

/-- The values of members are read in their order. -/
theorem entries_of_members (done : ∀ i, s.HasMade i → Done nodes s i) (ms : Members)
    {n fuel : Nat} {outer : List Nat} (h : Stands nodes n (membersParts ms n))
    (isYaml : ms.isYaml = true) (made : ∀ e ∈ membersNumbers ms n, s.HasMade e.2)
    (fresh : ∀ i ∈ outer, i < n) (enough : membersSize ms ≤ fuel) :
    ((membersNumbers ms n).map (keyed nodes)).mapM
      (fun e => (e.1, ·) <$> Made.value s.made fuel false outer e.2) = .ok ms.entries := by
  have keyed_of {key : Json.Pieces} {ps : List Part}
      (h : Stands nodes n ((Tag.text, .scalar key.text) :: ps)) :
      keyed nodes (n, n + 1) = (.text key.text, n + 1) := by
    rw [keyed, read?_of_text h]
    rfl
  cases ms with
  | last _ key _ _ value _ =>
    simp only [Members.isYaml, Bool.and_eq_true] at isYaml
    rw [membersNumbers, List.forall_mem_singleton] at made
    rw [membersParts] at h
    rw [membersSize] at enough
    rw [membersNumbers, List.map_cons, keyed_of h, List.mapM_cons,
      value_of_tree done value h.tail isYaml.1.2 made
        (fun i mem => Nat.lt_succ_of_lt (fresh i mem)) (by omega)]
    rfl
  | more _ key _ _ value _ rest =>
    simp only [Members.isYaml, Bool.and_eq_true] at isYaml
    rw [membersNumbers, List.forall_mem_cons] at made
    rw [membersParts] at h
    rw [membersSize] at enough
    have behind := h.tail.right
    rw [length_treeParts, Nat.add_assoc, Nat.add_comm 1] at behind
    rw [membersNumbers, List.map_cons, keyed_of h, List.mapM_cons,
      value_of_tree done value h.tail.left isYaml.1.1.2 made.1
        (fun i mem => Nat.lt_succ_of_lt (fresh i mem)) (by omega),
      entries_of_members done rest behind isYaml.2 made.2
        (fun i mem => Nat.lt_add_right _ (fresh i mem)) (by omega)]
    rfl

end

end

end Yaml
end ApiManual
