import ApiManual.Proofs.Json.AsYaml.Tokens

/-!
# The nodes of a JSON text

From its tokens a JSON text becomes the nodes of its syntax tree, one for each value and
one for each name, a parent before its parts (`graph_of_document`).  No tag, no anchor
and no alias is written, so the numbers of the nodes follow from the tree alone.

The grammar of YAML enters a collection when it starts and fills it when it ends.  In
between only nodes behind it are entered, so what has been entered is always a row of
finished nodes (`parts`), and the induction says by which row it gets longer.
-/

namespace ApiManual
namespace Yaml

open Descriptor (unifiedLines)
open Json (Tree Items Members Document)

/-! ## The nodes of a tree -/

mutual

/-- How many nodes a value has. -/
def treeSize : Tree → Nat
  | .atom _ | .emptyList _ | .emptyObject _ => 1
  | .list items => itemsSize items + 1
  | .object members => membersSize members + 1

/-- How many nodes items have. -/
def itemsSize : Items → Nat
  | .last _ item _ => treeSize item
  | .more _ item _ rest => treeSize item + itemsSize rest

/-- How many nodes members have, their names among them. -/
def membersSize : Members → Nat
  | .last _ _ _ _ value _ => treeSize value + 1
  | .more _ _ _ _ value _ rest => treeSize value + 1 + membersSize rest

end

/-- The numbers of items, of which the first one has a given number. -/
def itemsNumbers : Items → Nat → List Nat
  | .last _ _ _, n => [n]
  | .more _ item _ rest, n => n :: itemsNumbers rest (n + treeSize item)

/-- The numbers of members, of which the first name has a given number. -/
def membersNumbers : Members → Nat → List (Nat × Nat)
  | .last _ _ _ _ _ _, n => [(n, n + 1)]
  | .more _ _ _ _ value _ rest, n => (n, n + 1) :: membersNumbers rest (n + (treeSize value + 1))

/-- What matters of a node: its tag and what it holds. -/
abbrev Part := String × Content

mutual

/-- The nodes of a value, of which the first one has a given number. -/
def treeParts : Tree → Nat → List Part
  | .atom a, _ => [(atomTag a, .scalar (atomText a))]
  | .emptyList _, _ => [(Tag.sequence, .sequence [])]
  | .list items, n =>
    (Tag.sequence, .sequence (itemsNumbers items (n + 1))) :: itemsParts items (n + 1)
  | .emptyObject _, _ => [(Tag.mapping, .mapping [])]
  | .object members, n =>
    (Tag.mapping, .mapping (membersNumbers members (n + 1))) :: membersParts members (n + 1)

/-- The nodes of items. -/
def itemsParts : Items → Nat → List Part
  | .last _ item _, n => treeParts item n
  | .more _ item _ rest, n => treeParts item n ++ itemsParts rest (n + treeSize item)

/-- The nodes of members. -/
def membersParts : Members → Nat → List Part
  | .last _ key _ _ value _, n => (Tag.text, .scalar key.text) :: treeParts value (n + 1)
  | .more _ key _ _ value _ rest, n =>
    (Tag.text, .scalar key.text) ::
      (treeParts value (n + 1) ++ membersParts rest (n + (treeSize value + 1)))

end

/-- The tags of nodes and what they hold. -/
def parts (nodes : Array Node) : List Part := nodes.toList.map fun n => (n.tag, n.content)

@[simp] theorem length_parts (nodes : Array Node) : (parts nodes).length = nodes.size := by
  simp [parts]

@[simp] theorem parts_push (nodes : Array Node) (n : Node) :
    parts (nodes.push n) = parts nodes ++ [(n.tag, n.content)] := by simp [parts]

mutual

theorem length_treeParts (t : Tree) (n : Nat) : (treeParts t n).length = treeSize t := by
  cases t with
  | atom | emptyList | emptyObject => rfl
  | list is => simp [treeParts, treeSize, length_itemsParts is]
  | object ms => simp [treeParts, treeSize, length_membersParts ms]

theorem length_itemsParts (is : Items) (n : Nat) : (itemsParts is n).length = itemsSize is := by
  cases is with
  | last _ item _ => simp [itemsParts, itemsSize, length_treeParts item]
  | more _ item _ rest =>
    simp [itemsParts, itemsSize, length_treeParts item, length_itemsParts rest]

theorem length_membersParts (ms : Members) (n : Nat) :
    (membersParts ms n).length = membersSize ms := by
  cases ms with
  | last _ _ _ _ value _ => simp [membersParts, membersSize, length_treeParts value]
  | more _ _ _ _ value _ rest =>
    simp [membersParts, membersSize, length_treeParts value, length_membersParts rest]
    omega

end

/-- What a node in between holds may be said later. -/
theorem parts_fill {nodes : Array Node} {before behind : List Part} {tag : String}
    {content : Content} (n : Nat) (now : Content)
    (held : parts nodes = before ++ (tag, content) :: behind) (place : before.length = n) :
    parts (nodes.modify n fun node => { node with content := now }) =
      before ++ (tag, now) :: behind := by
  obtain ⟨A, tail, split, rfl, ends⟩ := List.map_eq_append_iff.mp held
  obtain ⟨node, B, rfl, atNode, rfl⟩ := List.map_eq_cons_iff.mp ends
  rw [List.length_map] at place
  have tagged : node.tag = tag := congrArg Prod.fst atNode
  rw [parts, Array.toList_modify, split, ← place, List.modify_eq_take_cons_drop (by simp)]
  simp [tagged]

/-! ## Steps of the grammar -/

namespace Grow

section

variable {α β : Type} {g : Growth} {t : Token} {rest : List Token}

theorem run_bind_of_ok {x : Grow α} {f : α → Grow β} {a : α} {h : Growth}
    (first : x.run g = .ok (a, h)) : (x >>= f).run g = (f a).run h := by
  rw [StateT.run_bind, first]
  rfl

theorem run_get (g : Growth) : (get : Grow Growth).run g = .ok (g, g) := rfl

theorem run_peek (tokens : g.tokens = t :: rest) : peek.run g = .ok (t, g) := by
  rw [peek, run_bind_of_ok (run_get g), tokens]
  rfl

theorem run_advance (tokens : g.tokens = t :: rest) :
    advance.run g = .ok ((), { g with tokens := rest }) := by
  show Except.ok ((), { g with tokens := g.tokens.tail }) = _
  rw [tokens]
  rfl

theorem run_accept_of_eq {kind : TokenKind} (tokens : g.tokens = t :: rest) (eq : t.kind = kind) :
    (accept kind).run g = .ok (true, { g with tokens := rest }) := by
  rw [accept, run_bind_of_ok (run_peek tokens), if_pos eq]
  rw [run_bind_of_ok (run_advance tokens)]
  rfl

theorem run_accept_of_ne {kind : TokenKind} (tokens : g.tokens = t :: rest) (ne : t.kind ≠ kind) :
    (accept kind).run g = .ok (false, g) := by
  rw [accept, run_bind_of_ok (run_peek tokens), if_neg ne]
  rfl

theorem run_expect {kind : TokenKind} (tokens : g.tokens = t :: rest) (eq : t.kind = kind) :
    (expect kind).run g = .ok ((), { g with tokens := rest }) := by
  rw [expect, run_bind_of_ok (run_accept_of_eq tokens eq)]
  rfl

/-- The kinds of token at which the nodes of a JSON text start. -/
inductive StartsNode : TokenKind → Prop
  | scalar (text : String) (plain : Bool) : StartsNode (.scalar text plain)
  | sequence : StartsNode .flowSequenceStart
  | mapping : StartsNode .flowMappingStart

theorem run_tag (tokens : g.tokens = t :: rest) (starts : StartsNode t.kind) :
    tag?.run g = .ok (none, g) := by
  rw [tag?, run_bind_of_ok (run_peek tokens)]
  generalize t.kind = kind at starts
  cases starts <;> rfl

theorem run_anchor (tokens : g.tokens = t :: rest) (starts : StartsNode t.kind) :
    anchor?.run g = .ok (none, g) := by
  rw [anchor?, run_bind_of_ok (run_peek tokens)]
  generalize t.kind = kind at starts
  cases starts <;> rfl

/-- Nothing stands before the nodes of a JSON text. -/
theorem run_properties (tokens : g.tokens = t :: rest) (starts : StartsNode t.kind) :
    properties.run g = .ok (⟨none, none, t.start⟩, g) := by
  rw [properties, run_bind_of_ok (run_peek tokens)]
  dsimp only
  rw [run_bind_of_ok (run_anchor tokens starts)]
  dsimp only
  rw [run_bind_of_ok (run_tag tokens starts)]
  rfl

/-- What a node starts with says how it is read. -/
theorem run_node_scalar (fuel : Nat) (block indentless : Bool) {text : String} {plain : Bool}
    (tokens : g.tokens = t :: rest) (kind : t.kind = .scalar text plain) :
    (node (fuel + 1) block indentless).run g = .ok (g.nodes.size, { g with
      tokens := rest
      nodes := g.nodes.push
        ⟨if plain then Implicit.tag text else Tag.text, t.start, .scalar text⟩ }) := by
  have starts : StartsNode t.kind := kind ▸ .scalar text plain
  rw [node, run_bind_of_ok (run_peek tokens), kind]
  dsimp only
  rw [run_bind_of_ok (run_properties tokens starts), run_bind_of_ok (run_peek tokens), kind]
  dsimp only
  rw [run_bind_of_ok (run_advance tokens)]
  cases plain <;> rfl

/-- A collection is entered, its parts are read, and it is filled with them. -/
theorem run_filled {h : Growth} {parts : α} {start : Mark} (tag : String) (empty : Content)
    (inside : Grow α) (content : α → Content)
    (read : inside.run { g with nodes := g.nodes.push ⟨tag, start, empty⟩ } = .ok (parts, h)) :
    (do
      let n ← enterNamed ⟨none, none, start⟩ tag empty
      fill n (content (← inside))
      return n : Grow Nat).run g = .ok (g.nodes.size, { h with
        nodes := h.nodes.modify g.nodes.size fun v => { v with content := content parts } }) := by
  have entered : (enterNamed ⟨none, none, start⟩ tag empty).run g =
    .ok (g.nodes.size, { g with nodes := g.nodes.push ⟨tag, start, empty⟩ }) := rfl
  rw [run_bind_of_ok entered, run_bind_of_ok read]
  rfl

theorem run_node_sequence (fuel : Nat) (block indentless : Bool) {h : Growth} {items : List Nat}
    (tokens : g.tokens = t :: rest) (kind : t.kind = .flowSequenceStart)
    (read : (flowItems fuel true).run { g with
      tokens := rest, nodes := g.nodes.push ⟨Tag.sequence, t.start, .sequence []⟩ } =
        .ok (items, h)) :
    (node (fuel + 1) block indentless).run g = .ok (g.nodes.size, { h with
      nodes := h.nodes.modify g.nodes.size fun node =>
        { node with content := .sequence items } }) := by
  have starts : StartsNode t.kind := kind ▸ .sequence
  rw [node, run_bind_of_ok (run_peek tokens), kind]
  dsimp only
  rw [run_bind_of_ok (run_properties tokens starts), run_bind_of_ok (run_peek tokens), kind]
  exact run_filled Tag.sequence _ (do advance; flowItems fuel true) .sequence
    ((run_bind_of_ok (run_advance (by exact tokens))).trans read)

theorem run_node_mapping (fuel : Nat) (block indentless : Bool) {h : Growth}
    {entries : List (Nat × Nat)} (tokens : g.tokens = t :: rest)
    (kind : t.kind = .flowMappingStart)
    (read : (flowEntries fuel true).run { g with
      tokens := rest, nodes := g.nodes.push ⟨Tag.mapping, t.start, .mapping []⟩ } =
        .ok (entries, h)) :
    (node (fuel + 1) block indentless).run g = .ok (g.nodes.size, { h with
      nodes := h.nodes.modify g.nodes.size fun node =>
        { node with content := .mapping entries } }) := by
  have starts : StartsNode t.kind := kind ▸ .mapping
  rw [node, run_bind_of_ok (run_peek tokens), kind]
  dsimp only
  rw [run_bind_of_ok (run_properties tokens starts), run_bind_of_ok (run_peek tokens), kind]
  exact run_filled Tag.mapping _ (do advance; flowEntries fuel true) .mapping
    ((run_bind_of_ok (run_advance (by exact tokens))).trans read)

theorem StartsNode.ne {kind other : TokenKind} (starts : StartsNode kind)
    (not : ¬ StartsNode other) : kind ≠ other := by
  rintro rfl
  exact not starts

/-- The items end at the bracket. -/
theorem run_flowItems_end (fuel : Nat) (first : Bool) (tokens : g.tokens = t :: rest)
    (kind : t.kind = .flowSequenceEnd) :
    (flowItems (fuel + 1) first).run g = .ok ([], { g with tokens := rest }) := by
  rw [flowItems, run_bind_of_ok (run_accept_of_eq tokens kind), if_pos rfl]
  rfl

/-- The entries end at the brace. -/
theorem run_flowEntries_end (fuel : Nat) (first : Bool) (tokens : g.tokens = t :: rest)
    (kind : t.kind = .flowMappingEnd) :
    (flowEntries (fuel + 1) first).run g = .ok ([], { g with tokens := rest }) := by
  rw [flowEntries, run_bind_of_ok (run_accept_of_eq tokens kind), if_pos rfl]
  rfl

/-- The comma before all items but the first one. -/
def comma (first : Bool) : List TokenKind := if first then [] else [.flowEntry]

/-- The comma is gone over. -/
theorem run_comma (first : Bool) {commas : List Token} (next : Unit → Grow α)
    (tokens : g.tokens = commas ++ rest) (kinds : commas.map Token.kind = comma first) :
    (if !first then expect .flowEntry >>= next else next ()).run g =
      (next ()).run { g with tokens := rest } := by
  cases first with
  | true =>
    obtain rfl : commas = [] := List.map_eq_nil_iff.mp kinds
    cases g
    subst tokens
    rfl
  | false =>
    obtain ⟨c, commas, rfl, kind, none⟩ := List.map_eq_cons_iff.mp kinds
    obtain rfl : commas = [] := List.map_eq_nil_iff.mp none
    exact run_bind_of_ok (run_expect tokens kind)

/-- Neither a comma nor the start of something ends a collection. -/
theorem run_accept_of_comma (first : Bool) {commas : List Token} (kind : TokenKind)
    (tokens : g.tokens = commas ++ t :: rest) (kinds : commas.map Token.kind = comma first)
    (entry : kind ≠ .flowEntry) (ne : t.kind ≠ kind) :
    (accept kind).run g = .ok (false, g) := by
  cases first with
  | true =>
    obtain rfl : commas = [] := List.map_eq_nil_iff.mp kinds
    exact run_accept_of_ne tokens ne
  | false =>
    obtain ⟨c, commas, rfl, isComma, none⟩ := List.map_eq_cons_iff.mp kinds
    exact run_accept_of_ne tokens (isComma ▸ entry.symm)

/-- An item is a node. -/
theorem run_flowItems_item (fuel : Nat) (first : Bool) {commas : List Token} {n : Nat}
    {ns : List Nat} {h k : Growth} (tokens : g.tokens = commas ++ t :: rest)
    (kinds : commas.map Token.kind = comma first) (starts : StartsNode t.kind)
    (item : (node fuel false false).run { g with tokens := t :: rest } = .ok (n, h))
    (items : (flowItems fuel false).run h = .ok (ns, k)) :
    (flowItems (fuel + 1) first).run g = .ok (n :: ns, k) := by
  have noEnd : t.kind ≠ .flowSequenceEnd := starts.ne nofun
  have noKey : t.kind ≠ .key := starts.ne nofun
  have ended := run_accept_of_comma first .flowSequenceEnd tokens kinds nofun noEnd
  have next : { g with tokens := t :: rest }.tokens = t :: rest := rfl
  rw [flowItems, run_bind_of_ok ended, if_neg Bool.false_ne_true]
  refine (run_comma first _ tokens kinds).trans ?_
  rw [run_bind_of_ok (run_peek next)]
  rw [run_bind_of_ok (run_accept_of_ne next noKey), if_neg Bool.false_ne_true]
  rw [run_bind_of_ok (run_accept_of_ne next noEnd), if_neg Bool.false_ne_true]
  rw [run_bind_of_ok item, run_bind_of_ok items]
  rfl

/-- What is written is read. -/
theorem run_orEmpty {kinds : List TokenKind} (place : Mark) (written : Grow Nat)
    (tokens : g.tokens = t :: rest) (other : kinds.contains t.kind = false) :
    (orEmpty kinds place written).run g = written.run g := by
  have next : (nextIs kinds).run g = .ok (false, g) := by
    rw [nextIs, run_bind_of_ok (run_peek tokens), other]
    rfl
  rw [orEmpty, run_bind_of_ok next, if_neg Bool.false_ne_true]

/-- A value that is written behind its colon is read. -/
theorem run_valueOrEmpty {kinds : List TokenKind} {v : Token} (written : Grow Nat)
    (tokens : g.tokens = v :: t :: rest) (colon : v.kind = .value)
    (other : kinds.contains t.kind = false) :
    (valueOrEmpty kinds written).run g = written.run { g with tokens := t :: rest } := by
  rw [valueOrEmpty, run_bind_of_ok (run_peek tokens)]
  rw [run_bind_of_ok (run_accept_of_eq tokens colon), if_pos rfl]
  exact run_orEmpty _ _ rfl other

/-- An entry is a node, a colon, and another node. -/
theorem run_flowEntries_entry (fuel : Nat) (first : Bool) {commas behind : List Token}
    {k s v : Token} {m n : Nat} {ns : List (Nat × Nat)} {h i j : Growth}
    (tokens : g.tokens = commas ++ k :: s :: rest)
    (kinds : commas.map Token.kind = comma first) (isKey : k.kind = .key)
    (startsKey : StartsNode s.kind) (colon : v.kind = .value) (startsValue : StartsNode t.kind)
    (key : (node fuel false false).run { g with tokens := s :: rest } = .ok (m, h))
    (left : h.tokens = v :: t :: behind)
    (value : (node fuel false false).run { h with tokens := t :: behind } = .ok (n, i))
    (entries : (flowEntries fuel false).run i = .ok (ns, j)) :
    (flowEntries (fuel + 1) first).run g = .ok ((m, n) :: ns, j) := by
  have ended := run_accept_of_comma first .flowMappingEnd tokens kinds nofun (isKey ▸ nofun)
  have next : { g with tokens := k :: s :: rest }.tokens = k :: s :: rest := rfl
  have noKind {kind : TokenKind} (starts : StartsNode kind) :
      [TokenKind.value, .flowEntry, .flowMappingEnd].contains kind = false ∧
        [TokenKind.flowEntry, .flowMappingEnd].contains kind = false := by
    cases starts <;> exact ⟨rfl, rfl⟩
  rw [flowEntries, run_bind_of_ok ended, if_neg Bool.false_ne_true]
  refine (run_comma first _ tokens kinds).trans ?_
  rw [run_bind_of_ok (run_peek next)]
  rw [run_bind_of_ok (run_accept_of_eq next isKey), if_pos rfl]
  rw [run_bind_of_ok ((run_orEmpty _ _ rfl (noKind startsKey).1).trans key)]
  rw [run_bind_of_ok ((run_valueOrEmpty _ left colon (noKind startsValue).2).trans value)]
  rw [run_bind_of_ok entries]
  rfl

end

/-! ## Reading a tree -/

/-- After a part of a text has been read, only the tokens behind it are left, and its nodes
have been entered behind those that were there. -/
structure Grown (g h : Growth) (ks : List TokenKind) (ps : List Part) : Prop where
  left : h.tokens.map Token.kind = ks
  nodes : parts h.nodes = parts g.nodes ++ ps

theorem Grown.size {g h : Growth} {ks : List TokenKind} {ps : List Part} (grown : Grown g h ks ps) :
    h.nodes.size = g.nodes.size + ps.length := by
  rw [← length_parts, grown.nodes, List.length_append, length_parts]

theorem Grown.trans {g h i : Growth} {ks ks' : List TokenKind} {ps ps' : List Part}
    (first : Grown g h ks ps) (second : Grown h i ks' ps') : Grown g i ks' (ps ++ ps') where
  left := second.left
  nodes := by rw [second.nodes, first.nodes, List.append_assoc]

/-- The first token of a value. -/
theorem exists_treeTokens (t : Tree) :
    ∃ k ks, treeTokens t = k :: ks ∧ StartsNode k := by
  cases t with
  | atom a => exact ⟨_, _, rfl, .scalar _ _⟩
  | emptyList _ => exact ⟨_, _, rfl, .sequence⟩
  | list _ => exact ⟨_, _, rfl, .sequence⟩
  | emptyObject _ => exact ⟨_, _, rfl, .mapping⟩
  | object _ => exact ⟨_, _, rfl, .mapping⟩

/-- A step that reads a part of a text: what it results in, and by what the nodes grow. -/
def Grows {α : Type} (step : Grow α) (g : Growth) (a : α) (ks : List TokenKind)
    (ps : List Part) : Prop := ∃ h, step.run g = .ok (a, h) ∧ Grown g h ks ps

section

variable {g : Growth} {ks ks' : List TokenKind} {ps qs : List Part} {fuel : Nat}

/-- The parts of a collection stand behind it, and it is filled with their numbers. -/
theorem Grown.filled {h : Growth} {t : Token} {rest : List Token} {tag : String}
    {empty : Content} (now : Content)
    (grown : Grown { g with tokens := rest, nodes := g.nodes.push ⟨tag, t.start, empty⟩ } h ks ps) :
    Grown g { h with
      nodes := h.nodes.modify g.nodes.size fun node => { node with content := now } } ks
      ((tag, now) :: ps) where
  left := grown.left
  nodes := by
    refine parts_fill g.nodes.size now (?_ : _ = parts g.nodes ++ (tag, empty) :: ps)
      (length_parts _)
    rw [grown.nodes, parts_push, List.append_assoc]
    rfl

theorem grows_sequence (block indentless : Bool) {inside : List TokenKind} {items : List Nat}
    (tokens : g.tokens.map Token.kind = .flowSequenceStart :: inside)
    (read : ∀ h : Growth, h.tokens.map Token.kind = inside → h.nodes.size = g.nodes.size + 1 →
      Grows (flowItems fuel true) h items ks ps) :
    Grows (node (fuel + 1) block indentless) g g.nodes.size ks
      ((Tag.sequence, .sequence items) :: ps) := by
  obtain ⟨t, rest, split, kind, inside⟩ := List.map_eq_cons_iff.mp tokens
  obtain ⟨h, read, grown⟩ := read
    { g with tokens := rest, nodes := g.nodes.push ⟨Tag.sequence, t.start, .sequence []⟩ }
    inside (Array.size_push _)
  exact ⟨_, run_node_sequence fuel block indentless split kind read, grown.filled _⟩

theorem grows_mapping (block indentless : Bool) {inside : List TokenKind}
    {entries : List (Nat × Nat)}
    (tokens : g.tokens.map Token.kind = .flowMappingStart :: inside)
    (read : ∀ h : Growth, h.tokens.map Token.kind = inside → h.nodes.size = g.nodes.size + 1 →
      Grows (flowEntries fuel true) h entries ks ps) :
    Grows (node (fuel + 1) block indentless) g g.nodes.size ks
      ((Tag.mapping, .mapping entries) :: ps) := by
  obtain ⟨t, rest, split, kind, inside⟩ := List.map_eq_cons_iff.mp tokens
  obtain ⟨h, read, grown⟩ := read
    { g with tokens := rest, nodes := g.nodes.push ⟨Tag.mapping, t.start, .mapping []⟩ }
    inside (Array.size_push _)
  exact ⟨_, run_node_mapping fuel block indentless split kind read, grown.filled _⟩

theorem grows_noItems (first : Bool)
    (tokens : g.tokens.map Token.kind = .flowSequenceEnd :: ks) :
    Grows (flowItems (fuel + 1) first) g [] ks [] := by
  obtain ⟨t, rest, split, kind, left⟩ := List.map_eq_cons_iff.mp tokens
  exact ⟨_, run_flowItems_end fuel first split kind, left, (List.append_nil _).symm⟩

theorem grows_noEntries (first : Bool)
    (tokens : g.tokens.map Token.kind = .flowMappingEnd :: ks) :
    Grows (flowEntries (fuel + 1) first) g [] ks [] := by
  obtain ⟨t, rest, split, kind, left⟩ := List.map_eq_cons_iff.mp tokens
  exact ⟨_, run_flowEntries_end fuel first split kind, left, (List.append_nil _).symm⟩

/-- An item is read, and then those behind it. -/
theorem grows_items (first : Bool) (item : Tree) {ns : List Nat}
    (tokens : g.tokens.map Token.kind = comma first ++ (treeTokens item ++ ks))
    (read : ∀ h : Growth, h.tokens.map Token.kind = treeTokens item ++ ks →
      h.nodes.size = g.nodes.size → Grows (node fuel false false) h h.nodes.size ks ps)
    (more : ∀ h : Growth, h.tokens.map Token.kind = ks →
      h.nodes.size = g.nodes.size + ps.length → Grows (flowItems fuel false) h ns ks' qs) :
    Grows (flowItems (fuel + 1) first) g (g.nodes.size :: ns) ks' (ps ++ qs) := by
  obtain ⟨commas, written, split, isComma, kinds⟩ := List.map_eq_append_iff.mp tokens
  obtain ⟨h, readItem, grown⟩ := read { g with tokens := written } kinds rfl
  obtain ⟨i, readItems, grown'⟩ := more h grown.left grown.size
  obtain ⟨k, kt, first, starts⟩ := exists_treeTokens item
  rw [first] at kinds
  obtain ⟨t, rest, rfl, rfl, -⟩ := List.map_eq_cons_iff.mp kinds
  exact ⟨_, run_flowItems_item fuel _ split isComma starts readItem readItems,
    grown'.left, (grown.trans grown').nodes⟩

/-- A member is read, and then those behind it. -/
theorem grows_members (first : Bool) (key : String) (value : Tree) {ns : List (Nat × Nat)}
    (tokens : g.tokens.map Token.kind =
      comma first ++ (.key :: .scalar key false :: .value :: (treeTokens value ++ ks)))
    (read : ∀ h : Growth, h.tokens.map Token.kind = treeTokens value ++ ks →
      h.nodes.size = g.nodes.size + 1 →
        Grows (node (fuel + 1) false false) h h.nodes.size ks ps)
    (more : ∀ h : Growth, h.tokens.map Token.kind = ks →
      h.nodes.size = g.nodes.size + 1 + ps.length →
        Grows (flowEntries (fuel + 1) false) h ns ks' qs) :
    Grows (flowEntries (fuel + 2) first) g ((g.nodes.size, g.nodes.size + 1) :: ns) ks'
      ((Tag.text, .scalar key) :: (ps ++ qs)) := by
  obtain ⟨commas, written, split, isComma, kinds⟩ := List.map_eq_append_iff.mp tokens
  obtain ⟨k, written, rfl, isKey, kinds⟩ := List.map_eq_cons_iff.mp kinds
  obtain ⟨s, written, rfl, isName, kinds⟩ := List.map_eq_cons_iff.mp kinds
  obtain ⟨v, written, rfl, colon, kinds⟩ := List.map_eq_cons_iff.mp kinds
  have name : (node (fuel + 1) false false).run { g with tokens := s :: v :: written } =
      .ok (g.nodes.size, { g with
        tokens := v :: written, nodes := g.nodes.push ⟨Tag.text, s.start, .scalar key⟩ }) :=
    run_node_scalar fuel false false rfl isName
  obtain ⟨h, readValue, grown⟩ := read
    { g with tokens := written, nodes := g.nodes.push ⟨Tag.text, s.start, .scalar key⟩ } kinds
    (Array.size_push _)
  rw [Array.size_push] at readValue
  obtain ⟨i, readEntries, grown'⟩ := more h grown.left (by rw [grown.size]; simp)
  obtain ⟨k, kt, first, starts⟩ := exists_treeTokens value
  rw [first] at kinds
  obtain ⟨t, rest, rfl, rfl, -⟩ := List.map_eq_cons_iff.mp kinds
  refine ⟨_, run_flowEntries_entry _ _ split isComma isKey (isName ▸ .scalar _ _) colon starts
    name rfl readValue readEntries, grown'.left, ?_⟩
  rw [grown'.nodes, grown.nodes]
  simp

end

theorem length_treeTokens_pos (t : Tree) : 1 ≤ (treeTokens t).length := by
  obtain ⟨k, ks, first, -⟩ := exists_treeTokens t
  simp [first]

mutual

/-- A value is read into its nodes. -/
theorem grows_tree (t : Tree) (fuel : Nat) (block indentless : Bool) (g : Growth)
    (ks : List TokenKind) (tokens : g.tokens.map Token.kind = treeTokens t ++ ks)
    (enough : (treeTokens t).length ≤ fuel) :
    Grows (node fuel block indentless) g g.nodes.size ks (treeParts t g.nodes.size) := by
  obtain ⟨fuel, rfl⟩ := Nat.exists_eq_add_of_le' ((length_treeTokens_pos t).trans enough)
  cases t with
  | atom a =>
    obtain ⟨t, rest, split, kind, left⟩ := List.map_eq_cons_iff.mp tokens
    refine ⟨_, run_node_scalar fuel block indentless split kind, left, ?_⟩
    rw [parts_push, treeParts]
    cases a <;> rfl
  | emptyList inside =>
    obtain ⟨fuel, rfl⟩ : ∃ f, fuel = f + 1 := ⟨fuel - 1, by simp [treeTokens] at enough; omega⟩
    exact grows_sequence block indentless tokens fun h left _ => grows_noItems true left
  | list items =>
    refine grows_sequence block indentless tokens fun h left size => ?_
    rw [← size]
    exact grows_itemsOf items fuel true h ks left (by simp [treeTokens] at enough; omega)
  | emptyObject inside =>
    obtain ⟨fuel, rfl⟩ : ∃ f, fuel = f + 1 := ⟨fuel - 1, by simp [treeTokens] at enough; omega⟩
    exact grows_mapping block indentless tokens fun h left _ => grows_noEntries true left
  | object members =>
    refine grows_mapping block indentless tokens fun h left size => ?_
    rw [← size]
    exact grows_membersOf members fuel true h ks left (by simp [treeTokens] at enough; omega)

/-- The items of a list are read one after the other. -/
theorem grows_itemsOf (is : Items) (fuel : Nat) (first : Bool) (g : Growth)
    (ks : List TokenKind) (tokens : g.tokens.map Token.kind = comma first ++ (itemsTokens is ++ ks))
    (enough : (itemsTokens is).length ≤ fuel) :
    Grows (flowItems fuel first) g (itemsNumbers is g.nodes.size) ks
      (itemsParts is g.nodes.size) := by
  cases is with
  | last _ item _ =>
    have one := length_treeTokens_pos item
    simp only [itemsTokens, List.length_append, List.length_cons, List.length_nil] at enough
    obtain ⟨fuel, rfl⟩ : ∃ f, fuel = f + 2 := ⟨fuel - 2, by omega⟩
    rw [itemsTokens, List.append_assoc] at tokens
    rw [itemsParts, ← List.append_nil (treeParts item _)]
    refine grows_items first item tokens (fun h left size => ?_) fun h left _ =>
      grows_noItems false left
    rw [← size]
    exact grows_tree item (fuel + 1) false false h _ left (by omega)
  | more _ item _ rest =>
    simp only [itemsTokens, List.length_append, List.length_cons] at enough
    obtain ⟨fuel, rfl⟩ : ∃ f, fuel = f + 1 := ⟨fuel - 1, by omega⟩
    rw [itemsTokens, List.append_assoc] at tokens
    refine grows_items first item tokens (fun h left size => ?_) fun h left size => ?_
    · rw [← size]
      exact grows_tree item fuel false false h _ left (by omega)
    · rw [length_treeParts] at size
      rw [← size]
      exact grows_itemsOf rest fuel false h ks left (by omega)

/-- The members of an object are read one after the other. -/
theorem grows_membersOf (ms : Members) (fuel : Nat) (first : Bool) (g : Growth)
    (ks : List TokenKind)
    (tokens : g.tokens.map Token.kind = comma first ++ (membersTokens ms ++ ks))
    (enough : (membersTokens ms).length ≤ fuel) :
    Grows (flowEntries fuel first) g (membersNumbers ms g.nodes.size) ks
      (membersParts ms g.nodes.size) := by
  cases ms with
  | last _ key _ _ value _ =>
    simp only [membersTokens, List.length_append, List.length_cons, List.length_nil] at enough
    obtain ⟨fuel, rfl⟩ : ∃ f, fuel = f + 2 := ⟨fuel - 2, by omega⟩
    rw [membersTokens, List.append_assoc] at tokens
    rw [membersParts, ← List.append_nil (treeParts value _)]
    refine grows_members first key.text value tokens (fun h left size => ?_) fun h left _ =>
      grows_noEntries false left
    rw [← size]
    exact grows_tree value (fuel + 1) false false h _ left (by omega)
  | more _ key _ _ value _ rest =>
    simp only [membersTokens, List.length_append, List.length_cons] at enough
    obtain ⟨fuel, rfl⟩ : ∃ f, fuel = f + 2 := ⟨fuel - 2, by omega⟩
    rw [membersTokens, List.append_assoc] at tokens
    refine grows_members first key.text value tokens (fun h left size => ?_) fun h left size => ?_
    · rw [← size]
      exact grows_tree value (fuel + 1) false false h _ left (by omega)
    · rw [length_treeParts, Nat.add_assoc, Nat.add_comm 1] at size
      rw [← size]
      exact grows_membersOf rest (fuel + 1) false h ks left (by omega)

end

/-! ## Reading a document -/

/-- Behind the tokens of the last document there is no other one. -/
theorem run_documentStart {g : Growth} {t : Token} {rest : List Token}
    (tokens : g.tokens = t :: rest) (kind : t.kind = .streamEnd) :
    documentStart.run g = .ok (none, g) := by
  have noEnd : t.kind ≠ .documentEnd := kind ▸ nofun
  have skipped (fuel : Nat) : (skipDocumentEnds (fuel + 1)).run g = .ok ((), g) := by
    rw [skipDocumentEnds, run_bind_of_ok (run_accept_of_ne tokens noEnd)]
    rfl
  rw [documentStart, run_bind_of_ok (run_get g)]
  dsimp only
  rw [run_bind_of_ok (skipped g.tokens.length), run_bind_of_ok (run_peek tokens), if_pos kind]
  rfl

/-- Nothing marks the start of a document that a value makes, and nothing follows it. -/
theorem grows_document (t : Tree) (fuel : Nat) (g : Growth)
    (tokens : g.tokens.map Token.kind = treeTokens t ++ [.streamEnd])
    (enough : (treeTokens t).length ≤ fuel) :
    Grows (document fuel) g (some g.nodes.size) [.streamEnd] (treeParts t g.nodes.size) := by
  obtain ⟨h, read, grown⟩ := grows_tree t fuel true false g _ tokens enough
  obtain ⟨k, ks, first, starts⟩ := exists_treeTokens t
  rw [first] at tokens
  obtain ⟨f, rest, split, rfl, -⟩ := List.map_eq_cons_iff.mp tokens
  obtain ⟨e, behind, left, ends, -⟩ := List.map_eq_cons_iff.mp grown.left
  have unmarked : marksDocument f.kind = false := by
    generalize f.kind = kind at starts
    cases starts <;> rfl
  refine ⟨h, ?_, grown⟩
  rw [document, run_bind_of_ok (run_peek split), unmarked, if_neg Bool.false_ne_true]
  have root : (some <$> node fuel true false).run (g) = .ok (some g.nodes.size, h) := by
    rw [StateT.run_map, read]
    rfl
  rw [run_bind_of_ok root]
  dsimp only
  rw [run_bind_of_ok (run_accept_of_ne left (ends ▸ nofun)),
    run_bind_of_ok (run_documentStart left ends)]
  rfl

end Grow

/-- The graph of a document is its tree. -/
theorem Graph.ofTokens_eq (t : Tree) (row : TokenRow)
    (tokens : row.tokens.map Token.kind = treeTokens t ++ [.streamEnd]) :
    ∃ nodes, Graph.ofTokens row = .ok ⟨nodes, some 0⟩ ∧ parts nodes = treeParts t 0 := by
  have length := congrArg List.length tokens
  rw [List.length_map, List.length_append] at length
  obtain ⟨g, read, grown⟩ := Grow.grows_document t (2 * row.tokens.length + 4)
    ⟨row.tokens, row.fault, #[], [], Tag.defaultHandles⟩ tokens (by omega)
  refine ⟨g.nodes, ?_, grown.nodes⟩
  rw [Graph.ofTokens, read]
  rfl

theorem mem_unifiedLines {c : Char} {cs : List Char} (h : c ∈ unifiedLines cs) :
    c = '\n' ∨ c ∈ cs := by
  fun_induction unifiedLines cs with
  | case1 => exact .inr h
  | case2 rest ih | case3 rest _ ih =>
    obtain rfl | h := List.mem_cons.mp h
    · exact .inl rfl
    · exact (ih h).imp_right fun mem => by simp [mem]
  | case4 first rest _ _ ih =>
    obtain rfl | h := List.mem_cons.mp h
    · exact .inr (by simp)
    · exact (ih h).imp_right fun mem => by simp [mem]

/-- The nodes of a JSON text are those of its syntax tree. -/
theorem graph_of_document {d : Document} (isYaml : d.isYaml = true)
    (collection : ∀ a, d.root ≠ .atom a) :
    ∃ nodes, Graph.ofChars (unifiedLines d.chars) = .ok ⟨nodes, some 0⟩ ∧
      parts nodes = treeParts d.root 0 := by
  have acceptable : (unifiedLines d.chars).all isAcceptable = true := by
    simp only [Document.isYaml, Bool.and_eq_true, List.all_eq_true] at isYaml
    refine List.all_eq_true.mpr fun c mem => ?_
    obtain rfl | mem := mem_unifiedLines mem
    · rfl
    · exact isYaml.1.1.1 c mem
  rw [Graph.ofChars, if_pos acceptable]
  exact Graph.ofTokens_eq d.root _ (tokens_of_document isYaml collection)

end Yaml
end ApiManual
