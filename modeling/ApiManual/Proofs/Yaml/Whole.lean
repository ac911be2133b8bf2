import ApiManual.Yaml.Graph

/-!
# Nodes are whole

The numbers in what a node holds are numbers of nodes, in every graph that is read from tokens
(`Graph.isWhole_of_tokens`), and so is the outermost one.  This is not seen from a node
alone: a collection is entered when it starts and filled when it ends, and a name may be
referred to from inside the node that has it.  So each step of the grammar is given a lemma
that says from how many nodes on it is safe (`Grow.Keeps`), and what its result is good for
when it ends.

If the tokens are not those of a graph, a word is said about it, with one exception: where the
tokens end as an escape stands for no character, nothing is said (`Grow.Stops`).
-/

namespace ApiManual
namespace Yaml

/-- The numbers in what a node holds. -/
def Content.numbers : Content → List Nat
  | .scalar _ => []
  | .sequence items => items
  | .mapping entries => entries.flatMap fun e => [e.1, e.2]

theorem Content.mem_numbers_mapping {es : List (Nat × Nat)} {i : Nat} :
    i ∈ (Content.mapping es).numbers ↔ ∃ e ∈ es, i = e.1 ∨ i = e.2 := by
  simp [numbers, List.mem_flatMap]

/-- All numbers in nodes are numbers of nodes. -/
def Graph.IsWhole (nodes : Array Node) : Prop :=
  ∀ (n : Nat) (x : Node), nodes[n]? = some x → ∀ i ∈ x.content.numbers, i < nodes.size

namespace Graph

theorem isWhole_empty : IsWhole #[] := nofun

theorem IsWhole.push {nodes : Array Node} (h : IsWhole nodes) {x : Node}
    (new : ∀ i ∈ x.content.numbers, i < nodes.size) : IsWhole (nodes.push x) := by
  intro n y there i mem
  rw [Array.size_push]
  refine Nat.lt_succ_of_lt ?_
  rw [Array.getElem?_push] at there
  split at there
  · cases there
    exact new i mem
  · exact h n y there i mem

/-- A node may be given something else to hold. -/
theorem IsWhole.modify {nodes : Array Node} (h : IsWhole nodes) (n : Nat) {change : Node → Node}
    (new : ∀ x, nodes[n]? = some x → ∀ i ∈ (change x).content.numbers, i < nodes.size) :
    IsWhole (nodes.modify n change) := by
  intro m y there i mem
  rw [Array.size_modify]
  rw [Array.getElem?_modify] at there
  split at there
  · rename_i same
    subst same
    obtain ⟨x, was, rfl⟩ := Option.map_eq_some_iff.1 there
    exact new x was i mem
  · exact h m y there i mem

end Graph

/-- Nodes on their way from tokens are whole, and their names are names of nodes. -/
structure Growth.IsWhole (g : Growth) : Prop where
  nodes : Graph.IsWhole g.nodes
  anchors : ∀ a ∈ g.anchors, a.2 < g.nodes.size

namespace Grow

/-- A problem that is not said in words comes from an escape for no character, at which the
tokens end. -/
def Stops (f : ScanFault) (p : Problem) : Prop :=
  ∀ b, p = .breakdown b → b = .noSuchCharacter ∧ f = .noSuchCharacter

theorem stops_problem (f : ScanFault) : Stops f f.problem := by
  cases f with
  | malformed => exact nofun
  | noSuchCharacter =>
    rintro _ ⟨⟩
    exact ⟨rfl, rfl⟩

variable {α β : Type} {m k : Nat} {Q : Nat → α → Prop} {R : Nat → β → Prop}

/-- How a step may end that starts from whole nodes: what is said of its result may depend on
how many nodes there are then. -/
inductive Ends (g : Growth) (Q : Nat → α → Prop) : Except Problem (α × Growth) → Prop where
  | ok {a : α} {h : Growth} : h.IsWhole → g.nodes.size ≤ h.nodes.size → h.fault = g.fault →
      Q h.nodes.size a → Ends g Q (.ok (a, h))
  | error {p : Problem} : Stops g.fault p → Ends g Q (.error p)

/-- A step keeps nodes whole, if there are at least `m` of them. -/
def Keeps (m : Nat) (x : Grow α) (Q : Nat → α → Prop) : Prop :=
  ∀ g : Growth, g.IsWhole → m ≤ g.nodes.size → Ends g Q (x.run g)

namespace Keeps

theorem pure {a : α} (holds : ∀ k, m ≤ k → Q k a) : Keeps m (pure a) Q :=
  fun _ whole size => .ok whole (Nat.le_refl _) rfl (holds _ size)

theorem bind {x : Grow α} {f : α → Grow β} (first : Keeps m x Q)
    (next : ∀ a k, m ≤ k → Q k a → Keeps k (f a) R) : Keeps m (x >>= f) R := by
  intro g whole size
  have first := first g whole size
  rw [StateT.run_bind]
  generalize x.run g = r at first
  cases first with
  | error stops => exact .error stops
  | @ok a h whole' size' fault holds =>
    have next := next a _ (Nat.le_trans size size') holds h whole' (Nat.le_refl _)
    show Ends g R ((f a).run h)
    generalize (f a).run h = r at next
    cases next with
    | error stops => exact .error (fault ▸ stops)
    | ok whole'' size'' fault' holds' =>
      exact .ok whole'' (Nat.le_trans size' size'') (fault'.trans fault) holds'

theorem map {x : Grow α} {f : α → β} (h : Keeps m x Q)
    (imp : ∀ k a, m ≤ k → Q k a → R k (f a)) : Keeps m (f <$> x) R := by
  intro g whole size
  have h := h g whole size
  rw [StateT.run_map]
  generalize x.run g = r at h
  cases h with
  | error stops => exact .error stops
  | ok whole' size' fault holds =>
    exact .ok whole' size' fault (imp _ _ (Nat.le_trans size size') holds)

theorem le {x : Grow α} (h : Keeps m x Q) (le : m ≤ k) : Keeps k x Q :=
  fun g whole size => h g whole (Nat.le_trans le size)

theorem ite {c : Prop} [Decidable c] {x y : Grow α} (h : c → Keeps m x Q)
    (h' : ¬ c → Keeps m y Q) : Keeps m (if c then x else y) Q := by
  split
  · exact h ‹_›
  · exact h' ‹_›

theorem malformed : Keeps m (throw .malformed : Grow α) Q := fun _ _ _ => .error nofun

theorem complaint (c : Complaint) : Keeps m (throw (.complaint c) : Grow α) Q :=
  fun _ _ _ => .error nofun

end Keeps

/-! ## Tokens -/

/-- Of the result of a step nothing is said. -/
abbrev Any (_ : Nat) (_ : α) : Prop := True

theorem keeps_get : Keeps m get Any := fun _ whole _ => .ok whole (Nat.le_refl _) rfl trivial

theorem keeps_peek : Keeps m peek Any := by
  intro g whole _
  simp only [peek, StateT.run_bind, StateT.run_get, pure_bind]
  cases g.tokens with
  | nil => exact .error (stops_problem _)
  | cons t rest => exact .ok whole (Nat.le_refl _) rfl trivial

theorem keeps_advance : Keeps m advance Any :=
  fun _ whole _ => .ok ⟨whole.nodes, whole.anchors⟩ (Nat.le_refl _) rfl trivial

theorem keeps_nextIs (kinds : List TokenKind) : Keeps m (nextIs kinds) Any :=
  keeps_peek.bind fun _ _ _ _ => .pure fun _ _ => trivial

theorem keeps_accept (kind : TokenKind) : Keeps m (accept kind) Any :=
  keeps_peek.bind fun _ _ _ _ => .ite
    (fun _ => keeps_advance.bind fun _ _ _ _ => .pure fun _ _ => trivial)
    (fun _ => .pure fun _ _ => trivial)

theorem keeps_expect (kind : TokenKind) : Keeps m (expect kind) Any :=
  (keeps_accept kind).bind fun _ _ _ _ => .ite (fun _ => .malformed)
    (fun _ => .pure fun _ _ => trivial)

/-! ## Nodes -/

/-- A number of a node, if there are `k` of them. -/
def IsNode (k n : Nat) : Prop := n < k

/-- Numbers of nodes. -/
def AreNodes (k : Nat) (items : List Nat) : Prop := ∀ i ∈ items, i < k

/-- Pairs of numbers of nodes. -/
def ArePairs (k : Nat) (es : List (Nat × Nat)) : Prop := ∀ e ∈ es, e.1 < k ∧ e.2 < k

theorem AreNodes.cons {n : Nat} {items : List Nat} (head : n < m) (le : m ≤ k)
    (tail : AreNodes k items) : AreNodes k (n :: items) :=
  List.forall_mem_cons.2 ⟨Nat.lt_of_lt_of_le head le, tail⟩

theorem ArePairs.cons {i j : Nat} {es : List (Nat × Nat)} (key : i < k) (value : j < k)
    (tail : ArePairs k es) : ArePairs k ((i, j) :: es) :=
  List.forall_mem_cons.2 ⟨⟨key, value⟩, tail⟩

theorem ArePairs.numbers {es : List (Nat × Nat)} (h : ArePairs k es) :
    ∀ i ∈ (Content.mapping es).numbers, i < k := by
  intro i number
  obtain ⟨e, mem, rfl | rfl⟩ := Content.mem_numbers_mapping.1 number
  · exact (h e mem).1
  · exact (h e mem).2

theorem keeps_enter {x : Node} (new : ∀ i ∈ x.content.numbers, i < m) :
    Keeps m (enter x) IsNode := by
  intro g whole size
  have more : g.nodes.size ≤ (g.nodes.push x).size := by
    rw [Array.size_push]
    exact Nat.le_succ _
  refine .ok ⟨whole.nodes.push fun i mem => Nat.lt_of_lt_of_le (new i mem) size,
    fun a mem => Nat.lt_of_lt_of_le (whole.anchors a mem) more⟩ more rfl ?_
  show g.nodes.size < (g.nodes.push x).size
  rw [Array.size_push]
  exact Nat.lt_succ_self _

theorem keeps_fill (n : Nat) {content : Content} (new : ∀ i ∈ content.numbers, i < m) :
    Keeps m (fill n content) Any := by
  intro g whole size
  have same : (g.nodes.modify n fun x => { x with content }).size = g.nodes.size :=
    Array.size_modify
  refine .ok ⟨whole.nodes.modify n fun _ _ i mem => Nat.lt_of_lt_of_le (new i mem) size,
    fun a mem => ?_⟩ (Nat.le_of_eq same.symm) rfl trivial
  exact same ▸ whole.anchors a mem

theorem keeps_startOf (n : Nat) : Keeps m (startOf n) Any :=
  keeps_get.bind fun _ _ _ _ => .pure fun _ _ => trivial

theorem keeps_named (name : String) (place : Mark) : Keeps m (named name place) IsNode := by
  intro g whole _
  simp only [named, StateT.run_bind, StateT.run_get, pure_bind]
  cases found : g.anchors.lookup name with
  | none => exact .error (by rintro _ ⟨⟩)
  | some n =>
    obtain ⟨before, after, split, -⟩ := List.lookup_eq_some_iff.1 found
    refine .ok whole (Nat.le_refl _) rfl (whole.anchors (name, n) ?_)
    rw [split]
    exact List.mem_append_right _ List.mem_cons_self

theorem keeps_anchor (name : String) {n : Nat} (there : n < m) :
    Keeps m (modify fun g => { g with anchors := (name, n) :: g.anchors }) Any :=
  fun _ whole size => .ok ⟨whole.nodes,
    List.forall_mem_cons.2 ⟨Nat.lt_of_lt_of_le there size, whole.anchors⟩⟩
    (Nat.le_refl _) rfl trivial

theorem keeps_enterNamed (p : Properties) (tag : String) {content : Content}
    (new : ∀ i ∈ content.numbers, i < m) : Keeps m (enterNamed p tag content) IsNode := by
  rw [enterNamed]
  split
  · exact keeps_enter new
  · refine keeps_get.bind fun g k le _ => ?_
    have new (i : Nat) (mem : i ∈ content.numbers) : i < k := Nat.lt_of_lt_of_le (new i mem) le
    split
    · exact (keeps_startOf _).bind fun _ _ _ _ => .complaint _
    · refine (keeps_enter new).bind fun n k' _ there =>
        (keeps_anchor _ there).bind fun _ _ le _ => ?_
      exact .pure fun _ le' => Nat.lt_of_lt_of_le there (Nat.le_trans le le')

theorem keeps_enterEmpty (place : Mark) : Keeps m (enterEmpty place) IsNode := keeps_enter nofun

theorem keeps_fullTag (t : TagText) : Keeps m (fullTag t) Any := by
  rw [fullTag]
  split
  · exact .pure fun _ _ => trivial
  · refine keeps_get.bind fun g _ _ _ => ?_
    split
    · exact .pure fun _ _ => trivial
    · exact .malformed

theorem keeps_tag : Keeps m tag? Any := by
  refine keeps_peek.bind fun t _ _ _ => ?_
  split
  · exact keeps_advance.bind fun _ _ _ _ => .pure fun _ _ => trivial
  · exact .pure fun _ _ => trivial

theorem keeps_anchor? : Keeps m anchor? Any := by
  refine keeps_peek.bind fun t _ _ _ => ?_
  split
  · exact keeps_advance.bind fun _ _ _ _ => .pure fun _ _ => trivial
  · exact .pure fun _ _ => trivial

theorem keeps_properties : Keeps m properties Any := by
  rw [properties]
  refine keeps_peek.bind fun t _ _ _ => keeps_anchor?.bind fun anchor k _ _ => ?_
  have finish (m : Nat) (anchor : Option String) (tag : Option TagText) : Keeps m (do
      let tag ← tag.mapM fullTag
      if anchor.isNone && tag.isNone then return ⟨none, none, t.start⟩
      else
        let _ ← peek
        return ⟨anchor, tag, t.start⟩ : Grow Properties) Any := by
    have full : Keeps m (tag.mapM fullTag) Any := by
      cases tag with
      | none => exact .pure fun _ _ => trivial
      | some t => exact (keeps_fullTag t).map fun _ _ _ _ => trivial
    refine full.bind fun tag _ _ _ => .ite (fun _ => .pure fun _ _ => trivial) fun _ => ?_
    exact keeps_peek.bind fun _ _ _ _ => .pure fun _ _ => trivial
  cases anchor with
  | some name => exact keeps_tag.bind fun tag k _ _ => finish k (some name) tag
  | none =>
    refine keeps_tag.bind fun tag k _ _ => ?_
    cases tag with
    | some t => exact keeps_anchor?.bind fun anchor k _ _ => finish k anchor (some t)
    | none => exact finish k none none

theorem keeps_orEmpty (kinds : List TokenKind) (place : Mark) {written : Grow Nat}
    (h : Keeps m written IsNode) : Keeps m (orEmpty kinds place written) IsNode :=
  (keeps_nextIs kinds).bind fun _ _ le _ => .ite (fun _ => keeps_enterEmpty place)
    (fun _ => h.le le)

theorem keeps_valueOrEmpty (kinds : List TokenKind) {written : Grow Nat}
    (h : Keeps m written IsNode) : Keeps m (valueOrEmpty kinds written) IsNode :=
  keeps_peek.bind fun t _ le _ => (keeps_accept _).bind fun _ _ le' _ => .ite
    (fun _ => keeps_orEmpty kinds t.stop (h.le (Nat.le_trans le le')))
    (fun _ => keeps_enterEmpty t.start)

/-! ## The grammar -/

/-- What is known of the grammar with some fuel. -/
structure Grammar (fuel : Nat) : Prop where
  node (m : Nat) (block indentless : Bool) : Keeps m (node fuel block indentless) IsNode
  blockItems (m : Nat) : Keeps m (blockItems fuel) AreNodes
  indentlessItems (m : Nat) : Keeps m (indentlessItems fuel) AreNodes
  blockEntries (m : Nat) : Keeps m (blockEntries fuel) ArePairs
  flowItems (m : Nat) (first : Bool) : Keeps m (flowItems fuel first) AreNodes
  flowEntries (m : Nat) (first : Bool) : Keeps m (flowEntries fuel first) ArePairs

/-- A collection is entered, its parts are read, and it is filled with them. -/
theorem keeps_collection (p : Properties) (tag : String) {empty : Content} {inside : Grow α}
    (content : α → Content) (none : empty.numbers = []) (parts : ∀ k, Keeps k inside Q)
    (numbers : ∀ k a, Q k a → ∀ i ∈ (content a).numbers, i < k) : Keeps m (do
      let n ← enterNamed p tag empty
      fill n (content (← inside))
      return n : Grow Nat) IsNode := by
  refine (keeps_enterNamed p tag (by rw [none]; nofun)).bind fun n k _ there => ?_
  refine (parts k).bind fun a k' le holds =>
    (keeps_fill n (numbers k' a holds)).bind fun _ _ le' _ => ?_
  exact .pure fun _ le'' => Nat.lt_of_lt_of_le there (Nat.le_trans le (Nat.le_trans le' le''))

variable {fuel : Nat}

theorem Grammar.keeps_node (h : Grammar fuel) (m : Nat) (block indentless : Bool) :
    Keeps m (Grow.node (fuel + 1) block indentless) IsNode := by
  rw [Grow.node]
  refine keeps_peek.bind fun t _ _ _ => ?_
  split
  · exact keeps_advance.bind fun _ _ _ _ => keeps_named _ _
  refine keeps_properties.bind fun p k _ _ => ?_
  dsimp only
  have items (k : Nat) {inside : Grow (List Nat)} (parts : ∀ k, Keeps k inside AreNodes) :
      Keeps k (do
        let n ← enterNamed p (collectionTag p Tag.sequence) (.sequence [])
        fill n (.sequence (← inside))
        return n) IsNode := keeps_collection p _ .sequence rfl parts fun _ _ h => h
  have entries (k : Nat) {inside : Grow (List (Nat × Nat))} (parts : ∀ k, Keeps k inside ArePairs) :
      Keeps k (do
        let n ← enterNamed p (collectionTag p Tag.mapping) (.mapping [])
        fill n (.mapping (← inside))
        return n) IsNode := keeps_collection p _ .mapping rfl parts fun _ _ h => h.numbers
  have unwritten (k : Nat) : Keeps k (if p.anchor.isNone && p.tag.isNone then throw .malformed
      else enterNamed p (scalarTag p "" true) (.scalar "") : Grow Nat) IsNode :=
    .ite (fun _ => .malformed) fun _ => keeps_enterNamed p _ nofun
  refine keeps_peek.bind fun t k _ _ => ?_
  split
  · exact keeps_advance.bind fun _ _ _ _ => keeps_enterNamed p _ nofun
  · exact items k fun k => keeps_advance.bind fun _ k _ _ => h.flowItems k true
  · exact entries k fun k => keeps_advance.bind fun _ k _ _ => h.flowEntries k true
  · exact .ite (fun _ => items k fun k => keeps_advance.bind fun _ k _ _ => h.blockItems k)
      fun _ => unwritten k
  · exact .ite (fun _ => entries k fun k => keeps_advance.bind fun _ k _ _ => h.blockEntries k)
      fun _ => unwritten k
  · exact .ite (fun _ => items k h.indentlessItems) fun _ => unwritten k
  · exact unwritten k

/-- An item and then the others. -/
theorem Keeps.items {item : Grow Nat} {others : Grow (List Nat)} (h : Keeps m item IsNode)
    (h' : ∀ k, Keeps k others AreNodes) : Keeps m (do
      let n ← item
      return n :: (← others)) AreNodes := by
  refine h.bind fun n k _ there => (h' k).bind fun _ _ le items => .pure fun _ le' => ?_
  exact .cons there (Nat.le_trans le le') fun i mem => Nat.lt_of_lt_of_le (items i mem) le'

theorem Grammar.keeps_blockItems (h : Grammar fuel) (m : Nat) :
    Keeps m (Grow.blockItems (fuel + 1)) AreNodes := by
  rw [Grow.blockItems]
  refine keeps_peek.bind fun t _ _ _ => (keeps_accept _).bind fun _ k _ _ => .ite (fun _ => ?_)
    fun _ => (keeps_expect _).bind fun _ _ _ _ => .pure fun _ _ => nofun
  exact (keeps_orEmpty _ _ (h.node k true false)).items h.blockItems

theorem Grammar.keeps_indentlessItems (h : Grammar fuel) (m : Nat) :
    Keeps m (Grow.indentlessItems (fuel + 1)) AreNodes := by
  rw [Grow.indentlessItems]
  refine keeps_peek.bind fun t _ _ _ => (keeps_accept _).bind fun _ k _ _ => .ite (fun _ => ?_)
    fun _ => .pure fun _ _ => nofun
  exact (keeps_orEmpty _ _ (h.node k true false)).items h.indentlessItems

/-- A key, its value, and then the other entries. -/
theorem Keeps.entries {key value : Grow Nat} {others : Grow (List (Nat × Nat))}
    (first : Keeps m key IsNode) (second : ∀ k, Keeps k value IsNode)
    (rest : ∀ k, Keeps k others ArePairs) : Keeps m (do
      let i ← key
      let j ← value
      return (i, j) :: (← others)) ArePairs := by
  refine first.bind fun i k _ key => (second k).bind fun j k' le value => ?_
  refine (rest k').bind fun es _ le' others => .pure fun _ le'' => ?_
  have le' := Nat.le_trans le' le''
  exact .cons (Nat.lt_of_lt_of_le key (Nat.le_trans le le')) (Nat.lt_of_lt_of_le value le')
    fun e mem => (others e mem).imp (Nat.lt_of_lt_of_le · le'') (Nat.lt_of_lt_of_le · le'')

theorem Grammar.keeps_blockEntries (h : Grammar fuel) (m : Nat) :
    Keeps m (Grow.blockEntries (fuel + 1)) ArePairs := by
  rw [Grow.blockEntries]
  refine keeps_peek.bind fun t _ _ _ => (keeps_accept _).bind fun _ k _ _ => .ite (fun _ => ?_)
    fun _ => (keeps_expect _).bind fun _ _ _ _ => .pure fun _ _ => nofun
  exact (keeps_orEmpty _ _ (h.node k true true)).entries
    (fun k => keeps_valueOrEmpty _ (h.node k true true)) h.blockEntries

theorem Grammar.keeps_flowItems (h : Grammar fuel) (m : Nat) (first : Bool) :
    Keeps m (Grow.flowItems (fuel + 1) first) AreNodes := by
  have behind (m : Nat) : Keeps m (do
      let t ← peek
      if ← accept .key then
        let n ← enter ⟨Tag.mapping, t.start, .mapping []⟩
        let key ← orEmpty [.value, .flowEntry, .flowSequenceEnd] t.stop (Grow.node fuel false false)
        let value ← valueOrEmpty [.flowEntry, .flowSequenceEnd] (Grow.node fuel false false)
        fill n (.mapping [(key, value)])
        return n :: (← Grow.flowItems fuel false)
      else if ← accept .flowSequenceEnd then return []
      else
        let item ← Grow.node fuel false false
        return item :: (← Grow.flowItems fuel false)) AreNodes := by
    refine keeps_peek.bind fun t _ _ _ => (keeps_accept _).bind fun _ k _ _ => .ite (fun _ => ?_)
      fun _ => (keeps_accept _).bind fun _ k _ _ => .ite (fun _ => .pure fun _ _ => nofun)
        fun _ => (h.node k false false).items fun k => h.flowItems k false
    have empty : ∀ i ∈ (Content.mapping []).numbers, i < k := fun _ mem => nomatch mem
    refine (keeps_enter empty).bind fun n k _ there => ?_
    refine (keeps_orEmpty _ _ (h.node k false false)).bind fun i k le key => ?_
    refine (keeps_valueOrEmpty _ (h.node k false false)).bind fun j k le' value => ?_
    have pair : ArePairs k [(i, j)] := .cons (Nat.lt_of_lt_of_le key le') value nofun
    refine (keeps_fill n pair.numbers).bind fun _ k le'' _ => ?_
    have there : n < k := Nat.lt_of_lt_of_le there (Nat.le_trans le (Nat.le_trans le' le''))
    refine (h.flowItems k false).bind fun items _ le items => .pure fun _ le' => ?_
    exact .cons there (Nat.le_trans le le') fun i mem => Nat.lt_of_lt_of_le (items i mem) le'
  rw [Grow.flowItems]
  refine (keeps_accept _).bind fun _ k _ _ => .ite (fun _ => .pure fun _ _ => nofun) fun _ => ?_
  exact .ite (fun _ => (keeps_expect _).bind fun _ k _ _ => behind k) fun _ => behind k

theorem Grammar.keeps_flowEntries (h : Grammar fuel) (m : Nat) (first : Bool) :
    Keeps m (Grow.flowEntries (fuel + 1) first) ArePairs := by
  have behind (m : Nat) : Keeps m (do
      let t ← peek
      if ← accept .key then
        let key ← orEmpty [.value, .flowEntry, .flowMappingEnd] t.stop (Grow.node fuel false false)
        let value ← valueOrEmpty [.flowEntry, .flowMappingEnd] (Grow.node fuel false false)
        return (key, value) :: (← Grow.flowEntries fuel false)
      else if ← accept .flowMappingEnd then return []
      else
        let key ← Grow.node fuel false false
        let value ← enterEmpty (← peek).start
        return (key, value) :: (← Grow.flowEntries fuel false)) ArePairs := by
    refine keeps_peek.bind fun t _ _ _ => (keeps_accept _).bind fun _ k _ _ => .ite (fun _ => ?_)
      fun _ => (keeps_accept _).bind fun _ k _ _ =>
        .ite (fun _ => .pure fun _ _ => nofun) fun _ => ?_
    · exact (keeps_orEmpty _ _ (h.node k false false)).entries
        (fun k => keeps_valueOrEmpty _ (h.node k false false)) fun k => h.flowEntries k false
    · have empty (k : Nat) : Keeps k (peek >>= fun t => enterEmpty t.start) IsNode :=
        keeps_peek.bind fun t _ _ _ => keeps_enterEmpty t.start
      have entry := (h.node k false false).entries empty fun k => h.flowEntries k false
      simpa only [bind_assoc] using entry
  rw [Grow.flowEntries]
  refine (keeps_accept _).bind fun _ k _ _ => .ite (fun _ => .pure fun _ _ => nofun) fun _ => ?_
  exact .ite (fun _ => (keeps_expect _).bind fun _ k _ _ => behind k) fun _ => behind k

/-- **The grammar.**  Whatever is read, nodes stay whole. -/
theorem grammar (fuel : Nat) : Grammar fuel := by
  induction fuel with
  | zero =>
    exact ⟨fun _ _ _ => .malformed, fun _ => .malformed, fun _ => .malformed, fun _ => .malformed,
      fun _ _ => .malformed, fun _ _ => .malformed⟩
  | succ fuel ih =>
    exact ⟨ih.keeps_node, ih.keeps_blockItems, ih.keeps_indentlessItems, ih.keeps_blockEntries,
      ih.keeps_flowItems, ih.keeps_flowEntries⟩

/-! ## Documents -/

theorem keeps_skipDocumentEnds (fuel : Nat) : Keeps m (skipDocumentEnds fuel) Any := by
  induction fuel generalizing m with
  | zero => exact .pure fun _ _ => trivial
  | succ fuel ih =>
    exact (keeps_accept _).bind fun _ _ _ _ => .ite (fun _ => ih) fun _ => .pure fun _ _ => trivial

theorem keeps_directives (fuel : Nat) (version : Bool) (handles : List (String × String)) :
    Keeps m (directives fuel version handles) Any := by
  induction fuel generalizing m version handles with
  | zero => exact .malformed
  | succ fuel ih =>
    rw [directives]
    refine keeps_peek.bind fun t _ _ _ => ?_
    split
    · exact .ite (fun _ => .malformed) fun _ => keeps_advance.bind fun _ _ _ _ => ih _ _
    · exact .ite (fun _ => .malformed) fun _ => keeps_advance.bind fun _ _ _ _ => ih _ _
    · exact keeps_advance.bind fun _ _ _ _ => ih _ _
    · exact .pure fun _ _ => trivial

theorem keeps_handles (change : List (String × String) → List (String × String)) :
    Keeps m (modify fun g => { g with handles := change g.handles }) Any :=
  fun _ whole _ => .ok ⟨whole.nodes, whole.anchors⟩ (Nat.le_refl _) rfl trivial

theorem keeps_documentStart : Keeps m documentStart Any := by
  rw [documentStart]
  refine keeps_get.bind fun g _ _ _ => (keeps_skipDocumentEnds _).bind fun _ _ _ _ => ?_
  refine keeps_peek.bind fun t _ _ _ => .ite (fun _ => .pure fun _ _ => trivial) fun _ => ?_
  refine (keeps_directives _ _ _).bind fun handles _ _ _ => ?_
  refine (keeps_handles fun _ => _).bind fun _ _ _ _ => (keeps_expect _).bind fun _ _ _ _ => ?_
  exact .pure fun _ _ => trivial

theorem keeps_documentContent (fuel : Nat) : Keeps m (documentContent fuel) IsNode :=
  keeps_peek.bind fun _ k _ _ => .ite (fun _ => keeps_enterEmpty _)
    fun _ => (grammar fuel).node k true false

/-- A number of an outermost node, if there is one. -/
def IsRoot (k : Nat) (root : Option Nat) : Prop := ∀ n, root = some n → n < k

theorem isRoot_none : IsRoot k none := by
  rintro _ ⟨⟩

theorem isRoot_some {n : Nat} (there : n < k) : IsRoot k (some n) := by
  rintro _ ⟨⟩
  exact there

/-- Behind a document there must be no other one. -/
theorem keeps_documentLast (root : Option Nat) (there : IsRoot m root) : Keeps m (do
    match root with
    | none => return none
    | some n =>
      let _ ← accept .documentEnd
      match ← documentStart with
      | none => return some n
      | some place => throw (.complaint (.secondDocument (← startOf n) place)) :
        Grow (Option Nat)) IsRoot := by
  cases root with
  | none => exact .pure fun _ _ => isRoot_none
  | some n =>
    refine (keeps_accept _).bind fun _ _ le _ => keeps_documentStart.bind fun next _ le' _ => ?_
    cases next with
    | some place => exact (keeps_startOf n).bind fun _ _ _ _ => .complaint _
    | none =>
      refine .pure fun k le'' => isRoot_some (Nat.lt_of_lt_of_le (there n rfl) ?_)
      exact Nat.le_trans le (Nat.le_trans le' le'')

/-- A document that is not empty has an outermost node. -/
theorem keeps_document (fuel : Nat) : Keeps m (document fuel) IsRoot := by
  have some_ {k : Nat} {x : Grow Nat} (h : Keeps k x IsNode) : Keeps k (some <$> x) IsRoot :=
    h.map fun k n _ there => isRoot_some there
  rw [document]
  refine keeps_peek.bind fun _ k _ _ => .ite
    (fun _ => keeps_documentStart.bind fun start k _ _ => ?_)
    fun _ => (some_ ((grammar fuel).node k true false)).bind fun root _ _ there =>
      keeps_documentLast root there
  cases start with
  | none => exact keeps_documentLast none isRoot_none
  | some place =>
    exact (some_ (keeps_documentContent fuel)).bind fun root _ _ there =>
      keeps_documentLast root there

end Grow

theorem Graph.ofTokens_eq_map (row : TokenRow) : Graph.ofTokens row =
    ((Grow.document (2 * row.tokens.length + 4)).run
      ⟨row.tokens, row.fault, #[], [], Tag.defaultHandles⟩).map fun r => ⟨r.2.nodes, r.1⟩ := by
  rw [ofTokens]
  cases (Grow.document (2 * row.tokens.length + 4)).run
    ⟨row.tokens, row.fault, #[], [], Tag.defaultHandles⟩ <;> rfl

/-- How reading nodes may end. -/
theorem Graph.ends_document (row : TokenRow) : Grow.Ends
    ⟨row.tokens, row.fault, #[], [], Tag.defaultHandles⟩ Grow.IsRoot
    ((Grow.document (2 * row.tokens.length + 4)).run
      ⟨row.tokens, row.fault, #[], [], Tag.defaultHandles⟩) :=
  Grow.keeps_document _ _ ⟨isWhole_empty, nofun⟩ (Nat.zero_le _)

/-- **Nodes are whole.**  The nodes of a row of tokens are whole, and the outermost one is among
them. -/
theorem Graph.isWhole_of_tokens {row : TokenRow} {g : Graph} (h : Graph.ofTokens row = .ok g) :
    IsWhole g.nodes ∧ ∀ n, g.root = some n → n < g.nodes.size := by
  have ends := ends_document row
  rw [ofTokens_eq_map] at h
  generalize StateT.run _ _ = r at ends h
  cases ends with
  | error stops => cases h
  | ok whole _ _ root =>
    cases h
    exact ⟨whole.nodes, root⟩

/-- Reading nodes breaks down only where the tokens do. -/
theorem Graph.breakdown_of_tokens {row : TokenRow} {b : Breakdown}
    (h : Graph.ofTokens row = .error (.breakdown b)) :
    b = .noSuchCharacter ∧ row.fault = .noSuchCharacter := by
  have ends := ends_document row
  rw [ofTokens_eq_map] at h
  generalize StateT.run _ _ = r at ends h
  cases ends with
  | error stops =>
    cases h
    exact stops b rfl
  | ok whole _ _ root => cases h

end Yaml
end ApiManual
