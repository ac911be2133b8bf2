import Mathlib.Logic.Relation
import Mathlib.Data.List.Perm.Subperm
import ApiManual.Proofs.Yaml.Making
import ApiManual.Proofs.Yaml.Drawing

/-!
# What nothing looks for

Nodes may make no sense in a way that nothing looks for, and reading them breaks down.  These are
all the ways in which this can happen (`Graph.Flaw`): a scalar that is no word of the kind
that its tag says, a set as a key, a scalar or a sequence with the tag of a mapping, a scalar whose
text is that of another one and leads back to itself, a value that is inside itself, and a key that
is a whole number with too many digits.

Two of them are circles.  A way along nodes that never meets a node again is no longer than there
are nodes (`Trail.length_le`), so whoever goes on for longer is going round.
-/

namespace ApiManual
namespace Yaml

/-! ## Going round -/

/-- The nodes on a way to a node, the last one first, where no node is met twice. -/
structure Trail (R : Nat → Nat → Prop) (size : Nat) (seen : List Nat) (n : Nat) : Prop where
  leads : ∀ i ∈ seen, Relation.TransGen R i n
  nodup : seen.Nodup
  inside : ∀ i ∈ seen, i < size

theorem length_le_of_inside {seen : List Nat} {size : Nat} (nodup : seen.Nodup)
    (inside : ∀ i ∈ seen, i < size) : seen.length ≤ size := by
  have sub : seen ⊆ List.range size := fun i mem => List.mem_range.2 (inside i mem)
  have := (List.subperm_of_subset nodup sub).length_le
  rwa [List.length_range] at this

namespace Trail

variable {R : Nat → Nat → Prop} {size n m : Nat} {seen : List Nat}

theorem nil (n : Nat) : Trail R size [] n := ⟨nofun, .nil, nofun⟩

theorem cons (h : Trail R size seen n) (new : n ∉ seen) (inside : n < size) (step : R n m) :
    Trail R size (n :: seen) m where
  leads := List.forall_mem_cons.2 ⟨.single step, fun i mem => (h.leads i mem).tail step⟩
  nodup := List.nodup_cons.2 ⟨new, h.nodup⟩
  inside := List.forall_mem_cons.2 ⟨inside, h.inside⟩

/-- A way that never meets a node again is no longer than there are nodes. -/
theorem length_le (h : Trail R size seen n) : seen.length ≤ size :=
  length_le_of_inside h.nodup h.inside

end Trail

/-! ## Flaws -/

/-- What a fault of a number is for reading. -/
def NumberFault.breakdown : NumberFault → Breakdown
  | .unreadable => .badNumber
  | .empty => .emptyNumber
  | .unbounded => .endlessNumber

/-- A node cannot be what its tag says, with a text that stands for it. -/
inductive Node.Misspells (x : Node) (text : String) : Breakdown → Prop where
  | whole {fault : NumberFault} : x.tag = Tag.int → Number.whole text = .error fault →
      Misspells x text fault.breakdown
  | fractional {fault : NumberFault} : x.tag = Tag.float → Number.fractional text = .error fault →
      Misspells x text fault.breakdown
  | truth : x.tag = Tag.bool →
      Implicit.truthWords.lookup (String.ofList (text.toList.map Char.toLower)) = none →
      Misspells x text .badTruth
  | moment : x.tag = Tag.timestamp → x.content = .scalar text →
      WrittenMoment.ofChars? (Implicit.withoutLineEnd text.toList) = none →
      Misspells x text .badMoment
  | calendar {w : WrittenMoment} : x.tag = Tag.timestamp → x.content = .scalar text →
      WrittenMoment.ofChars? (Implicit.withoutLineEnd text.toList) = some w → w.scalar? = none →
      Misspells x text .noSuchMoment
  | mapped {es : List (Nat × Nat)} : x.tag = Tag.timestamp → x.content = .mapping es →
      Misspells x text .mappedMoment

/-- What is misspelt now was so at first. -/
theorem Node.Misspells.former {x y : Node} {text : String} {b : Breakdown}
    (h : y.Misspells text b) (becomes : x.Becomes y) : x.Misspells text b := by
  have same {tag : String} (at_ : y.tag = tag) (other : tag ≠ Tag.text) : x.tag = tag := by
    rcases becomes.tag with same | ⟨-, text⟩
    · exact same ▸ at_
    · exact absurd (at_.symm.trans text) other
  cases h with
  | whole tag fails => exact .whole (same tag (by decide)) fails
  | fractional tag fails => exact .fractional (same tag (by decide)) fails
  | truth tag none => exact .truth (same tag (by decide)) none
  | moment tag content none => exact .moment (same tag (by decide)) (becomes.scalar_of content) none
  | calendar tag content some none =>
    exact .calendar (same tag (by decide)) (becomes.scalar_of content) some none
  | mapped tag content =>
    obtain ⟨es, content⟩ := becomes.mapping_of content
    exact .mapped (same tag (by decide)) content

namespace Graph

variable {nodes : Array Node} {n : Nat}

/-- A mapping has another node under an equals sign, whose text stands for it. -/
def StandsFor (nodes : Array Node) (n v : Nat) : Prop :=
  ∃ k, Gives nodes n (k, v) ∧ isTagged nodes Tag.value k = true

theorem StandsFor.lt_size {v : Nat} (h : StandsFor nodes n v) (whole : IsWhole nodes) :
    v < nodes.size := by
  obtain ⟨k, given, -⟩ := h
  obtain ⟨m, mem⟩ := given.exists_entry
  exact (whole.entry mem).2

/-- The text that stands for a node. -/
inductive Spells (nodes : Array Node) : Nat → String → Prop where
  | scalar {n : Nat} {x : Node} {text : String} : nodes[n]? = some x → x.content = .scalar text →
      Spells nodes n text
  | equals {n v : Nat} {text : String} : StandsFor nodes n v → Spells nodes v text →
      Spells nodes n text

/-- A node is an item of a sequence, or a value of a mapping. -/
inductive Holds (nodes : Array Node) (n : Nat) : Nat → Prop where
  | item {x : Node} {items : List Nat} {i : Nat} : nodes[n]? = some x → x.tag = Tag.sequence →
      x.content = .sequence items → i ∈ items → Holds nodes n i
  | value {k v : Nat} : isTagged nodes Tag.mapping n = true → Gives nodes n (k, v) →
      Holds nodes n v

/-- A node is a whole number that has no text. -/
def IsUntold (nodes : Array Node) (k : Nat) : Prop :=
  ∃ x text z, nodes[k]? = some x ∧ x.tag = Tag.int ∧ Spells nodes k text ∧
    Number.whole text = .ok z ∧ Text.hasIntText z = false

/-- A key of a mapping is a whole number that has no text. -/
def HasUntoldKey (nodes : Array Node) : Prop :=
  ∃ n e, isTagged nodes Tag.mapping n = true ∧ Gives nodes n e ∧ IsUntold nodes e.1

/-- A contradiction in the nodes of a text that nothing looks for. -/
inductive Flaw (g : Graph) : Breakdown → Prop where
  /-- A scalar is no word of its kind. -/
  | misspelt {n : Nat} {x : Node} {text : String} {b : Breakdown} : g.nodes[n]? = some x →
      Spells g.nodes n text → x.Misspells text b → Flaw g b
  /-- The text of a node is its own text. -/
  | circularText {n : Nat} : Relation.TransGen (StandsFor g.nodes) n n → Flaw g .endlessValue
  /-- The key of an entry is a set. -/
  | setKey {n : Nat} {e : Nat × Nat} : isTagged g.nodes Tag.mapping n = true → Gives g.nodes n e →
      isTagged g.nodes Tag.set e.1 = true → Flaw g .setKey
  /-- A text has the tag of a mapping. -/
  | textAsMapping {n : Nat} {x : Node} {text : String} : g.nodes[n]? = some x →
      x.tag = Tag.mapping → x.content = .scalar text → text ≠ "" → Flaw g .textAsMapping
  /-- A sequence has the tag of a mapping. -/
  | sequenceAsMapping {n : Nat} {x : Node} {items : List Nat} : g.nodes[n]? = some x →
      x.tag = Tag.mapping → x.content = .sequence items → items ≠ [] → Flaw g .sequenceAsMapping
  /-- A value is inside itself. -/
  | circularValue {r n : Nat} : g.root = some r → Relation.ReflTransGen (Holds g.nodes) r n →
      Relation.TransGen (Holds g.nodes) n n → Flaw g .endlessValue
  /-- A key that would have to be told has no text. -/
  | untoldKey : HasUntoldKey g.nodes → Flaw g .untoldKey

/-- A problem is either put into words, or comes from a flaw. -/
def Explains (g : Graph) (p : Problem) : Prop := ∀ b, p = .breakdown b → g.Flaw b

end Graph

namespace Load

open Yaml.Graph

variable {o : Array Node} {s : Loading} {n : Nat}

/-! ## Texts of scalars -/

/-- What is found under a tag is one of the entries. -/
theorem run_underTag? (tag : String) (es : List (Nat × Nat)) :
    ∃ found, (underTag? tag es).run s = .ok (found, s) ∧
      ∀ v, found = some v → ∃ k, (k, v) ∈ es ∧ isTagged s.nodes tag k = true := by
  induction es with
  | nil => exact ⟨none, rfl, nofun⟩
  | cons e rest ih =>
    rw [underTag?, run_bind_of_ok (run_hasTag tag)]
    split
    · rename_i tagged
      refine ⟨some e.2, rfl, ?_⟩
      rintro _ ⟨⟩
      exact ⟨e.1, List.mem_cons_self, tagged⟩
    · obtain ⟨found, run, from_⟩ := ih
      refine ⟨found, run, fun v some_ => ?_⟩
      obtain ⟨k, mem, tagged⟩ := from_ v some_
      exact ⟨k, List.mem_cons_of_mem _ mem, tagged⟩

/-- What stands under an equals sign is given. -/
theorem standsFor_of_mem (drawn : Drawn o s.nodes) {k v : Nat} (mem : (k, v) ∈ entries s.nodes n)
    (sign : isTagged s.nodes Tag.value k = true) : StandsFor o n v := by
  rw [isTagged, decide_eq_true_eq, Option.map_eq_some_iff] at sign
  obtain ⟨y, there, tag⟩ := sign
  obtain ⟨x, was, becomes⟩ := drawn.later.exists_former there
  have other : isTagged s.nodes Tag.merge k = false :=
    Bool.eq_false_iff.2 fun merge => by
      rw [isTagged_of_node there, tag] at merge
      exact absurd merge (by decide)
  refine ⟨k, drawn.gives mem other, (isTagged_of_node was).2 ?_⟩
  rcases becomes.tag with same | ⟨-, text⟩
  · exact same ▸ tag
  · rw [tag] at text
    exact absurd text (by decide)

/-- A node has a text of its own, or another one's stands for it, or that is complained of. -/
theorem run_scalarText (fuel : Nat) (drawn : Drawn o s.nodes) {x : Node}
    (there : s.nodes[n]? = some x) :
    (∃ text, x.content = .scalar text ∧ (scalarText (fuel + 1) n).run s = .ok (text, s)) ∨
    (∃ v es, x.content = .mapping es ∧ StandsFor o n v ∧
      (scalarText (fuel + 1) n).run s = (scalarText fuel v).run s) ∨
    ∃ c, (scalarText (fuel + 1) n).run s = .error (.complaint c) := by
  have at_ : (nodeAt n).run s = .ok (x, s) := nodeAt_eq_ok.2 ⟨there, rfl⟩
  rw [scalarText, run_bind_of_ok at_]
  cases content : x.content with
  | scalar text => exact .inl ⟨text, rfl, rfl⟩
  | sequence items => exact .inr (.inr ⟨_, rfl⟩)
  | mapping es =>
    obtain ⟨found, run, from_⟩ := run_underTag? (s := s) Tag.value es
    dsimp only
    rw [run_bind_of_ok run]
    cases found with
    | none => exact .inr (.inr ⟨_, rfl⟩)
    | some v =>
      obtain ⟨k, mem, sign⟩ := from_ v rfl
      have mem : (k, v) ∈ entries s.nodes n := entries_of_content there content ▸ mem
      exact .inr (.inl ⟨v, es, rfl, standsFor_of_mem drawn mem sign, rfl⟩)

theorem exists_node_of_scalarText {fuel : Nat} {text : String} {t : Loading}
    (h : (scalarText fuel n).run s = .ok (text, t)) : ∃ x, s.nodes[n]? = some x := by
  cases fuel with
  | zero => cases h
  | succ fuel =>
    rw [scalarText, bind_eq_ok] at h
    obtain ⟨x, _, at_, -⟩ := h
    exact ⟨x, (nodeAt_eq_ok.1 at_).1⟩

/-- The text that is found is one that stands for the node. -/
theorem spells_of_scalarText (drawn : Drawn o s.nodes) {fuel : Nat} {text : String} {t : Loading}
    (h : (scalarText fuel n).run s = .ok (text, t)) : Spells o n text := by
  induction fuel generalizing n with
  | zero => cases h
  | succ fuel ih =>
    obtain ⟨y, there⟩ := exists_node_of_scalarText h
    obtain ⟨x, was, becomes⟩ := drawn.later.exists_former there
    rcases run_scalarText fuel drawn there with ⟨text', content, run⟩ | ⟨v, es, -, stands, run⟩ |
      ⟨c, run⟩
    · rw [run] at h
      cases h
      exact .scalar was (becomes.scalar_of content)
    · rw [run] at h
      exact .equals stands (ih h)
    · rw [run] at h
      cases h

/-- A node with a text is a scalar with this text, or a mapping. -/
theorem content_of_scalarText (drawn : Drawn o s.nodes) {fuel : Nat} {text : String} {t : Loading}
    {x : Node} (there : s.nodes[n]? = some x) (h : (scalarText fuel n).run s = .ok (text, t)) :
    x.content = .scalar text ∨ ∃ es, x.content = .mapping es := by
  cases fuel with
  | zero => cases h
  | succ fuel =>
    rcases run_scalarText fuel drawn there with
      ⟨text', content, run⟩ | ⟨v, es, content, -⟩ | ⟨c, run⟩
    · rw [run] at h
      cases h
      exact .inl content
    · exact .inr ⟨es, content⟩
    · rw [run] at h
      cases h

/-- Where no text is found and nothing is complained of, there is no end. -/
theorem endless_of_scalarText (whole : IsWhole o) (drawn : Drawn o s.nodes) {fuel : Nat}
    (inside : n < o.size) {b : Breakdown} (h : (scalarText fuel n).run s = .error (.breakdown b)) :
    b = .endlessValue := by
  induction fuel generalizing n with
  | zero =>
    cases h
    rfl
  | succ fuel ih =>
    obtain ⟨y, there, -⟩ := exists_nodeAt drawn inside
    rcases run_scalarText fuel drawn there with ⟨text, -, run⟩ | ⟨v, es, -, stands, run⟩ | ⟨c, run⟩
    · rw [run] at h
      cases h
    · rw [run] at h
      exact ih (stands.lt_size whole) h
    · rw [run] at h
      cases h

/-- The text that stands for a node is missed only where it goes round. -/
theorem flaw_of_scalarText {g : Graph} (whole : IsWhole g.nodes) (drawn : Drawn g.nodes s.nodes)
    {fuel : Nat} {seen : List Nat} (trail : Trail (StandsFor g.nodes) g.nodes.size seen n)
    (inside : n < g.nodes.size) (enough : g.nodes.size < fuel + seen.length) {p : Problem}
    (h : (scalarText fuel n).run s = .error p) : g.Explains p := by
  induction fuel generalizing n seen with
  | zero =>
    have := trail.length_le
    omega
  | succ fuel ih =>
    by_cases mem : n ∈ seen
    · rintro b rfl
      rw [endless_of_scalarText whole drawn inside h]
      exact .circularText (trail.leads n mem)
    obtain ⟨y, there, -⟩ := exists_nodeAt drawn inside
    rcases run_scalarText fuel drawn there with ⟨text, -, run⟩ | ⟨v, es, -, stands, run⟩ | ⟨c, run⟩
    · rw [run] at h
      cases h
    · rw [run] at h
      refine ih (trail.cons mem inside stands) (stands.lt_size whole) ?_ h
      rw [List.length_cons]
      omega
    · rw [run] at h
      cases h
      exact nofun

/-! ## Scalars -/

theorem scalarTag?_eq_some {tag : String} {kind : ScalarTag} (h : scalarTag? tag = some kind) :
    (tag, kind) ∈ [(Tag.null, ScalarTag.null), (Tag.bool, .bool), (Tag.int, .int),
      (Tag.float, .float), (Tag.binary, .binary), (Tag.timestamp, .timestamp),
      (Tag.text, .text)] := by
  obtain ⟨before, after, split, -⟩ := List.lookup_eq_some_iff.1 h
  rw [split]
  exact List.mem_append_right _ List.mem_cons_self

/-- A fault of a number is the only thing that ends reading it. -/
theorem exists_fault_of_number {α : Type} {make : α → Scalar} {r : Except NumberFault α}
    {kind : ScalarTag} {x : Node} {text : String} {b : Breakdown}
    (scalar_eq : scalar kind x text = make <$> number r)
    (h : readScalar kind x text = .error (.breakdown b)) :
    ∃ fault, r = .error fault ∧ b = fault.breakdown := by
  rw [readScalar, scalar_eq] at h
  cases r with
  | ok a => cases h
  | error fault =>
    refine ⟨fault, rfl, ?_⟩
    cases fault <;> cases h <;> rfl

/-- Where reading a scalar breaks down, it is misspelt. -/
theorem misspells_of_readScalar {kind : ScalarTag} {x : Node} {text : String} {b : Breakdown}
    (tag : scalarTag? x.tag = some kind)
    (content : x.content = .scalar text ∨ ∃ es, x.content = .mapping es)
    (h : readScalar kind x text = .error (.breakdown b)) : x.Misspells text b := by
  have tag := scalarTag?_eq_some tag
  cases kind with
  | null => cases h
  | text => cases h
  | int =>
    obtain ⟨fault, fails, rfl⟩ := exists_fault_of_number rfl h
    exact .whole (by simpa using tag) fails
  | float =>
    obtain ⟨fault, fails, rfl⟩ := exists_fault_of_number rfl h
    exact .fractional (by simpa using tag) fails
  | bool =>
    cases word : Implicit.truthWords.lookup (String.ofList (text.toList.map Char.toLower)) with
    | some b =>
      rw [readScalar, scalar, truth, word] at h
      cases h
    | none =>
      rw [readScalar, scalar, truth, word] at h
      cases h
      exact .truth (by simpa using tag) word
  | binary =>
    rw [readScalar, scalar, bytes] at h
    dsimp only at h
    split at h
    · cases h
    · split at h <;> cases h
  | timestamp =>
    have tag : x.tag = Tag.timestamp := by simpa using tag
    rw [readScalar, scalar, moment] at h
    rcases content with content | ⟨es, content⟩
    · rw [content] at h
      dsimp only at h
      cases written : WrittenMoment.ofChars? (Implicit.withoutLineEnd text.toList) with
      | none =>
        rw [written] at h
        cases h
        exact .moment tag content written
      | some w =>
        rw [written] at h
        cases there : w.scalar? with
        | none =>
          dsimp only at h
          rw [there] at h
          cases h
          exact .calendar tag content written there
        | some a =>
          dsimp only at h
          rw [there] at h
          cases h
    · rw [content] at h
      cases h
      exact .mapped tag content

/-- What is read as a scalar of one kind is such a scalar. -/
theorem exists_of_readScalar {α : Type} {make : α → Scalar} {r : Load α} {kind : ScalarTag}
    {x : Node} {text : String} {a : Scalar} (scalar_eq : scalar kind x text = make <$> r)
    (h : readScalar kind x text = .ok a) : ∃ b, a = make b := by
  rw [readScalar, scalar_eq, StateT.run_map] at h
  generalize r.run _ = outcome at h
  cases outcome with
  | ok done =>
    cases h
    exact ⟨_, rfl⟩
  | error p => cases h

theorem hasText_of_scalar? {w : WrittenMoment} {a : Scalar} (h : w.scalar? = some a) :
    a.hasText = true := by
  rw [WrittenMoment.scalar?] at h
  split at h
  · obtain ⟨-, same⟩ := Option.ite_none_right_eq_some.1 h
    cases same
    rfl
  · obtain ⟨-, same⟩ := Option.ite_none_right_eq_some.1 h
    cases same
    rfl

/-- Only a whole number has no text. -/
theorem exists_whole_of_readScalar {kind : ScalarTag} {x : Node} {text : String} {a : Scalar}
    (tag : scalarTag? x.tag = some kind) (h : readScalar kind x text = .ok a)
    (untold : a.hasText = false) :
    x.tag = Tag.int ∧ ∃ z, Number.whole text = .ok z ∧ Text.hasIntText z = false := by
  have tag := scalarTag?_eq_some tag
  cases kind with
  | null => cases h; cases untold
  | text => cases h; cases untold
  | bool =>
    obtain ⟨b, rfl⟩ := exists_of_readScalar rfl h
    cases untold
  | float =>
    obtain ⟨y, rfl⟩ := exists_of_readScalar rfl h
    cases untold
  | binary =>
    obtain ⟨bs, rfl⟩ := exists_of_readScalar rfl h
    cases untold
  | int =>
    refine ⟨by simpa using tag, ?_⟩
    rw [readScalar, scalar] at h
    cases whole : Number.whole text with
    | ok z =>
      rw [whole] at h
      cases h
      exact ⟨z, rfl, untold⟩
    | error fault =>
      rw [whole] at h
      cases fault <;> cases h
  | timestamp =>
    rw [readScalar, scalar, moment] at h
    split at h
    · split at h
      · cases h
      · split at h
        · rename_i a' there
          cases h
          rw [hasText_of_scalar? there] at untold
          cases untold
        · cases h
    · cases h

end Load
end Yaml
end ApiManual
