import ApiManual.Proofs.Json.AsYaml.Values
import ApiManual.Proofs.Json.Reading

/-!
# Descriptors that are JSON

A descriptor in a file is read as YAML.  One that is JSON may as well be read as JSON, and
what it spells is then taken as a description.  Both come to the same, be it a description
or the faults of one, for an object without repeated names that is written as YAML takes it
(`Descriptor.ofFile_eq_ofValue`): white space, escapes, numbers and nesting are read alike,
and the order of the names stays.

Not all of JSON is YAML.  What `Document.isYaml` leaves out is read differently, mostly
without a word: a number with an exponent and no point is a text
(`Descriptor.reads_exponent_differently`).
-/

namespace ApiManual

open Json (Document)

/-- **JSON read as YAML.**  An object without repeated names that is written as YAML takes it
is loaded as the value that it has in JSON. -/
theorem Yaml.load_of_document {d : Document} (object : d.isObject = true)
    (isYaml : d.isYaml = true) (differ : d.namesDiffer = true) :
    ∃ l, Yaml.load (Descriptor.unifiedLines d.chars) = .ok l ∧ l.isMapping = true ∧
      l.value = .ok d.value := by
  have collection : ∀ a, d.root ≠ .atom a := by
    intro a root
    rw [Document.isObject, root] at object
    cases object
  obtain ⟨nodes, graph, tree⟩ := graph_of_document isYaml collection
  have stands : Stands nodes 0 (treeParts d.root 0) := ⟨[], [], by rw [tree]; simp, rfl⟩
  have size : nodes.size = treeSize d.root := by
    rw [← length_parts, tree, length_treeParts]
  have root : d.root.isYaml = true := by
    simp only [Document.isYaml, Bool.and_eq_true] at isYaml
    exact isYaml.1.2
  have ordered : Graph.IsOrdered nodes := fun i below =>
    isOrderedAt_of_tree d.root stands root differ i.zero_le (by omega)
  obtain ⟨s, loaded, same, made, done⟩ :=
    Graph.load_of_isOrdered ordered (n := 0) (size ▸ treeSize_pos d.root)
  refine ⟨⟨s.made, some 0⟩, ?load, ?isMapping, ?value⟩
  case load =>
    rw [Yaml.load, graph]
    exact loaded
  case isMapping =>
    have final : (s.made[0]?).join = some (Graph.final nodes 0) := (done 0 made).made
    rw [Loaded.isMapping]
    dsimp only [Option.bind_some]
    rw [final]
    rw [Document.isObject] at object
    cases root : d.root with
    | atom | emptyList | list => rw [root] at object; cases object
    | emptyObject | object =>
      rw [root, treeParts] at stands
      obtain ⟨x, there, -, content⟩ := stands.head
      rw [Graph.final_of_mapping there content]
  case value =>
    exact value_of_tree done d.root stands root made (List.forall_mem_nil _)
      (by dsimp only; rw [same, size]; omega)

namespace Descriptor

/-- **The two ways in agree.**  A file that holds an object without repeated names, written as
YAML takes it, describes what its value in JSON describes. -/
theorem ofFile_eq_ofValue {disk : FileSystem} {path : Path} {text : String}
    (read : disk.read path = .ok text) {d : Document} (spells : d.chars = text.toList)
    (object : d.isObject = true) (differ : d.namesDiffer = true) (isYaml : d.isYaml = true) :
    ∃ v, Json.parse? text = some v ∧ ofFile disk path = ofValue v := by
  obtain ⟨l, loaded, isMapping, value⟩ := Yaml.load_of_document object isYaml differ
  refine ⟨d.value, (Json.parse?_eq_some_iff text d.value).2 ⟨d, spells, rfl⟩, ?_⟩
  have mapping : mappingOfText text = .ok d.value := by
    rw [mappingOfText, ← spells, loaded]
    show (if l.isMapping then l.value.mapError .text else .error .notMapping : Except Fault _) = _
    rw [isMapping, if_pos rfl, value]
    rfl
  rw [ofFile, read]
  show ofText text = _
  rw [ofText, mapping]
  rfl

section

open Json (Gap Pieces Tree Digits Number)

/-- Nothing, where there could be white space. -/
def gap : Gap := ⟨[], nofun⟩

/-- One space. -/
def space : Gap := ⟨[' '], List.forall_mem_singleton.2 rfl⟩

/-- How a text is written that needs no escapes. -/
def unescaped (text : String) : Pieces := text.toList.filterMap fun c =>
  if plain : ' ' ≤ c ∧ c ≠ '"' ∧ c ≠ '\\' then some (.raw c plain) else none

/-- The members of an object with one name. -/
def member (name : String) (value : Tree) : Tree :=
  .object (.last gap (unescaped name) gap space value gap)

/-- A descriptor with one schema, which has one member. -/
def describing (value : Tree) : Document where
  before := gap
  root := .object (.more gap (unescaped "id") gap space (.atom (.text (unescaped "api"))) gap
    (.last space (unescaped "definitions") gap space (member "A" (member "x" value)) gap))
  after := gap

/-- A row of one digit. -/
def digit (c : Char) (isDigit : Text.isAsciiDigit c = true) : Digits :=
  ⟨[c], List.cons_ne_nil _ _, List.forall_mem_singleton.2 isDigit⟩

/-- The number `1e3`. -/
def bareExponent : Number where
  negative := false
  whole := digit '1' rfl
  noZero := nofun
  fraction := none
  exponent := some ⟨'e', .inl rfl, none, nofun, digit '3' rfl⟩

/-- The number `-1.5e+3`. -/
def fullExponent : Number where
  negative := true
  whole := digit '1' rfl
  noZero := nofun
  fraction := some (digit '5' rfl)
  exponent := some ⟨'e', .inl rfl, some '+', fun _ mem => .inl (Option.some.inj mem).symm,
    digit '3' rfl⟩

/-- A list of a number, a text with an escape, a word, and an object. -/
def mixedList : Tree :=
  .list (.more gap (.atom (.number fullExponent)) gap
    (.more space (.atom (.text [.unit '0' '0' 'e' '9' (by decide)])) gap
      (.more space (.atom (.word .yes)) gap (.last space (.emptyObject space) gap))))

/-- The text of a descriptor with this list. -/
def mixed : String := "\x7b\"id\": \"api\", \"definitions\": \x7b\"A\": \x7b\"x\": " ++
  "[-1.5e+3, \"\\u00e9\", true, \x7b \x7d]\x7d\x7d\x7d"

/-- The text of a descriptor with the number `1e3`. -/
def short : String :=
  "\x7b\"id\": \"api\", \"definitions\": \x7b\"A\": \x7b\"x\": 1e3\x7d\x7d\x7d"

/-- A directory with one file. -/
def holding (text : String) : FileSystem := ⟨[(["api.json"], .file text)]⟩

/-- Numbers, escapes and nested values are read alike. -/
theorem ofFile_eq_ofValue_of_mixed : (describing mixedList).chars = mixed.toList ∧
    ∃ v, Json.parse? mixed = some v ∧ ofFile (holding mixed) ⟨["api.json"]⟩ = ofValue v := by
  have spells : (describing mixedList).chars = mixed.toList := by decide +kernel
  have read : (holding mixed).read ⟨["api.json"]⟩ = .ok mixed := rfl
  exact ⟨spells, ofFile_eq_ofValue read spells rfl (by decide +kernel) (by decide +kernel)⟩

/-- Whether the members of the schemas of a description are texts. -/
def memberTexts (d : Description) : List Bool :=
  (d.definitions.getD []).flatMap fun schema => schema.2.body.map fun m => match m.2 with
    | .scalar s => s.isText
    | _ => false

/-- A number with an exponent and no point is a number in JSON, and in a file it is a text. -/
theorem reads_exponent_differently :
    ¬ ∀ (disk : FileSystem) (path : Path) (text : String) (d : Document),
      disk.read path = .ok text → d.chars = text.toList → d.isObject = true →
        d.namesDiffer = true → ∃ v, Json.parse? text = some v ∧ ofFile disk path = ofValue v := by
  intro always
  obtain ⟨v, parsed, same⟩ := always (holding short) ⟨["api.json"]⟩ short
    (describing (.atom (.number bareExponent))) rfl (by decide +kernel) rfl (by decide +kernel)
  have inFile : (ofFile (holding short) ⟨["api.json"]⟩).toOption.map memberTexts = some [true] := by
    decide +kernel
  have inJson : (Json.parse? short).map (fun v => (ofValue v).toOption.map memberTexts) =
      some (some [false]) := by
    decide +kernel
  rw [same] at inFile
  rw [parsed, Option.map_some, inFile] at inJson
  cases inJson

end

end Descriptor
end ApiManual
