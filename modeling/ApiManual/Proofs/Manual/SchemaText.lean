import ApiManual.Manual.Body
import ApiManual.Proofs.Asciidoc.Listing
import ApiManual.Proofs.Json.AsYaml.Agreement
import ApiManual.Proofs.Json.Unquoted
import ApiManual.Proofs.Schemas
import ApiManual.Proofs.Text.Digit
import ApiManual.Proofs.Validation.Reordering

/-!
# The text of a schema

A manual shows the body of a schema as a source block of JSON, unless the schema stands for
another one.  Three things are said of the text of such a block, of whatever the body is made.

It stays in its block (`schema_stays_in_block`): no line of the text starts with dashes, so the
block ends where it should.

A body of nothing but null, truth values, whole numbers and texts is written if none of the numbers
has too many digits, and then it is read back from the block as it was, with its keys in their order
(`schema_reads_back`).  A longer number has no text, so there is no block
(`long_number_is_not_written`).

And if the description was read from JSON, then the text is JSON exactly as long as the numbers of
the body are finite (`schema_is_json_iff`).  They need not be: a number too large for its format is
read as an infinite one, and what is written for that is no JSON (`infinite_number_is_no_json`).
-/

namespace ApiManual

/-- A schema with a body of its own: no text other than the empty one stands under `$ref`. -/
def Schema.IsOwn (s : Schema) : Prop := ∀ t, s.body.lookup referenceKey = some (.text t) → t = ""

namespace Manual

open Asciidoc

variable {s : Schema} {blocks : List Block}

theorem nonEmpty?_of_isOwn (own : s.IsOwn) : nonEmpty? s.reference? = none := by
  rw [Schema.reference?]
  split
  · rename_i t given
    rw [own t given]
    rfl
  · rfl

/-- The body of a schema of its own is one source block. -/
theorem exists_of_schemaBlocks (own : s.IsOwn) (h : schemaBlocks s = .ok blocks) :
    ∃ json, Json.render s.toValue = .ok json ∧ blocks = [.source json "json"] := by
  rw [schemaBlocks, nonEmpty?_of_isOwn own] at h
  obtain ⟨json, written, rfl⟩ := Result.map_eq_ok h
  exact ⟨json, written, rfl⟩

theorem schemaBlocks_of_render (own : s.IsOwn) {json : String}
    (h : Json.render s.toValue = .ok json) : schemaBlocks s = .ok [.source json "json"] := by
  rw [schemaBlocks, nonEmpty?_of_isOwn own, h]
  rfl

/-- A schema of its own has a block if its body can be written. -/
theorem exists_schemaBlocks_iff (own : s.IsOwn) :
    (∃ blocks, schemaBlocks s = .ok blocks) ↔ s.toValue.IsWritable := by
  rw [← Json.exists_render_iff]
  constructor
  · rintro ⟨blocks, h⟩
    obtain ⟨json, written, -⟩ := exists_of_schemaBlocks own h
    exact ⟨json, written⟩
  · rintro ⟨json, written⟩
    exact ⟨_, schemaBlocks_of_render own written⟩

/-! ## Its lines -/

/-- No line of the text of a record starts with dashes. -/
theorem not_isMarked {line : List Char} (h : Json.IsRecordLine line) : isMarked line = false := by
  rcases h with rfl | rfl | rfl | ⟨rest, rfl⟩
  all_goals rfl

/-- The text of the block of a schema has no marked line. -/
theorem isMarked_of_render {json : String} (h : Json.render s.toValue = .ok json) :
    ∀ line ∈ json.toList.splitOn '\n', isMarked line = false :=
  fun line mem => not_isMarked (Json.isRecordLine_of_render h line mem)

/-- What is read from the block of a schema is what was written there. -/
theorem listing_of_render {json : String} (h : Json.render s.toValue = .ok json) :
    listing (render [.source json "json"]) = json :=
  listing_source (by decide) (isMarked_of_render h)

/-- **A schema stays in its block.**  Whatever the body of a schema holds, the block has two lines
that start with dashes, the second one and the one before its empty line; those between them
are braces or start with two spaces.  The lines end at line feeds, which are the only control
characters of the block. -/
theorem schema_stays_in_block (own : s.IsOwn) (h : schemaBlocks s = .ok blocks) :
    ∃ body : List (List Char),
      (render blocks).toList.splitOn '\n' =
        "[source,json]".toList :: "----".toList :: (body ++ ["----".toList, [], []]) ∧
      (∀ line ∈ body, Json.IsRecordLine line) ∧
      ((render blocks).toList.splitOn '\n').filter isMarked =
        ["----".toList, "----".toList] ∧
      Json.HasPlainLines (render blocks).toList := by
  obtain ⟨json, written, rfl⟩ := exists_of_schemaBlocks own h
  have lines := splitOn_source (by decide : '\n' ∉ "json".toList) json
  have body : (json.toList.splitOn '\n').filter isMarked = [] :=
    List.filter_eq_nil_iff.2 fun line mem => by simp [isMarked_of_render written line mem]
  refine ⟨json.toList.splitOn '\n', lines, Json.isRecordLine_of_render written, ?_, ?_⟩
  · rw [lines, List.filter_cons_of_neg (by decide), List.filter_cons_of_pos (by decide),
      List.filter_append, body]
    rfl
  · have opening : Json.HasPlainLines "[source,json]\n----\n".toList := by decide
    have closing : Json.HasPlainLines "\n----\n\n".toList := by decide
    have whole := (opening.append (Json.hasPlainLines_of_render written)).append closing
    simpa [Block.text] using whole

/-- A schema whose names, texts and numbers are full of dashes and line feeds. -/
def dashedSchema : Schema where
  body := [
    ("----", .text "----\n----"),
    ("\n----", .list [.int (-1), .pair (.text "----") (.list []), .set [.int (-1), .text "\n"]])]

/-- The dashes stay behind quotes and spaces. -/
theorem dashed_schema_stays_in_block :
    dashedSchema.IsOwn ∧ ∃ blocks, schemaBlocks dashedSchema = .ok blocks ∧
      ((render blocks).toList.splitOn '\n').filter isMarked =
        ["----".toList, "----".toList] := by
  have own : dashedSchema.IsOwn := by rintro t ⟨⟩
  obtain ⟨blocks, written⟩ : ∃ blocks, schemaBlocks dashedSchema = .ok blocks := ⟨_, rfl⟩
  obtain ⟨body, -, -, marked, -⟩ := schema_stays_in_block own written
  exact ⟨own, blocks, written, marked⟩

/-! ## What is read back -/

/-- **A schema is read back from its block.**  The body of a schema of its own that is built of
null, truth values, whole numbers and texts, in lists and in mappings from texts, is written
exactly if its numbers have texts.  From the block a reader of JSON gets the same body, the keys of
all its mappings in their order. -/
theorem schema_reads_back (own : s.IsOwn) (exact : ∀ f ∈ s.body, f.2.IsExact) :
    ((∃ blocks, schemaBlocks s = .ok blocks) ↔ s.toValue.hasText = true) ∧
    ∀ blocks, schemaBlocks s = .ok blocks →
      Json.parse? (listing (render blocks)) = some s.toValue := by
  have whole : s.toValue.IsExact := .record exact
  refine ⟨(exists_schemaBlocks_iff own).trans whole.isWritable_iff, fun blocks h => ?_⟩
  obtain ⟨json, written, rfl⟩ := exists_of_schemaBlocks own h
  rw [listing_of_render written]
  exact Json.parse?_of_render whole written

/-- A schema with escaped characters, large numbers, and empty and nested parts. -/
def escapedSchema : Schema where
  body := [
    ("type", .text "object"),
    ("a \"quoted\" \\ name", .list [
      .null, .bool true, .int (-123456789012345678901234567890), .list [], .record []]),
    ("required", .record [("b", .text "\x01\t\n"), ("a", .text "caf\xe9 \u2028 \u65e5")])]

theorem escaped_schema_reads_back :
    escapedSchema.IsOwn ∧ (∀ f ∈ escapedSchema.body, f.2.IsExact) ∧
      ∃ blocks, schemaBlocks escapedSchema = .ok blocks ∧
        Json.parse? (listing (render blocks)) = some escapedSchema.toValue := by
  have own : escapedSchema.IsOwn := by rintro t ⟨⟩
  have exact : ∀ f ∈ escapedSchema.body, f.2.IsExact := by
    refine List.forall_mem_cons.2 ⟨.text _, List.forall_mem_cons.2 ⟨.list ?_,
      List.forall_mem_singleton.2 (.record ?_)⟩⟩
    · refine List.forall_mem_cons.2 ⟨.null, List.forall_mem_cons.2 ⟨.bool true,
        List.forall_mem_cons.2 ⟨.int _, List.forall_mem_cons.2 ⟨.list (List.forall_mem_nil _),
          List.forall_mem_singleton.2 (.record (List.forall_mem_nil _))⟩⟩⟩⟩
    · exact List.forall_mem_cons.2 ⟨.text _, List.forall_mem_singleton.2 (.text _)⟩
  obtain ⟨written, read⟩ := schema_reads_back own exact
  obtain ⟨blocks, h⟩ := written.2 (by decide)
  exact ⟨own, exact, blocks, h, read blocks h⟩

/-- A schema with one whole number. -/
def countedSchema (n : Int) : Schema := ⟨[("x", .int n)]⟩

theorem isOwn_countedSchema (n : Int) : (countedSchema n).IsOwn := by rintro t ⟨⟩

theorem hasText_countedSchema (n : Int) : (countedSchema n).toValue.hasText = Text.hasIntText n := by
  show (true && Text.hasIntText n && true) = _
  rw [Bool.true_and, Bool.and_true]

/-- **Not every whole number is written.**  With one that has too many digits there is no block. -/
theorem long_number_is_not_written :
    ¬ ∀ s : Schema, s.IsOwn → (∀ f ∈ s.body, f.2.IsExact) → ∃ blocks, schemaBlocks s = .ok blocks ∧
      Json.parse? (listing (render blocks)) = some s.toValue := by
  intro always
  have exact : ∀ f ∈ (countedSchema (10 ^ Text.mostDigits)).body, f.2.IsExact :=
    List.forall_mem_singleton.2 (.int _)
  have own := isOwn_countedSchema (10 ^ Text.mostDigits)
  obtain ⟨blocks, written, -⟩ := always _ own exact
  have numbers := ((exists_schemaBlocks_iff own).1 ⟨blocks, written⟩).numbers
  rw [hasText_countedSchema, Text.hasIntText_pow] at numbers
  cases numbers

end Manual

/-! ## When it is JSON -/

namespace Value

theorem isJson_of_mem_items {vs : List Value} (h : itemsAreJson vs = true) :
    ∀ v ∈ vs, v.isJson = true := by
  induction vs with
  | nil => exact List.forall_mem_nil _
  | cons v rest ih =>
    rw [itemsAreJson, Bool.and_eq_true] at h
    exact List.forall_mem_cons.2 ⟨h.1, ih h.2⟩

theorem isJson_of_mem_entries {es : List (Scalar × Value)} (h : entriesAreJson es = true) :
    ∀ e ∈ es, e.2.isJson = true := by
  induction es with
  | nil => exact List.forall_mem_nil _
  | cons e rest ih =>
    obtain ⟨k, v⟩ := e
    simp only [entriesAreJson, Bool.and_eq_true] at h
    exact List.forall_mem_cons.2 ⟨h.1.2, ih h.2⟩

/-- The parts of a value of JSON are values of JSON. -/
theorem isJson_of_hasPart {v w : Value} (json : v.isJson = true) (part : v.HasPart w) :
    w.isJson = true := by
  induction part with
  | self v => exact json
  | item mem _ ih =>
    rw [isJson] at json
    exact ih (isJson_of_mem_items json _ mem)
  | entry mem _ ih =>
    rw [isJson, Bool.and_eq_true] at json
    exact ih (isJson_of_mem_entries json.1 _ mem)
  | first _ _ => cases json
  | second _ _ => cases json

/-- Nothing but a number without a text is in the way of writing a value of JSON. -/
theorem isWritable_iff_of_isJson {v : Value} (json : v.isJson = true) :
    v.IsWritable ↔ v.hasText = true := by
  refine ⟨IsWritable.numbers, fun numbers => ⟨fun es part e mem => ?_, fun part => ?_, numbers⟩⟩
  · have inside := isJson_of_hasPart json part
    rw [isJson, Bool.and_eq_true] at inside
    obtain ⟨t, text⟩ := exists_text_of_isText (isText_of_entriesAreJson inside.1 e mem)
    rw [text]
    rfl
  · cases isJson_of_hasPart json part

theorem HasOuterPart.hasPart {v w : Value} (part : v.HasOuterPart w) : v.HasPart w := by
  induction part with
  | self v => exact .self v
  | item mem _ ih => exact .item mem ih
  | entry mem _ ih => exact .entry mem ih

end Value

namespace Manual

open Asciidoc

/-- **When the block of a schema holds JSON.**  A schema of a description that was read from JSON is
a part of what was read, and is written unless it stands for another one or has a number without a
text.  The text of its block is JSON exactly if the numbers of its body are finite. -/
theorem schema_is_json_iff {v : Value} (json : v.isJson = true) {d : Description}
    (accepted : Descriptor.ofValue v = .ok d) {s : Schema} (mem : s ∈ d.allSchemas)
    (own : s.IsOwn) :
    v.HasPart s.toValue ∧
    ((∃ blocks, schemaBlocks s = .ok blocks) ↔ s.toValue.hasText = true) ∧
    ∀ blocks, schemaBlocks s = .ok blocks →
      ((∃ doc : Json.Document, doc.chars = (listing (render blocks)).toList) ↔
        s.toValue.HasFiniteNumbers) := by
  have named := Value.isNamed_of_isJson json
  have read := (Descriptor.ofValue_eq_ok_iff.1 accepted).2
  rw [Value.nameKeys_of_isJson v json] at read
  have part : v.HasPart s.toValue := (Description.hasOuterPart_schema named read s mem).hasPart
  have writable := Value.isWritable_iff_of_isJson (Value.isJson_of_hasPart json part)
  refine ⟨part, (exists_schemaBlocks_iff own).trans writable, fun blocks h => ?_⟩
  obtain ⟨text, written, rfl⟩ := exists_of_schemaBlocks own h
  rw [listing_of_render written]
  exact Json.exists_document_iff written

/-- The schema of one number. -/
def numberedSchema (x : Binary64) : Schema := ⟨[("x", .scalar (.float x))]⟩

/-- A descriptor with that schema alone. -/
def numberedValue (x : Binary64) : Value :=
  .record [("id", .text "api"), ("definitions", .record [("A", (numberedSchema x).toValue)])]

/-- The description that is read from it. -/
def numberedDescription (x : Binary64) : Description :=
  ⟨"api", none, none, some [("A", numberedSchema x)], none⟩

theorem isOwn_numberedSchema (x : Binary64) : (numberedSchema x).IsOwn := by rintro t ⟨⟩

/-- The number of that schema is its only one. -/
theorem hasFiniteNumbers_numberedSchema {x : Binary64} :
    (numberedSchema x).toValue.HasFiniteNumbers ↔ x.isFinite = true := by
  constructor
  · exact fun finite => finite x (.entry List.mem_cons_self (.self _))
  · rintro finite y (_ | _ | ⟨mem, part⟩)
    obtain rfl := List.mem_singleton.1 mem
    cases part
    exact finite

/-- A half is written as JSON. -/
theorem half_is_json :
    (numberedValue (.ofRatio false 1 2)).isJson = true ∧
      Descriptor.ofValue (numberedValue (.ofRatio false 1 2)) =
        .ok (numberedDescription (.ofRatio false 1 2)) ∧
      numberedSchema (.ofRatio false 1 2) ∈
        (numberedDescription (.ofRatio false 1 2)).allSchemas ∧
      (numberedSchema (.ofRatio false 1 2)).IsOwn ∧
      ∃ blocks, schemaBlocks (numberedSchema (.ofRatio false 1 2)) = .ok blocks ∧
        ∃ doc : Json.Document, doc.chars = (listing (render blocks)).toList := by
  have json : (numberedValue (.ofRatio false 1 2)).isJson = true := by rfl
  have accepted : Descriptor.ofValue (numberedValue (.ofRatio false 1 2)) =
      .ok (numberedDescription (.ofRatio false 1 2)) := rfl
  have mem : numberedSchema (.ofRatio false 1 2) ∈
      (numberedDescription (.ofRatio false 1 2)).allSchemas := List.mem_singleton.2 rfl
  have own := isOwn_numberedSchema (.ofRatio false 1 2)
  obtain ⟨-, written, iff⟩ := schema_is_json_iff json accepted mem own
  obtain ⟨blocks, h⟩ := written.2 rfl
  exact ⟨json, accepted, mem, own, blocks, h,
    (iff blocks h).2 (hasFiniteNumbers_numberedSchema.2 (by decide))⟩

/-- The number `1e400`. -/
def beyondBinary64 : Json.Number :=
  { Descriptor.bareExponent with
    exponent := Descriptor.bareExponent.exponent.map fun e => { e with digits := .ofNat 400 } }

/-- The text of that descriptor with the number `1e400`. -/
def numberedText : String :=
  "\x7b\"id\": \"api\", \"definitions\": \x7b\"A\": \x7b\"x\": 1e400\x7d\x7d\x7d"

/-- **An infinite number is written as no JSON.**  The number `1e400` of this descriptor is beyond
those of the format, so it is read as an infinite one, and the text of the schema is no document. -/
theorem infinite_number_is_no_json :
    ∃ v d, Json.parse? numberedText = some v ∧ v.isJson = true ∧ Descriptor.ofValue v = .ok d ∧
      ∃ s ∈ d.schemas, s.IsOwn ∧ ∃ blocks, schemaBlocks s = .ok blocks ∧
        ¬ ∃ doc : Json.Document, doc.chars = (listing (render blocks)).toList := by
  have spells : (Descriptor.describing (.atom (.number beyondBinary64))).chars =
      numberedText.toList := by decide +kernel
  have read : Json.parse? numberedText = some (numberedValue (.infinite false)) :=
    (Json.parse?_eq_some_iff _ _).2 ⟨_, spells, by rfl⟩
  have json : (numberedValue (.infinite false)).isJson = true := by rfl
  have mem : numberedSchema (.infinite false) ∈ (numberedDescription (.infinite false)).schemas :=
    List.mem_singleton.2 rfl
  have own := isOwn_numberedSchema (.infinite false)
  obtain ⟨text, written⟩ :
      ∃ text, Json.render (numberedSchema (.infinite false)).toValue = .ok text := ⟨_, rfl⟩
  refine ⟨_, _, read, json, rfl, _, mem, own, _,
    schemaBlocks_of_render own written, ?_⟩
  rw [listing_of_render written, Json.exists_document_iff written,
    hasFiniteNumbers_numberedSchema]
  decide

end Manual
end ApiManual
