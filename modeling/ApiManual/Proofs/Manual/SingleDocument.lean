import ApiManual.Proofs.Asciidoc.Outline
import ApiManual.Proofs.Json.Lines
import ApiManual.Proofs.Manual.Tree

/-!
# The manual as one document

A manual could also be a single document.  `manualPieces` goes through a description from
the top and puts down, in the order in which a reader comes to it, what there is to be
said: the titles, each with its level, and the bodies below them.  There are no files
here, no namespaces and no inclusions.

A manual is a row of *pieces*, as a schema may have no written form; `whole` makes one row
of blocks of them, if all of them can be written.  The headings of this row form an
outline (`outline_manualPieces`): behind the title of the document all levels are those of
sections, and no heading is more than one level deeper than the heading before it.  For
this a body has no heading, and everything fits below the heading that it stands under.
-/

namespace ApiManual
namespace Manual

open Asciidoc

/-! ## Pieces -/

/-- A part of a document, which may have no written form. -/
abbrev Piece := Except Json.WriteFault (List Block)

/-- Blocks that can always be written. -/
def plain (blocks : List Block) : List Piece := blocks.map fun b => .ok [b]

/-- The title of a section. -/
def heading (title : String) (level : Nat) : List Piece := plain [.sectionTitle title level]

/-- All pieces in a row, if each can be written. -/
def whole : List Piece → Except Json.WriteFault (List Block)
  | [] => .ok []
  | piece :: rest => do return (← piece) ++ (← whole rest)

/-- The pieces of some items in the order of their names. -/
def inOrder (name : α → String) (pieces : α → List Piece) (xs : List α) : List Piece :=
  (Text.sortByName name xs).flatMap pieces

/-- An item under its name. -/
def entryPiece (level : Nat) (name : String) (body : Piece) : Piece :=
  body.map fun blocks => .sectionTitle (monoText name) level :: blocks

/-! ## From the description to the document -/

/-- A section with the body of an operation, if there is one. -/
def operationPieces (title : String) (level : Nat) (body : α → Piece) (o : Option α) :
    List Piece :=
  o.toList.flatMap fun x => heading title level ++ [body x]

/-- A section with some items, each one level deeper, unless there are none. -/
def namedPieces (title : String) (level : Nat) (name : α → String)
    (blocks : α → Except Json.WriteFault (List Block)) (xs : List α) : List Piece :=
  if xs.isEmpty then []
  else heading title level ++
    inOrder name (fun x => [entryPiece (level + 1) (name x) (blocks x)]) xs

/-- A resource whose sections stand at a level. -/
def resourcePieces (level : Nat) (r : Resource) : List Piece :=
  plain (resourceHead r) ++
    r.resourceSchema.toList.flatMap
      (fun s => heading "Resource Schema" level ++ [schemaBlocks s]) ++
    operationPieces "Create" level createBlocks r.create ++
    operationPieces "Read" level readBlocks r.read ++
    operationPieces "Update" level updateBlocks r.update ++
    operationPieces "Delete" level deleteBlocks r.delete ++
    operationPieces "Patch" level patchBlocks r.patch ++
    namedPieces "Actions" level Action.name actionBlocks r.actions ++
    namedPieces "Queries" level Query.key queryBlocks r.queries

/-- The versions of a path, each with the sections of its resource one level deeper. -/
def versionPieces (versions : Versions) : List Piece :=
  inOrder Prod.fst (fun v => heading (monoText v.1) 3 ++ resourcePieces 4 v.2) versions

/-- All paths with what stands below each, unless there are none. -/
def allPathsPieces (below : β → List Piece) (entries : List (String × β)) : List Piece :=
  if entries.isEmpty then []
  else heading "Paths" 1 ++
    inOrder Prod.fst (fun e => heading (monoText e.1) 2 ++ below e.2) entries

/-- A table of paths. -/
def pathTablePieces : PathTable → List Piece
  | .flat entries => allPathsPieces (resourcePieces 3) entries
  | .versioned entries => allPathsPieces versionPieces entries
  | .unsupported _ => []

/-- A catalog with its entries. -/
def catalogPieces (title : String) (blocks : α → Except Json.WriteFault (List Block))
    (c : Catalog α) : List Piece :=
  heading title 1 ++ inOrder Prod.fst (fun e => [entryPiece 2 e.1 (blocks e.2)]) c

/-- The manual of a description. -/
def manualPieces (title : String) (d : Description) : List Piece :=
  plain [.documentTitle title, .sectionTitle ("ID: " ++ monoText d.id) 1] ++
    plain (paragraph? d.description) ++
    d.paths.toList.flatMap pathTablePieces ++
    d.definitions.toList.flatMap (catalogPieces "Definitions" schemaBlocks) ++
    d.errors.toList.flatMap (catalogPieces "Errors" errorBlocks)

/-! ## Pieces in a row -/

@[simp] theorem plain_nil : plain [] = [] := rfl

@[simp] theorem plain_append (a b : List Block) : plain (a ++ b) = plain a ++ plain b :=
  List.map_append

theorem whole_cons_eq_ok {piece : Piece} {rest : List Piece} {blocks : List Block} :
    whole (piece :: rest) = .ok blocks ↔
      ∃ a b, piece = .ok a ∧ whole rest = .ok b ∧ a ++ b = blocks := by
  rw [whole]
  refine ⟨fun h => ?_, ?_⟩
  · obtain ⟨a, ha, h⟩ := Result.bind_eq_ok h
    obtain ⟨b, hb, h⟩ := Result.bind_eq_ok h
    cases h
    exact ⟨a, b, ha, hb, rfl⟩
  · rintro ⟨a, b, rfl, hb, rfl⟩
    rw [hb]
    rfl

/-- **Rows of pieces are written one behind the other.** -/
theorem whole_append_eq_ok {xs ys : List Piece} {blocks : List Block} :
    whole (xs ++ ys) = .ok blocks ↔
      ∃ a b, whole xs = .ok a ∧ whole ys = .ok b ∧ a ++ b = blocks := by
  induction xs generalizing blocks with
  | nil => simp [whole]
  | cons piece rest ih =>
    rw [List.cons_append, whole_cons_eq_ok]
    refine ⟨?_, ?_⟩
    · rintro ⟨a, more, ha, hmore, rfl⟩
      obtain ⟨b, c, hb, hc, rfl⟩ := ih.1 hmore
      exact ⟨a ++ b, c, whole_cons_eq_ok.2 ⟨a, b, ha, hb, rfl⟩, hc, List.append_assoc ..⟩
    · rintro ⟨front, c, hfront, hc, rfl⟩
      obtain ⟨a, b, ha, hb, rfl⟩ := whole_cons_eq_ok.1 hfront
      exact ⟨a, b ++ c, ha, ih.2 ⟨b, c, hb, hc, rfl⟩, (List.append_assoc ..).symm⟩

theorem whole_plain (blocks : List Block) : whole (plain blocks) = .ok blocks := by
  induction blocks with
  | nil => rfl
  | cons b rest ih => exact whole_cons_eq_ok.2 ⟨[b], rest, rfl, ih, rfl⟩

/-! ## Bodies without headings -/

@[simp] theorem headingLevels_paragraph? (t : Option String) :
    headingLevels (paragraph? t) = [] := by
  unfold paragraph?
  cases nonEmpty? t <;> rfl

@[simp] theorem headingLevels_attributeBlocks (attributes : Attributes) :
    headingLevels (attributeBlocks attributes) = [] := by
  unfold attributeBlocks
  split
  · rfl
  · simp [headingLevels, Block.headingLevel?]

@[simp] theorem headingLevels_titledTable (title : String) (header : List String)
    (rows : List (List String)) : headingLevels (titledTable title header rows) = [] := by
  unfold titledTable
  split <;> rfl

@[simp] theorem headingLevels_operationBlocks (o : Operation) (own : Attributes) :
    headingLevels (operationBlocks o own) = [] := by
  simp [operationBlocks]

theorem headingLevels_operationBody {o : Operation} {own : Attributes} {blocks : List Block}
    (h : operationBody o own = .ok blocks) : headingLevels blocks = [] := by
  obtain ⟨-, rfl⟩ := operationBody_eq_ok_iff.1 h
  exact headingLevels_operationBlocks o own

theorem headingLevels_schemaBlocks {s : Schema} {blocks : List Block}
    (h : schemaBlocks s = .ok blocks) : headingLevels blocks = [] := by
  unfold schemaBlocks at h
  split at h
  · cases h
    rfl
  · obtain ⟨json, -, rfl⟩ := Result.map_eq_ok h
    rfl

theorem headingLevels_titledSchema {title : String} {s : Option Schema} {blocks : List Block}
    (h : titledSchema title s = .ok blocks) : headingLevels blocks = [] := by
  cases s with
  | none =>
    cases h
    rfl
  | some s =>
    obtain ⟨body, hs, rfl⟩ := Result.map_eq_ok h
    show headingLevels body = []
    exact headingLevels_schemaBlocks hs

theorem headingLevels_actionBlocks {a : Action} {blocks : List Block}
    (h : actionBlocks a = .ok blocks) : headingLevels blocks = [] := by
  obtain ⟨common, hcom, h⟩ := Result.bind_eq_ok h
  obtain ⟨request, hreq, h⟩ := Result.bind_eq_ok h
  obtain ⟨response, hres, h⟩ := Result.bind_eq_ok h
  cases h
  simp [headingLevels_operationBody hcom, headingLevels_titledSchema hreq,
    headingLevels_titledSchema hres]

theorem headingLevels_errorBlocks {e : ApiError} {blocks : List Block}
    (h : errorBlocks e = .ok blocks) : headingLevels blocks = [] := by
  obtain ⟨-, h⟩ := withCodes_eq_ok_iff.1 h
  obtain ⟨schema, hs, rfl⟩ := Result.map_eq_ok h
  rw [headingLevels_append, headingLevels_titledSchema hs]
  rfl

/-! ## The outline -/

/-- Pieces that fit below a heading of a level. -/
def Fits (level : Nat) (pieces : List Piece) : Prop :=
  ∀ blocks, whole pieces = .ok blocks → Outlined level blocks

namespace Fits

variable {level : Nat} {xs ys : List Piece}

theorem nil : Fits level [] := by
  intro blocks h
  cases h
  exact .of_eq_nil rfl

theorem append (hx : Fits level xs) (hy : Fits level ys) : Fits level (xs ++ ys) := by
  intro blocks h
  obtain ⟨a, b, ha, hb, rfl⟩ := whole_append_eq_ok.1 h
  exact (hx a ha).append (hy b hb)

theorem flatMap {pieces : α → List Piece} (items : List α)
    (h : ∀ x ∈ items, Fits level (pieces x)) : Fits level (items.flatMap pieces) := by
  induction items with
  | nil => exact nil
  | cons x rest ih =>
    rw [List.forall_mem_cons] at h
    exact h.1.append (ih h.2)

/-- A body. -/
theorem body {piece : Piece} (h : ∀ blocks, piece = .ok blocks → headingLevels blocks = []) :
    Fits level [piece] := by
  intro blocks written
  obtain ⟨a, b, ha, hb, rfl⟩ := whole_cons_eq_ok.1 written
  cases hb
  rw [List.append_nil]
  exact .of_eq_nil (h a ha)

theorem plain {blocks : List Block} (h : headingLevels blocks = []) :
    Fits level (Manual.plain blocks) := by
  intro row written
  rw [whole_plain] at written
  cases written
  exact .of_eq_nil h

/-- **A heading with what fits below it.** -/
theorem heading_append (title : String) (bound : level < deepestLevel)
    (h : Fits (level + 1) xs) : Fits level (heading title (level + 1) ++ xs) := by
  intro blocks written
  obtain ⟨a, b, ha, hb, rfl⟩ := whole_append_eq_ok.1 written
  rw [heading, whole_plain] at ha
  cases ha
  exact (h b hb).section_cons title bound

/-- An item under its name. -/
theorem entry (name : String) {piece : Piece} (bound : level < deepestLevel)
    (h : ∀ blocks, piece = .ok blocks → headingLevels blocks = []) :
    Fits level [entryPiece (level + 1) name piece] := by
  intro blocks written
  obtain ⟨a, b, ha, hb, rfl⟩ := whole_cons_eq_ok.1 written
  obtain ⟨body, hbody, rfl⟩ := Result.map_eq_ok ha
  cases hb
  rw [List.append_nil]
  exact Outlined.section_cons _ (.of_eq_nil (h body hbody)) bound

theorem inOrder {name : α → String} {pieces : α → List Piece} (items : List α)
    (h : ∀ x, Fits level (pieces x)) : Fits level (Manual.inOrder name pieces items) :=
  flatMap _ fun x _ => h x

end Fits

variable {level : Nat}

theorem fits_operationPieces (title : String) (bound : level < deepestLevel)
    {body : α → Piece} (h : ∀ x blocks, body x = .ok blocks → headingLevels blocks = [])
    (o : Option α) : Fits level (operationPieces title (level + 1) body o) :=
  .flatMap _ fun x _ => .heading_append title bound (.body (h x))

theorem fits_namedPieces (title : String) (bound : level + 1 < deepestLevel) (name : α → String)
    {blocks : α → Except Json.WriteFault (List Block)}
    (h : ∀ x body, blocks x = .ok body → headingLevels body = []) (xs : List α) :
    Fits level (namedPieces title (level + 1) name blocks xs) := by
  unfold namedPieces
  split
  · exact .nil
  · exact .heading_append title (Nat.lt_of_succ_lt bound) (.inOrder _ fun x => .entry _ bound (h x))

/-- The sections of a resource, with room for one more level below them. -/
theorem fits_resourcePieces (bound : level + 1 < deepestLevel) (r : Resource) :
    Fits level (resourcePieces (level + 1) r) := by
  have here : level < deepestLevel := Nat.lt_of_succ_lt bound
  have schema : Fits level (r.resourceSchema.toList.flatMap
      fun s => heading "Resource Schema" (level + 1) ++ [schemaBlocks s]) :=
    .flatMap _ fun s _ => .heading_append _ here (.body fun _ => headingLevels_schemaBlocks)
  have head : Fits level (plain (resourceHead r)) := by
    refine .plain ?_
    rw [resourceHead, headingLevels_append, headingLevels_paragraph?, headingLevels_paragraph?]
    rfl
  refine (((((((head.append schema).append ?_).append ?_).append ?_).append ?_).append ?_).append
    ?_).append ?_
  · exact fits_operationPieces _ here (fun _ _ => headingLevels_operationBody) r.create
  · exact fits_operationPieces _ here (fun _ _ => headingLevels_operationBody) r.read
  · exact fits_operationPieces _ here (fun _ _ => headingLevels_operationBody) r.update
  · exact fits_operationPieces _ here (fun _ _ => headingLevels_operationBody) r.delete
  · exact fits_operationPieces _ here (fun _ _ => headingLevels_operationBody) r.patch
  · exact fits_namedPieces _ bound _ (fun _ _ => headingLevels_actionBlocks) r.actions
  · exact fits_namedPieces _ bound _ (fun _ _ => headingLevels_operationBody) r.queries

theorem fits_allPathsPieces {below : β → List Piece} (h : ∀ x, Fits 2 (below x))
    (entries : List (String × β)) : Fits 0 (allPathsPieces below entries) := by
  unfold allPathsPieces
  split
  · exact .nil
  · exact .heading_append _ (by decide) (.inOrder _ fun e => .heading_append _ (by decide) (h e.2))

theorem fits_pathTablePieces (table : PathTable) : Fits 0 (pathTablePieces table) := by
  cases table with
  | flat entries => exact fits_allPathsPieces (fits_resourcePieces (by decide)) entries
  | versioned entries =>
    have versions (vs : Versions) : Fits 2 (versionPieces vs) :=
      .inOrder vs fun v => .heading_append _ (by decide) (fits_resourcePieces (by decide) v.2)
    exact fits_allPathsPieces versions entries
  | unsupported kind => exact .nil

theorem fits_catalogPieces (title : String) {blocks : α → Except Json.WriteFault (List Block)}
    (h : ∀ x body, blocks x = .ok body → headingLevels body = []) (c : Catalog α) :
    Fits 0 (catalogPieces title blocks c) :=
  .heading_append _ (by decide) (.inOrder _ fun e => .entry _ (by decide) (h e.2))

/-- **The headings of a manual are an outline**: the title comes first, all others are those of
sections, and none is more than one level deeper than the heading before it. -/
theorem outline_manualPieces {title : String} {d : Description} {blocks : List Block}
    (h : whole (manualPieces title d) = .ok blocks) :
    ∃ levels, headingLevels blocks = 0 :: levels ∧
      (∀ level ∈ levels, 1 ≤ level ∧ level ≤ deepestLevel) ∧ IsGradual (0 :: levels) := by
  have id : Fits 0 (heading ("ID: " ++ monoText d.id) 1 ++ plain (paragraph? d.description)) :=
    .heading_append _ (by decide) (.plain (headingLevels_paragraph? _))
  have paths : Fits 0 (d.paths.toList.flatMap pathTablePieces) :=
    .flatMap _ fun t _ => fits_pathTablePieces t
  have definitions : Fits 0
      (d.definitions.toList.flatMap (catalogPieces "Definitions" schemaBlocks)) :=
    .flatMap _ fun c _ => fits_catalogPieces _ (fun _ _ => headingLevels_schemaBlocks) c
  have errors : Fits 0 (d.errors.toList.flatMap (catalogPieces "Errors" errorBlocks)) :=
    .flatMap _ fun c _ => fits_catalogPieces _ (fun _ _ => headingLevels_errorBlocks) c
  have below := ((id.append paths).append definitions).append errors
  obtain ⟨a, rest, ha, written, rfl⟩ := whole_cons_eq_ok.1 h
  cases ha
  have outlined : Outlined 0 rest := below rest written
  exact ⟨headingLevels rest, rfl, outlined.deeper, outlined.gradual⟩

end Manual
end ApiManual
