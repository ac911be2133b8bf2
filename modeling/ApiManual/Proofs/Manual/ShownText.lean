import ApiManual.Description.Basic
import ApiManual.Proofs.Asciidoc.Inclusion

/-!
# The texts that a manual shows as they are

A manual shows some texts of its description as they are: identifiers, titles,
descriptions, and what is listed behind a term.  Others are made safe first, those in
the cells of tables and those in the bodies of schemas.  `Description.shownTexts` lists
the first kind.

Not all of them are the same risk.  Prose stands at the front of a line.  An identifier is
always shown behind something else on its line, and a name is besides without white space
in a description that has been accepted.  `Description.shown` lists the same texts with
this told of each (`Description.map_text_shown`), and a text is safe if it cannot add a
line that starts with the mark of inclusion lines, where it stands.
-/

namespace ApiManual

/-! ## What is shown -/

/-- What is shown of a schema that stands for another one. -/
def Schema.shownTexts (s : Schema) : List String := s.reference?.toList

/-- What is shown of every operation. -/
def Operation.shownTexts (o : Operation) : List String :=
  o.description.toList ++ o.supportedLocales

/-- What is shown of an action. -/
def Action.shownTexts (a : Action) : List String :=
  a.name :: a.toOperation.shownTexts ++ a.request.toList.flatMap Schema.shownTexts ++
    a.response.toList.flatMap Schema.shownTexts

/-- What is shown of a query. -/
def Query.shownTexts (q : Query) : List String :=
  q.queryId.toList ++ q.toOperation.shownTexts ++ q.queryableFields ++ q.sortKeys

/-- What is shown of an error of the catalog. -/
def ApiError.shownTexts (e : ApiError) : List String :=
  e.description :: e.schema.toList.flatMap Schema.shownTexts

/-- The operations of a resource that have no name. -/
def Resource.operations (r : Resource) : List Operation :=
  r.create.toList.map Create.toOperation ++ r.read.toList.map Read.toOperation ++
    r.update.toList.map Update.toOperation ++ r.delete.toList.map Delete.toOperation ++
    r.patch.toList.map Patch.toOperation

/-- What is shown of a resource. -/
def Resource.shownTexts (r : Resource) : List String :=
  r.title.toList ++ r.description.toList ++ r.resourceSchema.toList.flatMap Schema.shownTexts ++
    r.operations.flatMap Operation.shownTexts ++ r.actions.flatMap Action.shownTexts ++
    r.queries.flatMap Query.shownTexts

/-- What is shown of the entries of a table: their names, and what is shown of each. -/
def entryTexts (texts : α → List String) (entries : List (String × α)) : List String :=
  entries.flatMap fun e => e.1 :: texts e.2

/-- What is shown of a table of paths. -/
def PathTable.shownTexts : PathTable → List String
  | .flat entries => entryTexts Resource.shownTexts entries
  | .versioned entries => entryTexts (entryTexts Resource.shownTexts) entries
  | .unsupported _ => []

/-- The texts of a description that its manual shows as they are. -/
def Description.shownTexts (d : Description) : List String :=
  d.id :: d.description.toList ++ d.paths.toList.flatMap PathTable.shownTexts ++
    d.definitions.toList.flatMap (entryTexts Schema.shownTexts) ++
    d.errors.toList.flatMap (entryTexts ApiError.shownTexts)

/-! ## What it is shown as -/

/-- A text that is shown as it is. -/
inductive ShownText
  /-- A title or a description, in which everything may stand. -/
  | prose (text : String)
  /-- What something is known by, or stands for. -/
  | identifier (text : String)
  /-- What something is known by that is refused if there is white space in it. -/
  | name (text : String)
deriving DecidableEq, Repr

/-- The text itself. -/
def ShownText.text : ShownText → String
  | prose t => t
  | identifier t => t
  | name t => t

/-- What is shown of a schema, and as what. -/
def Schema.shown (s : Schema) : List ShownText := s.reference?.toList.map .identifier

/-- What is shown of every operation, and as what. -/
def Operation.shown (o : Operation) : List ShownText :=
  o.description.toList.map .prose ++ o.supportedLocales.map .identifier

/-- What is shown of an action, and as what. -/
def Action.shown (a : Action) : List ShownText :=
  .name a.name :: a.toOperation.shown ++ a.request.toList.flatMap Schema.shown ++
    a.response.toList.flatMap Schema.shown

/-- What is shown of a query, and as what. -/
def Query.shown (q : Query) : List ShownText :=
  q.queryId.toList.map .identifier ++ q.toOperation.shown ++ q.queryableFields.map .identifier ++
    q.sortKeys.map .identifier

/-- What is shown of an error of the catalog, and as what. -/
def ApiError.shown (e : ApiError) : List ShownText :=
  .prose e.description :: e.schema.toList.flatMap Schema.shown

/-- What is shown of a resource, and as what. -/
def Resource.shown (r : Resource) : List ShownText :=
  r.title.toList.map .prose ++ r.description.toList.map .prose ++
    r.resourceSchema.toList.flatMap Schema.shown ++ r.operations.flatMap Operation.shown ++
    r.actions.flatMap Action.shown ++ r.queries.flatMap Query.shown

/-- What is shown of the entries of a table, which are known by texts of one kind. -/
def shownEntries (known : String → ShownText) (shown : α → List ShownText)
    (entries : List (String × α)) : List ShownText :=
  entries.flatMap fun e => known e.1 :: shown e.2

/-- What is shown of a table of paths, and as what. -/
def PathTable.shown : PathTable → List ShownText
  | .flat entries => shownEntries .identifier Resource.shown entries
  | .versioned entries =>
    shownEntries .identifier (shownEntries .identifier Resource.shown) entries
  | .unsupported _ => []

/-- What a manual shows of a description, and as what. -/
def Description.shown (d : Description) : List ShownText :=
  .identifier d.id :: d.description.toList.map .prose ++ d.paths.toList.flatMap PathTable.shown ++
    d.definitions.toList.flatMap (shownEntries .name Schema.shown) ++
    d.errors.toList.flatMap (shownEntries .name ApiError.shown)

/-! ## The same texts -/

theorem ShownText.map_text_prose (texts : List String) :
    (texts.map prose).map text = texts := by
  rw [List.map_map]
  exact List.map_id texts

theorem ShownText.map_text_identifier (texts : List String) :
    (texts.map identifier).map text = texts := by
  rw [List.map_map]
  exact List.map_id texts

theorem Schema.map_text_shown (s : Schema) : s.shown.map ShownText.text = s.shownTexts :=
  ShownText.map_text_identifier _

theorem Operation.map_text_shown (o : Operation) :
    o.shown.map ShownText.text = o.shownTexts := by
  rw [shown, shownTexts, List.map_append, ShownText.map_text_prose, ShownText.map_text_identifier]

theorem Action.map_text_shown (a : Action) : a.shown.map ShownText.text = a.shownTexts := by
  simp only [shown, shownTexts, List.map_append, List.map_cons, List.map_flatMap,
    Operation.map_text_shown, Schema.map_text_shown, ShownText.text]

theorem Query.map_text_shown (q : Query) : q.shown.map ShownText.text = q.shownTexts := by
  simp only [shown, shownTexts, List.map_append, Operation.map_text_shown,
    ShownText.map_text_identifier]

theorem ApiError.map_text_shown (e : ApiError) : e.shown.map ShownText.text = e.shownTexts := by
  simp only [shown, shownTexts, List.map_cons, List.map_flatMap, Schema.map_text_shown,
    ShownText.text]

theorem Resource.map_text_shown (r : Resource) : r.shown.map ShownText.text = r.shownTexts := by
  simp only [shown, shownTexts, List.map_append, List.map_flatMap, Schema.map_text_shown,
    Operation.map_text_shown, Action.map_text_shown, Query.map_text_shown,
    ShownText.map_text_prose]

theorem map_text_shownEntries {known : String → ShownText} {shown : α → List ShownText}
    {texts : α → List String} (hk : ∀ s, (known s).text = s)
    (hs : ∀ x, (shown x).map ShownText.text = texts x) (entries : List (String × α)) :
    (shownEntries known shown entries).map ShownText.text = entryTexts texts entries := by
  simp only [shownEntries, entryTexts, List.map_flatMap, List.map_cons, hk, hs]

theorem PathTable.map_text_shown (t : PathTable) : t.shown.map ShownText.text = t.shownTexts := by
  cases t with
  | flat entries => exact map_text_shownEntries (fun _ => rfl) Resource.map_text_shown entries
  | versioned entries =>
    exact map_text_shownEntries (fun _ => rfl)
      (map_text_shownEntries (fun _ => rfl) Resource.map_text_shown) entries
  | unsupported kind => rfl

/-- **Both lists are of the same texts.** -/
theorem Description.map_text_shown (d : Description) :
    d.shown.map ShownText.text = d.shownTexts := by
  have definitions (c : Catalog Schema) :
      (shownEntries .name Schema.shown c).map ShownText.text = entryTexts Schema.shownTexts c :=
    map_text_shownEntries (fun _ => rfl) Schema.map_text_shown c
  have errors (c : Catalog ApiError) :
      (shownEntries .name ApiError.shown c).map ShownText.text =
        entryTexts ApiError.shownTexts c :=
    map_text_shownEntries (fun _ => rfl) ApiError.map_text_shown c
  simp only [shown, shownTexts, List.map_append, List.map_cons, List.map_flatMap,
    PathTable.map_text_shown, definitions, errors, ShownText.map_text_prose, ShownText.text]

/-! ## Safe texts -/

open Asciidoc

/-- Whether no line that starts with the mark can come from a text, where it is shown. -/
def ShownText.IsSafe : ShownText → Prop
  | .prose t => IsInert ('\n' :: t.toList)
  | .identifier t => IsInert t.toList
  | .name t => IsInert t.toList

/-- A text without the mark is safe wherever it stands. -/
theorem ShownText.isSafe_of_isUnmarked {t : ShownText} (h : IsUnmarked t.text.toList) :
    t.IsSafe := by
  cases t with
  | prose t => exact h.isInert_cons
  | identifier t => exact h.isInert
  | name t => exact h.isInert

namespace Manual

/-- Texts none of which holds the mark of inclusion lines. -/
def AllUnmarked (texts : List String) : Prop := ∀ t ∈ texts, IsUnmarked t.toList

instance (texts : List String) : Decidable (AllUnmarked texts) :=
  inferInstanceAs (Decidable (∀ _ ∈ _, _))

theorem AllUnmarked.cons_iff {t : String} {texts : List String} :
    AllUnmarked (t :: texts) ↔ IsUnmarked t.toList ∧ AllUnmarked texts := List.forall_mem_cons

/-- Texts all of which are safe. -/
def AllSafe (texts : List ShownText) : Prop := ∀ t ∈ texts, t.IsSafe

namespace AllSafe

@[simp] theorem cons_iff {t : ShownText} {texts : List ShownText} :
    AllSafe (t :: texts) ↔ t.IsSafe ∧ AllSafe texts := List.forall_mem_cons

@[simp] theorem append_iff {xs ys : List ShownText} :
    AllSafe (xs ++ ys) ↔ AllSafe xs ∧ AllSafe ys := List.forall_mem_append

@[simp] theorem flatMap_iff {f : α → List ShownText} {xs : List α} :
    AllSafe (xs.flatMap f) ↔ ∀ x ∈ xs, AllSafe (f x) := List.forall_mem_flatMap

theorem prose {t : Option String} (h : AllSafe (t.toList.map .prose)) {s : String}
    (hs : t = some s) : IsInert ('\n' :: s.toList) := by
  have shown : s ∈ t.toList := by
    rw [hs]
    exact List.mem_singleton_self s
  exact h (.prose s) (List.mem_map_of_mem shown)

theorem identifiers {texts : List String} (h : AllSafe (texts.map .identifier)) :
    ∀ t ∈ texts, IsInert t.toList := fun t mem => h (.identifier t) (List.mem_map_of_mem mem)

theorem identifier {t : Option String} (h : AllSafe (t.toList.map .identifier)) {s : String}
    (hs : t = some s) : IsInert s.toList := by
  have shown : s ∈ t.toList := by
    rw [hs]
    exact List.mem_singleton_self s
  exact h.identifiers s shown

/-- What is shown of an entry is shown of the table. -/
theorem entry {known : String → ShownText} {shown : α → List ShownText}
    {entries : List (String × α)} (h : AllSafe (shownEntries known shown entries))
    {e : String × α} (mem : e ∈ entries) : (known e.1).IsSafe ∧ AllSafe (shown e.2) := by
  rw [shownEntries, flatMap_iff] at h
  exact cons_iff.1 (h e mem)

end AllSafe

/-- Texts without the mark are safe, whatever they are shown as. -/
theorem AllUnmarked.allSafe_shown {d : Description} (h : AllUnmarked d.shownTexts) :
    AllSafe d.shown := fun t mem =>
  ShownText.isSafe_of_isUnmarked (h t.text (d.map_text_shown ▸ List.mem_map_of_mem mem))

end Manual
end ApiManual
