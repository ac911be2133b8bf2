import ApiManual.Proofs.Json.Lines
import ApiManual.Proofs.Manual.ShownText
import ApiManual.Proofs.Manual.Tree

/-!
# What the texts of documents include

If all texts that a manual shows as they are are safe, then the lines of a document that
start with the mark of inclusion lines are those for the children it was made to include,
and there are no others (`tellsIncludes_of_allSafe`).  In particular this is so if none of
these texts holds the mark (`tellsIncludes_of_mem_documents`).  Nothing is asked of the
texts in tables and schemas: whatever they hold, their lines start with a bar, a space or a
bracket.
-/

namespace ApiManual
namespace Manual

open Asciidoc

/-! ## Composed texts -/

theorem isInert_monoText {t : String} (h : IsInert t.toList) : IsInert (monoText t).toList := by
  have text : (monoText t).toList = '`' :: '+' :: (t.toList ++ '+' :: ['`']) := by
    simp [monoText]
  rw [text]
  exact ((h.append_cons (by decide) (by decide)).cons (by decide)).cons (by decide)

/-- Between texts in a row there is always a comma. -/
theorem isInert_commaJoined {texts : List String} (h : ∀ t ∈ texts, IsInert t.toList) :
    IsInert (commaJoined texts).toList := by
  induction texts with
  | nil => decide
  | cons t rest ih =>
    rw [List.forall_mem_cons] at h
    cases rest with
    | nil => simpa [commaJoined] using h.1
    | cons t' more =>
      have text : (commaJoined (t :: t' :: more)).toList =
          t.toList ++ ',' :: ' ' :: (commaJoined (t' :: more)).toList := by
        simp [commaJoined]
      rw [text]
      exact h.1.append_cons ((ih h.2).cons (by decide)) (by decide)

theorem isInert_yesNo (b : Bool) : IsInert (yesNo b).toList := by cases b <;> decide

/-- A text without colons. -/
theorem isInert_of_notMem {cs : List Char} (h : ':' ∉ cs) : IsInert cs := fun marked =>
  h (marked.subset (by decide))

theorem isInert_intText (n : Int) : IsInert (Text.intText n).toList := by
  have digits : ':' ∉ Nat.toDigits 10 n.natAbs := fun mem =>
    absurd (Nat.isDigit_of_mem_toDigits (by decide) (by decide) mem) (by decide)
  refine isInert_of_notMem ?_
  unfold Text.intText Text.natDigits
  split
  · simpa using digits
  · simpa using digits

theorem isInert_key {q : Query} (h : ∀ id, q.queryId = some id → IsInert id.toList) :
    IsInert q.key.toList := by
  have id : IsInert (q.queryId.getD "None").toList := by
    cases hq : q.queryId with
    | none => decide
    | some id => exact h id hq
  have named : ("id-" ++ q.queryId.getD "None").toList =
      ['i', 'd'] ++ '-' :: (q.queryId.getD "None").toList := by simp
  unfold Query.key
  split
  · rw [named]
    exact IsInert.append_cons (by decide) id (by decide)
  · decide
  · decide

/-! ## Bodies -/

theorem eq_some_of_nonEmpty? {t : Option String} {s : String} (h : nonEmpty? t = some s) :
    t = some s := (Option.filter_eq_some_iff.1 h).1

theorem includes_paragraph? {t : Option String}
    (h : ∀ s, t = some s → IsInert ('\n' :: s.toList)) : Includes (paragraph? t) [] := by
  unfold paragraph? nonEmpty?
  cases t with
  | none => exact .nil
  | some t =>
    rw [Option.filter_some]
    split
    · exact Includes.paragraph (h t rfl)
    · exact .nil

theorem includes_schemaBlocks {s : Schema} {blocks : List Block} (h : AllSafe s.shown)
    (hb : schemaBlocks s = .ok blocks) : Includes blocks [] := by
  unfold schemaBlocks at hb
  cases href : nonEmpty? s.reference? with
  | some ref =>
    rw [href] at hb
    cases hb
    have shown : s.reference? = some ref := eq_some_of_nonEmpty? href
    have text : (render [.raw "See ", .mono ref, .newLine, .newLine]).toList =
        ("See".toList ++ ' ' :: (monoText ref).toList ++ '\n' :: []) ++ ['\n'] := by
      simp [Block.text]
    refine Includes.of_isInert _ text ?_
    exact ((by decide : IsInert ('\n' :: "See".toList)).append_cons
      (isInert_monoText (h.identifier shown)) (by decide)).append_line (by decide)
  | none =>
    rw [href] at hb
    obtain ⟨json, hj, rfl⟩ := Result.map_eq_ok hb
    refine Includes.source "json" (by decide) fun line mem marked => ?_
    obtain ⟨rest, rfl⟩ := marked
    exact absurd (Json.opensLine_of_record hj mem rfl) (by decide)

theorem includes_titledSchema {title : String} {s : Option Schema} {blocks : List Block}
    (ht : IsInert title.toList) (h : AllSafe (s.toList.flatMap Schema.shown))
    (hb : titledSchema title s = .ok blocks) : Includes blocks [] := by
  cases s with
  | none =>
    cases hb
    exact .nil
  | some s =>
    have shown : AllSafe s.shown := by simpa using h
    obtain ⟨body, hs, rfl⟩ := Result.map_eq_ok hb
    exact (Includes.blockTitle ht).cons (includes_schemaBlocks shown hs)

/-- Attributes that can be listed without adding to the inclusion lines. -/
def AreInert (attributes : Attributes) : Prop :=
  ∀ a ∈ attributes, IsInert ('\n' :: a.1.toList ++ [':', ':']) ∧ IsInert a.2.toList

namespace AreInert

theorem nil : AreInert [] := List.forall_mem_nil _

theorem append {xs ys : Attributes} (hx : AreInert xs) (hy : AreInert ys) :
    AreInert (xs ++ ys) := List.forall_mem_append.2 ⟨hx, hy⟩

theorem single {term value : String} (ht : IsInert ('\n' :: term.toList ++ [':', ':']))
    (hv : IsInert value.toList) : AreInert [(term, value)] := by
  intro a mem
  rw [List.mem_singleton.1 mem]
  exact ⟨ht, hv⟩

theorem word [Choice α] {term : String} (a : Option α)
    (ht : IsInert ('\n' :: term.toList ++ [':', ':']))
    (hs : ∀ a : α, IsInert (Choice.spelling a).toList) :
    AreInert (wordAttribute term a) := by
  cases a with
  | none => exact nil
  | some a => exact single ht (hs a)

theorem list {term : String} {texts : List String} (ht : IsInert ('\n' :: term.toList ++ [':', ':']))
    (h : ∀ t ∈ texts, IsInert t.toList) : AreInert (listAttribute term texts) := by
  unfold listAttribute
  split
  · exact nil
  · exact single ht (isInert_commaJoined h)

theorem mvcc (supported : Bool) : AreInert (mvccAttribute supported) :=
  single (by decide) (isInert_yesNo supported)

/-- Words to choose from, spelled in a list. -/
theorem choices [Choice α] {term : String} (words : List α)
    (ht : IsInert ('\n' :: term.toList ++ [':', ':']))
    (hs : ∀ a : α, IsInert (Choice.spelling a).toList) :
    AreInert (listAttribute term (words.map Choice.spelling)) := by
  refine list ht fun t mem => ?_
  obtain ⟨a, -, rfl⟩ := List.mem_map.1 mem
  exact hs a

end AreInert

theorem includes_attributeBlocks {attributes : Attributes} (h : AreInert attributes) :
    Includes (attributeBlocks attributes) [] := by
  unfold attributeBlocks
  split
  · exact .nil
  · exact (Includes.map attributes fun a mem => Includes.labeled (h a mem).1 (h a mem).2).append_nil
      .newLine

theorem includes_titledTable {title : String} (ht : IsInert title.toList)
    (header : List String) (rows : List (List String)) :
    Includes (titledTable title header rows) [] := by
  unfold titledTable
  split
  · exact .nil
  · exact (Includes.blockTitle ht).cons (Includes.table header rows)

theorem includes_operationBlocks {o : Operation} {own : Attributes}
    (h : AllSafe o.shown) (ho : AreInert own) :
    Includes (operationBlocks o own) [] := by
  rw [Operation.shown, AllSafe.append_iff] at h
  have stability : AreInert (wordAttribute "Stability" o.stability) :=
    .word _ (by decide) fun a => by cases a <;> decide
  have locales : AreInert (listAttribute "Supported locales" o.supportedLocales) :=
    .list (by decide) h.2.identifiers
  have attributes := includes_attributeBlocks ((stability.append ho).append locales)
  have parameters : Includes
      (titledTable "Parameters" parameterHeader (o.parameters.map parameterRow)) [] :=
    includes_titledTable (by decide) ..
  have errors : Includes (titledTable "Errors" errorHeader ((byCode o.errors).map errorRow)) [] :=
    includes_titledTable (by decide) ..
  exact (((includes_paragraph? fun s hs => h.1.prose hs).append_nil attributes).append_nil parameters).append_nil errors

theorem includes_operationBody {o : Operation} {own : Attributes} {blocks : List Block}
    (h : AllSafe o.shown) (ho : AreInert own) (hb : operationBody o own = .ok blocks) :
    Includes blocks [] := by
  obtain ⟨-, rfl⟩ := operationBody_eq_ok_iff.1 hb
  exact includes_operationBlocks h ho

theorem includes_createBlocks {c : Create} {blocks : List Block} (h : AllSafe c.toOperation.shown)
    (hb : createBlocks c = .ok blocks) : Includes blocks [] := by
  have mode : AreInert (wordAttribute "Mode" c.mode) :=
    .word _ (by decide) fun a => by cases a <;> decide
  exact includes_operationBody h (mode.append (.mvcc _)) hb

theorem includes_patchBlocks {p : Patch} {blocks : List Block} (h : AllSafe p.toOperation.shown)
    (hb : patchBlocks p = .ok blocks) : Includes blocks [] := by
  have operations : AreInert
      (listAttribute "Patch operations" (p.operations.map Choice.spelling)) :=
    .choices _ (by decide) fun a => by cases a <;> decide
  exact includes_operationBody h (operations.append (.mvcc _)) hb

theorem includes_queryBlocks {q : Query} {blocks : List Block} (h : AllSafe q.shown)
    (hb : queryBlocks q = .ok blocks) : Includes blocks [] := by
  simp only [Query.shown, AllSafe.append_iff] at h
  obtain ⟨⟨⟨queryId, operation⟩, fields⟩, keys⟩ := h
  have type : AreInert [("Query type", Choice.spelling q.type)] :=
    .single (by decide) (by cases q.type <;> decide)
  have id : AreInert ((nonEmpty? q.queryId).toList.map fun id => ("Query ID", monoText id)) := by
    cases hq : nonEmpty? q.queryId with
    | none => exact .nil
    | some id =>
      have given : q.queryId = some id := eq_some_of_nonEmpty? hq
      exact .single (by decide) (isInert_monoText (queryId.identifier given))
  have paging : AreInert (wordAttribute "Paging mode" q.pagingMode) :=
    .word _ (by decide) fun a => by cases a <;> decide
  have counts : AreInert
      (listAttribute "Count policies" (q.countPolicies.map Choice.spelling)) :=
    .choices _ (by decide) fun a => by cases a <;> decide
  have queryable : AreInert (listAttribute "Queryable fields" q.queryableFields) :=
    .list (by decide) fields.identifiers
  have sorted : AreInert (listAttribute "Sort keys" q.sortKeys) := .list (by decide) keys.identifiers
  exact includes_operationBody operation
    (((((type.append id).append paging).append counts).append queryable).append sorted) hb

theorem includes_actionBlocks {a : Action} {blocks : List Block} (h : AllSafe a.shown)
    (hb : actionBlocks a = .ok blocks) : Includes blocks [] := by
  simp only [Action.shown, AllSafe.append_iff, List.cons_append, AllSafe.cons_iff] at h
  obtain ⟨-, ⟨operation, request⟩, response⟩ := h
  obtain ⟨commonBlocks, hcom, hb⟩ := Result.bind_eq_ok hb
  obtain ⟨requestBlocks, hreq, hb⟩ := Result.bind_eq_ok hb
  obtain ⟨responseBlocks, hres, hb⟩ := Result.bind_eq_ok hb
  cases hb
  have common : Includes commonBlocks [] := includes_operationBody operation .nil hcom
  have shownRequest : Includes requestBlocks [] :=
    includes_titledSchema (by decide) request hreq
  have shownResponse : Includes responseBlocks [] :=
    includes_titledSchema (by decide) response hres
  exact (common.append_nil shownRequest).append_nil shownResponse

theorem includes_errorBlocks {e : ApiError} {blocks : List Block} (h : AllSafe e.shown)
    (hb : errorBlocks e = .ok blocks) : Includes blocks [] := by
  rw [ApiError.shown, AllSafe.cons_iff] at h
  obtain ⟨-, hb⟩ := withCodes_eq_ok_iff.1 hb
  obtain ⟨schema, hs, rfl⟩ := Result.map_eq_ok hb
  have code : Includes [.labeled "Code" (Text.intText e.code)] [] :=
    .labeled (by decide) (isInert_intText e.code)
  have body : Includes schema [] := includes_titledSchema (by decide) h.2 hs
  exact code.cons (Includes.newLine.cons ((Includes.paragraph h.1).cons body))

/-! ## Documents -/

/-- A tree whose documents have no inclusion lines but those of their children. -/
inductive Tree.IsSilent : Tree → Prop
  | leaf {segment : String} {body : Except Json.WriteFault (List Block)}
      (silent : ∀ blocks, body = .ok blocks → Includes blocks []) : IsSilent (.leaf segment body)
  | branch {segment : String} {head : List Block} {children : Children}
      (silent : Includes head []) (above : ∀ c ∈ children, Includes c.1 [])
      (below : ∀ c ∈ children, c.2.IsSilent) : IsSilent (.branch segment head children)

/-- Whether the marked lines of a document are those that include the places which it lists. -/
def Document.TellsIncludes (id : String) (doc : Document) : Prop :=
  ∀ text, doc.text = .ok text →
    markedLines text = (doc.includes.map (fileAt id)).map inclusionLine

theorem includes_branch (id : String) (parent : Place) {head : List Block} {children : Children}
    (hh : Includes head []) (above : ∀ c ∈ children, Includes c.1 []) :
    Includes (head ++ children.flatMap (includeBlocks id parent))
      ((childPlaces parent children).map (fileAt id)) := by
  have lines : Includes (children.flatMap (includeBlocks id parent))
      (children.flatMap fun c => [fileAt id (c.2.segment :: parent)]) :=
    Includes.flatMap children fun c mem =>
      (above c mem).append (Includes.inclusion (notMem_fileAt (by decide) id _))
  have places : (children.flatMap fun c => [fileAt id (c.2.segment :: parent)]) =
      (childPlaces parent children).map (fileAt id) := by
    rw [childPlaces, List.map_map, ← List.map_eq_flatMap]
    rfl
  rw [places] at lines
  exact hh.append lines

mutual

/-- The documents of a silent tree include what they list. -/
theorem Tree.tellsIncludes (id : String) (up : Place) :
    ∀ t : Tree, t.IsSilent → ∀ doc ∈ t.documents id up, doc.TellsIncludes id
  | .leaf segment body, .leaf silent, doc, mem, text, ht => by
    rw [Tree.documents, List.mem_singleton] at mem
    subst mem
    cases body with
    | error fault => cases ht
    | ok blocks =>
      cases ht
      exact (silent blocks rfl).lines
  | .branch segment head children, .branch silent above below, doc, mem, text, ht => by
    rw [Tree.documents, List.mem_append, List.mem_singleton] at mem
    rcases mem with mem | rfl
    · exact childTellsIncludes id (segment :: up) children below doc mem text ht
    · cases ht
      exact (includes_branch id (segment :: up) silent above).lines

/-- The documents of silent trees include what they list. -/
theorem childTellsIncludes (id : String) (up : Place) :
    ∀ ts : Children, (∀ c ∈ ts, c.2.IsSilent) →
      ∀ doc ∈ childDocuments id up ts, doc.TellsIncludes id
  | [], _, doc, mem => by
    rw [childDocuments_nil] at mem
    cases mem
  | (above, t) :: rest, silent, doc, mem => by
    rw [childDocuments_cons, List.mem_append] at mem
    rcases mem with mem | mem
    · exact t.tellsIncludes id up (silent _ (List.mem_cons_self ..)) doc mem
    · exact childTellsIncludes id up rest (fun c hc => silent c (List.mem_cons_of_mem _ hc)) doc mem

end

/-! ## The trees of descriptions -/

/-- Children that add nothing to the inclusion lines of their parent, nor to their own. -/
def AreSilent (children : Children) : Prop :=
  ∀ c ∈ children, Includes c.1 [] ∧ c.2.IsSilent

theorem Tree.IsSilent.of_children {segment : String} {head : List Block} {children : Children}
    (hh : Includes head []) (h : AreSilent children) :
    (Tree.branch segment head children).IsSilent :=
  .branch hh (fun c mem => (h c mem).1) fun c mem => (h c mem).2

namespace AreSilent

theorem nil : AreSilent [] := List.forall_mem_nil _

theorem append {xs ys : Children} (hx : AreSilent xs) (hy : AreSilent ys) :
    AreSilent (xs ++ ys) := List.forall_mem_append.2 ⟨hx, hy⟩

theorem untitled {ts : List Tree} (h : ∀ t ∈ ts, t.IsSilent) : AreSilent (ts.map untitled) := by
  intro c mem
  obtain ⟨t, ht, rfl⟩ := List.mem_map.1 mem
  exact ⟨.nil, h t ht⟩

theorem titled {title : String} (level : Nat) {t : Tree} (ht : IsInert title.toList)
    (h : t.IsSilent) : AreSilent [titled title level t] := by
  intro c mem
  rw [List.mem_singleton.1 mem]
  exact ⟨.sectionTitle level ht, h⟩

end AreSilent

theorem isSilent_entryTree {level : Nat} {name : α → String}
    {blocks : α → Except Json.WriteFault (List Block)} {x : α} (hn : IsInert (name x).toList)
    (hb : ∀ body, blocks x = .ok body → Includes body []) :
    (entryTree level name blocks x).IsSilent := by
  refine .leaf fun shown h => ?_
  obtain ⟨body, hx, rfl⟩ := Result.map_eq_ok h
  exact (Includes.sectionTitle level (isInert_monoText hn)).cons (hb body hx)

theorem areSilent_namedSection {title : String} (segment : String) (level : Nat)
    {name : α → String} {blocks : α → Except Json.WriteFault (List Block)} {xs : List α}
    (ht : IsInert title.toList) (hn : ∀ x ∈ xs, IsInert (name x).toList)
    (hb : ∀ x ∈ xs, ∀ body, blocks x = .ok body → Includes body []) :
    AreSilent (namedSection title segment level name blocks xs) := by
  unfold namedSection
  split
  · exact .nil
  · refine .titled level ht (.of_children .nil (.untitled fun t mem => ?_))
    obtain ⟨x, hx, rfl⟩ := List.mem_map.1 mem
    have given : x ∈ xs := List.mem_mergeSort.1 hx
    exact isSilent_entryTree (hn x given) (hb x given)

theorem areSilent_operationSection {title : String} (segment : String) (level : Nat)
    {blocks : α → Except Json.WriteFault (List Block)} {o : Option α} (ht : IsInert title.toList)
    (hb : ∀ x, o = some x → ∀ body, blocks x = .ok body → Includes body []) :
    AreSilent (operationSection title segment level blocks o) := by
  cases o with
  | none => exact .nil
  | some x => exact .titled level ht (.leaf (hb x rfl))

theorem areSilent_operationsSection (level : Nat) {r : Resource}
    (h : AllSafe (r.operations.flatMap Operation.shown)) :
    AreSilent (operationsSection level r) := by
  rw [AllSafe.flatMap_iff] at h
  have shown (o : Operation) (mem : o ∈ r.operations) : AllSafe o.shown := h o mem
  refine ((((AreSilent.append ?_ ?_).append ?_).append ?_).append ?_)
  · exact areSilent_operationSection _ _ (by decide) fun c hc body =>
      includes_createBlocks (shown c.toOperation (by simp [Resource.operations, hc]))
  · exact areSilent_operationSection _ _ (by decide) fun c hc body =>
      includes_operationBody (shown c.toOperation (by simp [Resource.operations, hc])) .nil
  · exact areSilent_operationSection _ _ (by decide) fun c hc body =>
      includes_operationBody (shown c.toOperation (by simp [Resource.operations, hc])) (.mvcc _)
  · exact areSilent_operationSection _ _ (by decide) fun c hc body =>
      includes_operationBody (shown c.toOperation (by simp [Resource.operations, hc])) (.mvcc _)
  · exact areSilent_operationSection _ _ (by decide) fun c hc body =>
      includes_patchBlocks (shown c.toOperation (by simp [Resource.operations, hc]))

theorem areSilent_schemaSection (level : Nat) {s : Option Schema}
    (h : AllSafe (s.toList.flatMap Schema.shown)) : AreSilent (schemaSection level s) := by
  cases s with
  | none => exact .nil
  | some s =>
    have shown : AllSafe s.shown := by simpa using h
    exact .titled level (by decide) (.leaf fun body hb => includes_schemaBlocks shown hb)

theorem includes_resourceHead {r : Resource} (ht : AllSafe (r.title.toList.map .prose))
    (hd : AllSafe (r.description.toList.map .prose)) : Includes (resourceHead r) [] := by
  refine Includes.append_nil (includes_paragraph? ?_) (includes_paragraph? fun s hs => hd.prose hs)
  intro s hs
  obtain ⟨t, shown, rfl⟩ := Option.map_eq_some_iff.1 hs
  have given : r.title = some t := eq_some_of_nonEmpty? shown
  have inert : IsInert t.toList := (ht.prose given).of_cons
  have text : '\n' :: ("*" ++ t ++ "*").toList = ['\n'] ++ '*' :: (t.toList ++ '*' :: []) := by simp
  rw [text]
  exact IsInert.append_cons (by decide) (inert.append_cons (by decide) (by decide)) (by decide)

/-- **The documents of a resource include their children and nothing else.** -/
theorem isSilent_resourceTree (level : Nat) {r : Resource} (h : AllSafe r.shown) :
    (resourceTree level r).IsSilent := by
  simp only [Resource.shown, AllSafe.append_iff] at h
  obtain ⟨⟨⟨⟨⟨title, description⟩, schema⟩, operations⟩, actions⟩, queries⟩ := h
  rw [AllSafe.flatMap_iff] at actions queries
  have actionNames (a : Action) (mem : a ∈ r.actions) : IsInert a.name.toList :=
    actions a mem (.name a.name) (by simp [Action.shown])
  have queryIds (q : Query) (mem : q ∈ r.queries) (id : String) (given : q.queryId = some id) :
      IsInert id.toList :=
    queries q mem (.identifier id) (by simp [Query.shown, given])
  refine .of_children (includes_resourceHead title description)
    (((AreSilent.append ?_ ?_).append ?_).append ?_)
  · exact areSilent_schemaSection level schema
  · exact areSilent_operationsSection level operations
  · exact areSilent_namedSection _ _ (by decide) actionNames fun a mem body hb =>
      includes_actionBlocks (actions a mem) hb
  · exact areSilent_namedSection _ _ (by decide) (fun q mem => isInert_key (queryIds q mem))
      fun q mem body hb => includes_queryBlocks (queries q mem) hb

theorem isSilent_namedBranch {name : String} (level : Nat) {children : List Tree}
    (hn : IsInert name.toList) (h : ∀ t ∈ children, t.IsSilent) :
    (namedBranch name level children).IsSilent :=
  .of_children (.sectionTitle level (isInert_monoText hn)) (.untitled h)

theorem isSilent_allPathsTree {tree : String × β → Tree} {entries : List (String × β)}
    (h : ∀ e ∈ entries, (tree e).IsSilent) : ∀ t ∈ allPathsTree tree entries, t.IsSilent := by
  unfold allPathsTree
  split
  · exact List.forall_mem_nil _
  · intro t mem
    rw [List.mem_singleton.1 mem]
    refine .of_children (.sectionTitle 1 (by decide)) (.untitled fun t mem => ?_)
    obtain ⟨e, he, rfl⟩ := List.mem_map.1 mem
    exact h e (List.mem_mergeSort.1 he)

theorem isSilent_versionTree {entry : String × Resource} (hn : IsInert entry.1.toList)
    (h : AllSafe entry.2.shown) : (versionTree entry).IsSilent := by
  refine isSilent_namedBranch 3 hn fun t mem => ?_
  rw [List.mem_singleton.1 mem]
  exact isSilent_resourceTree 4 h

theorem isSilent_pathsTree {table : PathTable} (h : AllSafe table.shown) :
    ∀ t ∈ pathsTree table, t.IsSilent := by
  cases table with
  | flat entries =>
    refine isSilent_allPathsTree fun e mem => ?_
    obtain ⟨name, resource⟩ := AllSafe.entry h mem
    refine isSilent_namedBranch 2 name fun t mem => ?_
    rw [List.mem_singleton.1 mem]
    exact isSilent_resourceTree 3 resource
  | versioned entries =>
    refine isSilent_allPathsTree fun e mem => ?_
    obtain ⟨name, versions⟩ := AllSafe.entry h mem
    refine isSilent_namedBranch 2 name fun t mem => ?_
    obtain ⟨v, hv, rfl⟩ := List.mem_map.1 mem
    obtain ⟨version, resource⟩ := AllSafe.entry versions (List.mem_mergeSort.1 hv)
    exact isSilent_versionTree version resource
  | unsupported kind => exact List.forall_mem_nil _

theorem isSilent_catalogTree {title : String} (segment : String)
    {blocks : α → Except Json.WriteFault (List Block)} {shown : α → List ShownText}
    {c : Catalog α} (ht : IsInert title.toList) (h : AllSafe (shownEntries .name shown c))
    (hb : ∀ x, AllSafe (shown x) → ∀ body, blocks x = .ok body → Includes body []) :
    (catalogTree title segment blocks c).IsSilent := by
  refine .of_children (.sectionTitle 1 ht) (.untitled fun t mem => ?_)
  obtain ⟨e, he, rfl⟩ := List.mem_map.1 mem
  obtain ⟨name, entry⟩ := AllSafe.entry h (List.mem_mergeSort.1 he)
  exact isSilent_entryTree name (hb e.2 entry)

theorem isSilent_of_mem_sections {d : Description} (h : AllSafe d.shown) :
    ∀ t ∈ sections d, t.IsSilent := by
  simp only [Description.shown, AllSafe.append_iff, AllSafe.flatMap_iff] at h
  obtain ⟨⟨⟨-, paths⟩, definitions⟩, errors⟩ := h
  intro t mem
  rw [sections, List.mem_append, List.mem_append, List.mem_flatMap, List.mem_map,
    List.mem_map] at mem
  rcases mem with (⟨table, given, mem⟩ | ⟨c, given, rfl⟩) | ⟨c, given, rfl⟩
  · exact isSilent_pathsTree (paths table given) t mem
  · exact isSilent_catalogTree _ (by decide) (definitions c given) fun s hs body hb =>
      includes_schemaBlocks hs hb
  · exact isSilent_catalogTree _ (by decide) (errors c given) fun e he body hb =>
      includes_errorBlocks he hb

/-- What the root document says itself includes nothing. -/
theorem includes_rootHead_of_allSafe {title : String} {d : Description} (ht : IsInert title.toList)
    (hd : AllSafe d.shown) : Includes (rootHead title d) [] := by
  simp only [Description.shown, List.cons_append, AllSafe.cons_iff, AllSafe.append_iff] at hd
  have id : IsInert ("ID: " ++ monoText d.id).toList := by
    have named : ("ID: " ++ monoText d.id).toList =
        "ID:".toList ++ ' ' :: (monoText d.id).toList := by simp
    rw [named]
    exact (by decide : IsInert "ID:".toList).append_cons (isInert_monoText hd.1) (by decide)
  exact ((Includes.documentTitle ht).cons (Includes.sectionTitle 1 id)).append_nil
    (includes_paragraph? fun s hs => hd.2.1.1.1.prose hs)

/-- **The marked lines of a document are those of the documents that it was made to
include**, if all texts are safe that are shown as they are. -/
theorem tellsIncludes_of_allSafe {title : String} {d : Description} (ht : IsInert title.toList)
    (hd : AllSafe d.shown) {doc : Document} (mem : doc ∈ documents title d) :
    doc.TellsIncludes d.id := by
  have children : AreSilent ((sections d).map untitled) := .untitled (isSilent_of_mem_sections hd)
  rw [documents, List.mem_append, List.mem_singleton] at mem
  rcases mem with mem | rfl
  · exact childTellsIncludes d.id [] _ (fun c hc => (children c hc).2) doc mem
  · intro text htext
    cases htext
    exact (includes_branch d.id [] (includes_rootHead_of_allSafe ht hd)
      fun c hc => (children c hc).1).lines

/-! ## Descriptions without the mark -/

theorem isSilent_sections {d : Description} (h : AllUnmarked d.shownTexts) :
    ∀ t ∈ sections d, t.IsSilent := isSilent_of_mem_sections h.allSafe_shown

theorem includes_rootHead {title : String} {d : Description} (ht : IsUnmarked title.toList)
    (hd : AllUnmarked d.shownTexts) : Includes (rootHead title d) [] :=
  includes_rootHead_of_allSafe ht.isInert hd.allSafe_shown

/-- The marked lines of a document are those of the documents that it was made to
include, if no text that is shown as it is holds the mark of such lines. -/
theorem tellsIncludes_of_mem_documents {title : String} {d : Description}
    (h : AllUnmarked (title :: d.shownTexts)) {doc : Document} (mem : doc ∈ documents title d) :
    doc.TellsIncludes d.id := by
  obtain ⟨ht, hd⟩ := AllUnmarked.cons_iff.1 h
  exact tellsIncludes_of_allSafe ht.isInert hd.allSafe_shown mem

end Manual
end ApiManual
