import ApiManual.Proofs.Asciidoc.Substitution
import ApiManual.Proofs.Manual.Inclusions
import ApiManual.Proofs.Manual.SingleDocument

/-!
# The files of a manual put together

The files of a manual are written from the bottom up, one for each document, and each
knows of those below it no more than their names.  Here they are put together again: in
the place of every inclusion line comes the content of its file.  What comes out at the
root is the single document of `manualPieces`, which goes through the description from the
top and knows of no files (`single_document_of_success`).

Two things have to agree for this.  The pieces of a tree, taken depth-first, are those of
the single document (`childPieces_sections`).  And the text that stands in a file, with
the files that it includes, is that of the pieces of its tree (`Tree.assembled`): below a
document this is known of all children, and its own blocks include nothing else.
-/

namespace ApiManual
namespace Manual

open Asciidoc

/-! ## The pieces of a tree -/

mutual

/-- What a document and the documents that it includes say, in the order of reading. -/
def Tree.pieces : Tree → List Piece
  | .leaf _ body => [body]
  | .branch _ head children => plain head ++ childPieces children

/-- What some children say, each below what stands above it. -/
def childPieces : Children → List Piece
  | [] => []
  | (above, t) :: rest => plain above ++ t.pieces ++ childPieces rest

end

theorem childPieces_eq_flatMap (ts : Children) :
    childPieces ts = ts.flatMap fun c => plain c.1 ++ c.2.pieces := by
  induction ts with
  | nil => rw [childPieces, List.flatMap_nil]
  | cons c rest ih => rw [childPieces, ih, List.flatMap_cons]

theorem childPieces_append (ts more : Children) :
    childPieces (ts ++ more) = childPieces ts ++ childPieces more := by
  rw [childPieces_eq_flatMap, childPieces_eq_flatMap, childPieces_eq_flatMap, List.flatMap_append]

theorem childPieces_untitled (ts : List Tree) :
    childPieces (ts.map untitled) = ts.flatMap Tree.pieces := by
  rw [childPieces_eq_flatMap, List.flatMap_map]
  rfl

theorem childPieces_titled (title : String) (level : Nat) (t : Tree) :
    childPieces [titled title level t] = heading title level ++ t.pieces := by
  rw [childPieces_eq_flatMap, List.flatMap_singleton]
  rfl

/-- Documents in the order of their names. -/
theorem childPieces_inOrder (name : α → String) {tree : α → Tree} {pieces : α → List Piece}
    (h : ∀ x, (tree x).pieces = pieces x) (xs : List α) :
    childPieces (((Text.sortByName name xs).map tree).map untitled) = inOrder name pieces xs := by
  rw [childPieces_untitled, inOrder, List.flatMap_map]
  exact List.flatMap_congr fun x _ => h x

/-! ### Resources -/

theorem childPieces_operationSection (title segment : String) (level : Nat)
    (body : α → Piece) (o : Option α) :
    childPieces (operationSection title segment level body o) =
      operationPieces title level body o := by
  cases o with
  | none => rfl
  | some x => exact (childPieces_titled title level _).trans (List.append_nil _).symm

theorem childPieces_namedSection (title segment : String) (level : Nat) (name : α → String)
    (blocks : α → Except Json.WriteFault (List Block)) (xs : List α) :
    childPieces (namedSection title segment level name blocks xs) =
      namedPieces title level name blocks xs := by
  unfold namedSection namedPieces
  split
  · rfl
  · rw [childPieces_titled, Tree.pieces, plain_nil, List.nil_append]
    exact congrArg _ (childPieces_inOrder name (fun _ => rfl) xs)

theorem pieces_resourceTree (level : Nat) (r : Resource) :
    (resourceTree level r).pieces = resourcePieces level r := by
  have schema : childPieces (schemaSection level r.resourceSchema) =
      r.resourceSchema.toList.flatMap
        fun s => heading "Resource Schema" level ++ [schemaBlocks s] := by
    cases r.resourceSchema with
    | none => rfl
    | some s => exact (childPieces_titled _ level _).trans (List.append_nil _).symm
  simp only [resourceTree, Tree.pieces, resourceSections, operationsSection, actionsSection,
    queriesSection, childPieces_append, childPieces_operationSection, childPieces_namedSection,
    schema, resourcePieces, List.append_assoc]

/-! ### Tables -/

/-- The document of a name that includes others. -/
theorem pieces_namedBranch (name : String) (level : Nat) (children : List Tree) :
    (namedBranch name level children).pieces =
      heading (monoText name) level ++ children.flatMap Tree.pieces := by
  rw [namedBranch, Tree.pieces, childPieces_untitled]
  rfl

theorem pieces_pathTree (e : String × Resource) :
    (pathTree e).pieces = heading (monoText e.1) 2 ++ resourcePieces 3 e.2 := by
  rw [pathTree, pieces_namedBranch, List.flatMap_singleton, pieces_resourceTree]

theorem pieces_versionTree (e : String × Resource) :
    (versionTree e).pieces = heading (monoText e.1) 3 ++ resourcePieces 4 e.2 := by
  rw [versionTree, pieces_namedBranch, List.flatMap_singleton, pieces_resourceTree]

theorem pieces_versionedPathTree (e : String × Versions) :
    (versionedPathTree e).pieces = heading (monoText e.1) 2 ++ versionPieces e.2 := by
  rw [versionedPathTree, pieces_namedBranch, ← childPieces_untitled,
    childPieces_inOrder Prod.fst pieces_versionTree]
  rfl

theorem flatMap_pieces_allPathsTree {tree : String × β → Tree} {below : β → List Piece}
    (h : ∀ e, (tree e).pieces = heading (monoText e.1) 2 ++ below e.2)
    (entries : List (String × β)) :
    (allPathsTree tree entries).flatMap Tree.pieces = allPathsPieces below entries := by
  unfold allPathsTree allPathsPieces
  split
  · rfl
  · rw [List.flatMap_singleton, Tree.pieces, childPieces_inOrder Prod.fst h]
    rfl

theorem flatMap_pieces_pathsTree (table : PathTable) :
    (pathsTree table).flatMap Tree.pieces = pathTablePieces table := by
  cases table with
  | flat entries => exact flatMap_pieces_allPathsTree pieces_pathTree entries
  | versioned entries => exact flatMap_pieces_allPathsTree pieces_versionedPathTree entries
  | unsupported kind => rfl

theorem pieces_catalogTree (title segment : String)
    (blocks : α → Except Json.WriteFault (List Block)) (c : Catalog α) :
    (catalogTree title segment blocks c).pieces = catalogPieces title blocks c := by
  rw [catalogTree, Tree.pieces]
  exact congrArg _ (childPieces_inOrder Prod.fst (fun _ => rfl) c)

/-- **Below the root, a manual says depth-first what the single document says.** -/
theorem manualPieces_eq (title : String) (d : Description) :
    manualPieces title d =
      plain (rootHead title d) ++ childPieces ((sections d).map untitled) := by
  have definitions : d.definitions.toList.flatMap (fun c => (definitionsTree c).pieces) =
      d.definitions.toList.flatMap (catalogPieces "Definitions" schemaBlocks) :=
    List.flatMap_congr fun c _ => pieces_catalogTree ..
  have errors : d.errors.toList.flatMap (fun c => (errorsTree c).pieces) =
      d.errors.toList.flatMap (catalogPieces "Errors" errorBlocks) :=
    List.flatMap_congr fun c _ => pieces_catalogTree ..
  have paths : (d.paths.toList.flatMap pathsTree).flatMap Tree.pieces =
      d.paths.toList.flatMap pathTablePieces := by
    rw [List.flatMap_assoc]
    exact List.flatMap_congr fun t _ => flatMap_pieces_pathsTree t
  rw [childPieces_untitled, sections, List.flatMap_append, List.flatMap_append, List.flatMap_map,
    List.flatMap_map, definitions, errors, paths, manualPieces, rootHead, plain_append]
  simp only [List.append_assoc]

/-! ## How deeply files are nested -/

mutual

/-- How many files are nested in each other in the file of a document, itself counted. -/
def Tree.height : Tree → Nat
  | .leaf _ _ => 1
  | .branch _ _ children => childHeight children + 1

/-- The largest height of some children. -/
def childHeight : Children → Nat
  | [] => 0
  | (_, t) :: rest => max t.height (childHeight rest)

end

theorem childHeight_le {ts : Children} {n : Nat} (h : ∀ c ∈ ts, c.2.height ≤ n) :
    childHeight ts ≤ n := by
  induction ts with
  | nil =>
    rw [childHeight]
    exact Nat.zero_le n
  | cons c rest ih =>
    rw [List.forall_mem_cons] at h
    rw [childHeight]
    exact Nat.max_le.2 ⟨h.1, ih h.2⟩

theorem height_branch_le {segment : String} {head : List Block} {children : Children} {n : Nat}
    (h : ∀ c ∈ children, c.2.height ≤ n) : (Tree.branch segment head children).height ≤ n + 1 := by
  rw [Tree.height]
  exact Nat.succ_le_succ (childHeight_le h)

theorem height_untitled_le {ts : List Tree} {n : Nat} (h : ∀ t ∈ ts, t.height ≤ n) :
    ∀ c ∈ ts.map untitled, c.2.height ≤ n := by
  intro c mem
  obtain ⟨t, ht, rfl⟩ := List.mem_map.1 mem
  exact h t ht

theorem height_map_le {tree : α → Tree} {n : Nat} (h : ∀ x, (tree x).height ≤ n) (xs : List α) :
    ∀ t ∈ xs.map tree, t.height ≤ n := by
  intro t mem
  obtain ⟨x, -, rfl⟩ := List.mem_map.1 mem
  exact h x

theorem height_leaf_le {segment : String} {body : Except Json.WriteFault (List Block)} {n : Nat} :
    (Tree.leaf segment body).height ≤ n + 1 := by
  rw [Tree.height]
  exact Nat.succ_le_succ (Nat.zero_le n)

theorem height_operationSection_le (title segment : String) (level : Nat)
    (blocks : α → Except Json.WriteFault (List Block)) (o : Option α) :
    ∀ c ∈ operationSection title segment level blocks o, c.2.height ≤ 2 := by
  intro c mem
  obtain ⟨x, -, rfl⟩ := List.mem_map.1 mem
  exact height_leaf_le

theorem height_namedSection_le (title segment : String) (level : Nat) (name : α → String)
    (blocks : α → Except Json.WriteFault (List Block)) (xs : List α) :
    ∀ c ∈ namedSection title segment level name blocks xs, c.2.height ≤ 2 := by
  unfold namedSection
  split
  · exact List.forall_mem_nil _
  · intro c mem
    rw [List.mem_singleton.1 mem]
    exact height_branch_le (height_untitled_le (height_map_le (fun _ => height_leaf_le) _))

theorem height_resourceTree_le (level : Nat) (r : Resource) : (resourceTree level r).height ≤ 3 := by
  refine height_branch_le fun c mem => ?_
  simp only [resourceSections, operationsSection, List.mem_append] at mem
  rcases mem with ((mem | ((((mem | mem) | mem) | mem) | mem)) | mem) | mem
  · obtain ⟨s, -, rfl⟩ := List.mem_map.1 mem
    exact height_leaf_le
  · exact height_operationSection_le _ _ _ _ _ c mem
  · exact height_operationSection_le _ _ _ _ _ c mem
  · exact height_operationSection_le _ _ _ _ _ c mem
  · exact height_operationSection_le _ _ _ _ _ c mem
  · exact height_operationSection_le _ _ _ _ _ c mem
  · exact height_namedSection_le _ _ _ _ _ _ c mem
  · exact height_namedSection_le _ _ _ _ _ _ c mem

theorem height_namedBranch_le (name : String) (level : Nat) {children : List Tree} {n : Nat}
    (h : ∀ t ∈ children, t.height ≤ n) : (namedBranch name level children).height ≤ n + 1 :=
  height_branch_le (height_untitled_le h)

theorem height_allPathsTree_le {tree : String × β → Tree} {n : Nat}
    (h : ∀ e, (tree e).height ≤ n) (entries : List (String × β)) :
    ∀ t ∈ allPathsTree tree entries, t.height ≤ n + 1 := by
  unfold allPathsTree
  split
  · exact List.forall_mem_nil _
  · intro t mem
    rw [List.mem_singleton.1 mem]
    exact height_branch_le (height_untitled_le (height_map_le h _))

theorem height_pathsTree_le (table : PathTable) : ∀ t ∈ pathsTree table, t.height ≤ 6 := by
  cases table with
  | flat entries =>
    refine height_allPathsTree_le (fun e => ?_) entries
    exact (height_namedBranch_le e.1 2 (List.forall_mem_singleton.2
      (height_resourceTree_le 3 e.2))).trans (by decide)
  | versioned entries =>
    have version (v : String × Resource) : (versionTree v).height ≤ 4 :=
      height_namedBranch_le v.1 3 (List.forall_mem_singleton.2 (height_resourceTree_le 4 v.2))
    exact height_allPathsTree_le
      (fun e => height_namedBranch_le e.1 2 (height_map_le version _)) entries
  | unsupported kind => exact List.forall_mem_nil _

theorem height_catalogTree_le (title segment : String)
    (blocks : α → Except Json.WriteFault (List Block)) (c : Catalog α) :
    (catalogTree title segment blocks c).height ≤ 2 :=
  height_branch_le (height_untitled_le (height_map_le (fun _ => height_leaf_le) _))

/-- **No more than six files are nested in each other below the root.** -/
theorem height_le_of_mem_sections {d : Description} : ∀ t ∈ sections d, t.height ≤ 6 := by
  intro t mem
  rw [sections, List.mem_append, List.mem_append, List.mem_flatMap, List.mem_map,
    List.mem_map] at mem
  rcases mem with (⟨table, -, mem⟩ | ⟨c, -, rfl⟩) | ⟨c, -, rfl⟩
  · exact height_pathsTree_le table t mem
  · exact (height_catalogTree_le ..).trans (by decide)
  · exact (height_catalogTree_le ..).trans (by decide)

/-! ## Files with what they include -/

/-- Whether the texts of documents can be read under their names. -/
def AreReadable (read : String → Option String) (id : String) (docs : List Document) : Prop :=
  ∀ doc ∈ docs, ∃ text, doc.text = .ok text ∧ read (fileAt id doc.place) = some text

/-- A text that includes children, with these put in. -/
theorem substitute_includeBlocks {content : String → Option String} {id : String} {up : Place}
    {above : List Block} {t : Tree} {rest : Children} {here below : List Block}
    (silent : Includes above [])
    (child : content (fileAt id (t.segment :: up)) = some (render here))
    (behind : substitute content (render (rest.flatMap (includeBlocks id up))) =
      some (render below)) :
    substitute content (render (((above, t) :: rest).flatMap (includeBlocks id up))) =
      some (render (above ++ here ++ below)) := by
  have line : '\n' ∉ (fileAt id (t.segment :: up)).toList := notMem_fileAt (by decide) id _
  rw [List.flatMap_cons, includeBlocks, List.append_assoc, List.singleton_append,
    silent.substitute, substitute_inclusion line, child, behind]
  simp [render_append]

mutual

/-- **The file of a document, with all that it includes, is what its tree says.** -/
theorem Tree.assembled (read : String → Option String) (id : String) :
    ∀ (t : Tree) (up : Place) (depth : Nat), t.IsSilent → t.height ≤ depth →
      AreReadable read id (t.documents id up) →
      ∃ blocks, whole t.pieces = .ok blocks ∧
        Asciidoc.assembled read depth (fileAt id (t.segment :: up)) = some (render blocks)
  | .leaf segment body, up, 0, _, high, _ => by
    rw [Tree.height] at high
    exact absurd high (by decide)
  | .branch segment head children, up, 0, _, high, _ => by
    rw [Tree.height] at high
    exact absurd high (Nat.not_succ_le_zero _)
  | .leaf segment body, up, depth + 1, .leaf silent, _, readable => by
    obtain ⟨text, written, found⟩ := readable _ (by rw [Tree.documents]; exact List.mem_singleton_self _)
    obtain ⟨blocks, rfl, rfl⟩ := Result.map_eq_ok written
    refine ⟨blocks, ?_, ?_⟩
    · rw [Tree.pieces]
      exact whole_cons_eq_ok.2 ⟨blocks, [], rfl, rfl, List.append_nil _⟩
    · have file : read (fileAt id (segment :: up)) = some (render blocks) := found
      rw [Tree.segment, Asciidoc.assembled, file]
      exact (silent blocks rfl).substitute_self
  | .branch segment head children, up, depth + 1, .branch silent above below, high, readable => by
    rw [Tree.height] at high
    rw [Tree.documents] at readable
    obtain ⟨text, written, found⟩ := readable _ (List.mem_append_right _ (List.mem_singleton_self _))
    cases written
    obtain ⟨blocks, said, put⟩ := childAssembled read id children (segment :: up) depth
      (fun c mem => ⟨above c mem, below c mem⟩) (Nat.le_of_succ_le_succ high)
      fun doc mem => readable doc (List.mem_append_left _ mem)
    refine ⟨head ++ blocks, ?_, ?_⟩
    · rw [Tree.pieces]
      exact whole_append_eq_ok.2 ⟨head, blocks, whole_plain head, said, rfl⟩
    · have file : read (fileAt id (segment :: up)) =
          some (branchText id (segment :: up) head children) := found
      rw [Tree.segment, Asciidoc.assembled, file, Option.bind_some, branchText, silent.substitute,
        put, Option.map_some, render_append]

/-- The files of several documents in the place of the lines that include them. -/
theorem childAssembled (read : String → Option String) (id : String) :
    ∀ (ts : Children) (up : Place) (depth : Nat), AreSilent ts → childHeight ts ≤ depth →
      AreReadable read id (childDocuments id up ts) →
      ∃ blocks, whole (childPieces ts) = .ok blocks ∧
        substitute (Asciidoc.assembled read depth)
          (render (ts.flatMap (includeBlocks id up))) = some (render blocks)
  | [], up, depth, _, _, _ => by
    rw [childPieces]
    exact ⟨[], rfl, rfl⟩
  | (above, t) :: rest, up, depth, silent, high, readable => by
    rw [childHeight] at high
    rw [childDocuments_cons] at readable
    obtain ⟨first, others⟩ := List.forall_mem_cons.1 silent
    obtain ⟨here, said, file⟩ := t.assembled read id up depth first.2 (Nat.max_le.1 high).1
      fun doc mem => readable doc (List.mem_append_left _ mem)
    obtain ⟨below, behind, put⟩ := childAssembled read id rest up depth others
      (Nat.max_le.1 high).2 fun doc mem => readable doc (List.mem_append_right _ mem)
    refine ⟨above ++ here ++ below, ?_, substitute_includeBlocks first.1 file put⟩
    rw [childPieces]
    exact whole_append_eq_ok.2 ⟨_, below,
      whole_append_eq_ok.2 ⟨above, here, whole_plain above, said, rfl⟩, behind, rfl⟩

end

/-! ## The whole manual -/

/-- **The files of a manual, put together, are a single document.**  If the run ends well, and no
text that is shown as it is holds the mark of inclusion lines, then putting the files in the place
of their inclusion lines comes to an end at the root file, after no more than seven files nested in
each other, and gives the document that is made of the description from the top.  The headings of
that document are an outline: behind its title they have the levels of sections, and none is more
than one level deeper than the one before it. -/
theorem single_document_of_success (title : String) (out : Path) (disk : FileSystem)
    (d : Description) (unmarked : AllUnmarked (title :: d.shownTexts))
    (success : (generate title out disk d).failure = none) :
    let read file := (textIn (generate title out disk d).disk out file).toOption
    ∃ blocks levels, whole (manualPieces title d) = .ok blocks ∧
      (∀ depth ≥ 7, assembled read depth (Namespace.normalize [d.id, "index"] ++ ".adoc") =
        some (render blocks)) ∧
      headingLevels blocks = 0 :: levels ∧
      (∀ level ∈ levels, 1 ≤ level ∧ level ≤ deepestLevel) ∧ IsGradual (0 :: levels) := by
  intro read
  have readable : AreReadable read d.id (documents title d) := fun doc mem => by
    obtain ⟨-, text, written, found⟩ := textIn_of_success success mem
    refine ⟨text, written, ?_⟩
    show (textIn _ out _).toOption = some text
    rw [found]
    rfl
  obtain ⟨ht, hd⟩ := AllUnmarked.cons_iff.1 unmarked
  have silent : AreSilent ((sections d).map untitled) := .untitled (isSilent_sections hd)
  have high : childHeight ((sections d).map untitled) ≤ 6 :=
    childHeight_le (height_untitled_le height_le_of_mem_sections)
  have below (depth : Nat) (deep : 6 ≤ depth) :=
    childAssembled read d.id ((sections d).map untitled) [] depth silent (high.trans deep)
      fun doc mem => readable doc (List.mem_append_left _ mem)
  obtain ⟨blocks, said, -⟩ := below 6 le_rfl
  have written : whole (manualPieces title d) = .ok (rootHead title d ++ blocks) := by
    rw [manualPieces_eq]
    exact whole_append_eq_ok.2 ⟨_, blocks, whole_plain _, said, rfl⟩
  obtain ⟨levels, outline⟩ := outline_manualPieces written
  refine ⟨_, levels, written, fun depth deep => ?_, outline⟩
  obtain ⟨depth, rfl⟩ : ∃ n, depth = n + 1 := ⟨depth - 1, by omega⟩
  obtain ⟨blocks', said', put⟩ := below depth (by omega)
  obtain rfl : blocks = blocks' := by
    rw [said] at said'
    cases said'
    rfl
  obtain ⟨text, stands, found⟩ :=
    readable _ (List.mem_append_right _ (List.mem_singleton_self (rootDocument title d)))
  cases stands
  have file : read (fileAt d.id rootPlace) =
      some (branchText d.id [] (rootHead title d) ((sections d).map untitled)) := found
  rw [← fileAt_rootPlace, assembled, file, Option.bind_some, branchText,
    (includes_rootHead ht hd).substitute, put, Option.map_some, render_append]

/-- The files of a small manual, put together: one path with a read operation and an action, and
one schema. -/
theorem single_document_of_pets :
    let report := generate "Pets" ⟨[]⟩ FileSystem.empty pets
    let read file := (textIn report.disk ⟨[]⟩ file).toOption
    AllUnmarked ("Pets" :: pets.shownTexts) ∧ report.failure = none ∧
      ∃ blocks, whole (manualPieces "Pets" pets) = .ok blocks ∧
        (∀ depth ≥ 7, assembled read depth "pets-index.adoc" = some (render blocks)) ∧
        headingLevels blocks = [0, 1, 1, 2, 3, 3, 4, 1, 2] := by
  intro report read
  have unmarked : AllUnmarked ("Pets" :: pets.shownTexts) := by decide
  have success : report.failure = none := by decide +kernel
  have root : Namespace.normalize [pets.id, "index"] ++ ".adoc" = "pets-index.adoc" := by
    decide +kernel
  obtain ⟨blocks, -, written, put, -⟩ :=
    single_document_of_success "Pets" ⟨[]⟩ FileSystem.empty pets unmarked success
  have outline : (whole (manualPieces "Pets" pets)).map headingLevels =
      .ok [0, 1, 1, 2, 3, 3, 4, 1, 2] := by
    decide +kernel
  rw [written] at outline
  rw [root] at put
  exact ⟨unmarked, success, blocks, written, put, Except.ok.inj outline⟩

end Manual
end ApiManual
