import Mathlib.Algebra.GroupWithZero.Nat
import ApiManual.Proofs.Manual.Inclusions
import ApiManual.Proofs.Manual.Siblings
import ApiManual.Proofs.Text.Order

/-!
# What a change of one path changes

The document of a place depends on nothing but what stands there and on the names on the
way to it.  Here this is said of two runs, which may write into different directories of
different file systems.

If the descriptions differ in one resource only, the runs agree on every file that does
not belong to that resource.  `Tree.AgreeOutside` compares the two trees: their documents
are the same, in the same order, outside a target.  It holds of a branch if it holds of
its children, as a document shows of its children nothing but their segments; and it
holds of any two trees that stand right at the target.

If one of the descriptions has one more path, all other documents are still there, and
only the document of all paths is another one, as it includes one file more.
-/

namespace ApiManual

/-! ## Descriptions that differ in their paths -/

/-- Two descriptions that agree in everything but their tables of paths. -/
structure Description.SameButPaths (d d' : Description) : Prop where
  id : d.id = d'.id
  description : d.description = d'.description
  definitions : d.definitions = d'.definitions
  errors : d.errors = d'.errors

/-- Two tables of paths that differ in nothing but one resource, and the place of its document.
The order of the entries does not count. -/
inductive PathTable.DifferInResource : PathTable → PathTable → Manual.Place → Prop
  | path {name : String} {r r' : Resource} {rest es es' : List (String × Resource)}
      (h : es.Perm ((name, r) :: rest)) (h' : es'.Perm ((name, r') :: rest)) :
      DifferInResource (.flat es) (.flat es') ["resource", name, "paths"]
  | version {name version : String} {r r' : Resource} {more vs vs' : Versions}
      {rest es es' : List (String × Versions)}
      (h : es.Perm ((name, vs) :: rest)) (h' : es'.Perm ((name, vs') :: rest))
      (hv : vs.Perm ((version, r) :: more)) (hv' : vs'.Perm ((version, r') :: more)) :
      DifferInResource (.versioned es) (.versioned es') ["resource", version, name, "paths"]

/-- A table of paths, and one that has one more path. -/
inductive PathTable.HasOneMore : PathTable → PathTable → Prop
  | flat {x : String × Resource} {es es' : List (String × Resource)} (h : es'.Perm (x :: es)) :
      HasOneMore (.flat es) (.flat es')
  | versioned {x : String × Versions} {es es' : List (String × Versions)}
      (h : es'.Perm (x :: es)) : HasOneMore (.versioned es) (.versioned es')

namespace Manual

open Asciidoc

/-! ## Documents of trees -/

theorem mem_childDocuments {id : String} {up : Place} {ts : Children} {doc : Document} :
    doc ∈ childDocuments id up ts ↔ ∃ c ∈ ts, doc ∈ c.2.documents id up := by
  induction ts with
  | nil => simp
  | cons c rest ih =>
    obtain ⟨above, t⟩ := c
    simp [ih]

theorem childDocuments_append (id : String) (up : Place) (ts more : Children) :
    childDocuments id up (ts ++ more) = childDocuments id up ts ++ childDocuments id up more := by
  induction ts with
  | nil => rw [childDocuments_nil, List.nil_append, List.nil_append]
  | cons c rest ih =>
    obtain ⟨above, t⟩ := c
    rw [List.cons_append, childDocuments_cons, childDocuments_cons, ih, List.append_assoc]

/-- The documents of a child are among those of its siblings. -/
theorem documents_sublist_childDocuments (id : String) (up : Place) {ts : Children}
    {c : List Block × Tree} (mem : c ∈ ts) :
    (c.2.documents id up).Sublist (childDocuments id up ts) := by
  obtain ⟨front, back, rfl⟩ := List.append_of_mem mem
  induction front with
  | nil =>
    rw [List.nil_append, childDocuments_cons]
    exact List.sublist_append_left ..
  | cons first _ ih =>
    rw [List.cons_append, childDocuments_cons]
    exact (ih (List.mem_append_right _ (List.mem_cons_self ..))).trans
      (List.sublist_append_right ..)

/-- Among the documents of some children there are their own. -/
theorem childPlaces_sublist (id : String) (up : Place) (ts : Children) :
    (childPlaces up ts).Sublist ((childDocuments id up ts).map Document.place) := by
  induction ts with
  | nil => exact List.nil_sublist _
  | cons c rest ih =>
    obtain ⟨above, t⟩ := c
    have own : [t.segment :: up].Sublist ((t.documents id up).map Document.place) := by
      rw [List.singleton_sublist]
      cases t with
      | leaf segment body => simp [Tree.documents, leafDocument, Tree.segment]
      | branch segment head children => simp [Tree.documents, branchDocument, Tree.segment]
    rw [childPlaces_cons, childDocuments_cons, List.map_append]
    exact own.append ih

mutual

/-- The documents of a tree stand at its place or below it. -/
theorem Tree.suffix_of_mem_documents (id : String) (up : Place) :
    ∀ (t : Tree), ∀ doc ∈ t.documents id up, (t.segment :: up) <:+ doc.place
  | .leaf segment body, doc, mem => by
    rw [Tree.documents, List.mem_singleton] at mem
    rw [mem]
    exact List.suffix_rfl
  | .branch segment head children, doc, mem => by
    rw [Tree.documents, List.mem_append, List.mem_singleton] at mem
    rcases mem with mem | rfl
    · exact suffix_of_mem_childDocuments id (segment :: up) children doc mem
    · exact List.suffix_rfl

/-- The documents of several trees stand below their place. -/
theorem suffix_of_mem_childDocuments (id : String) (up : Place) :
    ∀ (ts : Children), ∀ doc ∈ childDocuments id up ts, up <:+ doc.place
  | [], doc, mem => by
    rw [childDocuments_nil] at mem
    cases mem
  | (above, t) :: rest, doc, mem => by
    rw [childDocuments_cons, List.mem_append] at mem
    rcases mem with mem | mem
    · exact (List.suffix_cons ..).trans (t.suffix_of_mem_documents id up doc mem)
    · exact suffix_of_mem_childDocuments id up rest doc mem

end

/-! ## What a document shows of its children -/

/-- What a document shows of its children: what stands above each, and its segment. -/
def shownOf (children : Children) : List (List Block × String) :=
  children.map fun c => (c.1, c.2.segment)

theorem childPlaces_eq_shownOf (place : Place) (children : Children) :
    childPlaces place children = (shownOf children).map fun s => s.2 :: place := by
  rw [childPlaces, shownOf, List.map_map]
  rfl

theorem branchText_eq_shownOf (id : String) (place : Place) (head : List Block)
    (children : Children) :
    branchText id place head children = render (head ++ (shownOf children).flatMap fun s =>
      s.1 ++ [.inclusion (fileAt id (s.2 :: place))]) := by
  rw [branchText, shownOf, List.flatMap_map]
  rfl

/-- **A document depends on its children only as far as it shows them.** -/
theorem branchDocument_congr (id : String) (place : Place) (head : List Block)
    {children children' : Children} (h : shownOf children = shownOf children') :
    branchDocument id place head children = branchDocument id place head children' := by
  rw [branchDocument, branchDocument, childPlaces_eq_shownOf, childPlaces_eq_shownOf,
    branchText_eq_shownOf, branchText_eq_shownOf, h]

/-- **So does the root**, which has a head of its own. -/
theorem rootDocument_congr (title : String) {d d' : Description} (same : d.SameButPaths d')
    (h : shownOf ((sections d).map untitled) = shownOf ((sections d').map untitled)) :
    rootDocument title d = rootDocument title d' := by
  have head : rootHead title d = rootHead title d' := by
    rw [rootHead, rootHead, same.id, same.description]
  rw [rootDocument, rootDocument, childPlaces_eq_shownOf, childPlaces_eq_shownOf,
    branchText_eq_shownOf, branchText_eq_shownOf, h, head, same.id]

/-! ## Trees that agree outside a target -/

/-- The documents that stand neither at a target nor below it. -/
def outside (target : Place) (docs : List Document) : List Document :=
  docs.filter fun doc => ¬ target <:+ doc.place

theorem outside_append (target : Place) (xs ys : List Document) :
    outside target (xs ++ ys) = outside target xs ++ outside target ys :=
  List.filter_append ..

/-- Two trees below a place have one segment, and the same documents outside a target. -/
structure Tree.AgreeOutside (id : String) (target up : Place) (t t' : Tree) : Prop where
  segment : t.segment = t'.segment
  documents : outside target (t.documents id up) = outside target (t'.documents id up)

/-- The same of children, one by one, with the same above each. -/
def ChildrenAgree (id : String) (target up : Place) : Children → Children → Prop :=
  List.Forall₂ fun c c' => c.1 = c'.1 ∧ c.2.AgreeOutside id target up c'.2

variable {id : String} {target up : Place}

namespace ChildrenAgree

variable {children children' : Children}

theorem refl (children : Children) : ChildrenAgree id target up children children :=
  List.forall₂_same.2 fun _ _ => ⟨rfl, rfl, rfl⟩

theorem append {more more' : Children} (h : ChildrenAgree id target up children children')
    (behind : ChildrenAgree id target up more more') :
    ChildrenAgree id target up (children ++ more) (children' ++ more') :=
  List.rel_append h behind

/-- A document shows the same of such children. -/
theorem shown (each : ChildrenAgree id target up children children') :
    shownOf children = shownOf children' := by
  induction each with
  | nil => rfl
  | cons one _ ih =>
    rw [shownOf, List.map_cons, one.1, one.2.segment]
    exact congrArg _ ih

theorem documents (each : ChildrenAgree id target up children children') :
    outside target (childDocuments id up children) =
      outside target (childDocuments id up children') := by
  induction each with
  | nil => rfl
  | @cons c c' _ _ one _ ih =>
    obtain ⟨above, t⟩ := c
    obtain ⟨above', t'⟩ := c'
    rw [childDocuments_cons, childDocuments_cons, outside_append, outside_append,
      one.2.documents, ih]

end ChildrenAgree

namespace Tree.AgreeOutside

theorem refl (t : Tree) : t.AgreeOutside id target up t := ⟨rfl, rfl⟩

/-- Nothing of a tree at the target is outside. -/
theorem outside_eq_nil {t : Tree} (here : t.segment :: up = target) :
    outside target (t.documents id up) = [] := by
  refine List.filter_eq_nil_iff.2 fun doc mem => ?_
  have inside : target <:+ doc.place := here ▸ t.suffix_of_mem_documents id up doc mem
  simpa using inside

/-- Any two trees at the target agree outside. -/
theorem of_target {t t' : Tree} (here : t.segment :: up = target)
    (here' : t'.segment :: up = target) : t.AgreeOutside id target up t' := by
  refine ⟨?_, by rw [outside_eq_nil here, outside_eq_nil here']⟩
  rw [← here'] at here
  exact (List.cons.inj here).1

/-- **Branches agree if their children do.** -/
theorem branch {s : String} {head : List Block} {children children' : Children}
    (each : ChildrenAgree id target (s :: up) children children') :
    (Tree.branch s head children).AgreeOutside id target up (.branch s head children') := by
  refine ⟨rfl, ?_⟩
  rw [Tree.documents, Tree.documents, outside_append, outside_append, each.documents,
    branchDocument_congr id (s :: up) head each.shown]

end Tree.AgreeOutside

/-! ## Tables that differ in one entry -/

variable {β : Type}

/-- The children of a document that includes the entries of a table in the order of their
names. -/
def entryChildren (tree : String × β → Tree) (entries : List (String × β)) : Children :=
  ((Text.sortByName Prod.fst entries).map tree).map untitled

/-- The document of a table, and so those of the entries, in the order of their names. -/
theorem nodup_names_of_places {s : String} {head : List Block} {tree : String × β → Tree}
    (named : ∀ e, (tree e).segment = e.1) {entries : List (String × β)}
    (distinct : (((Tree.branch s head (entryChildren tree entries)).documents id up).map
      Document.place).Nodup) :
    (entries.map Prod.fst).Nodup := by
  rw [Tree.documents, List.map_append] at distinct
  have places := (childPlaces_sublist id (s :: up) _).nodup (List.nodup_append.1 distinct).1
  have row : childPlaces (s :: up) (entryChildren tree entries) =
      ((Text.sortByName Prod.fst entries).map Prod.fst).map (· :: s :: up) := by
    simp [childPlaces, entryChildren, untitled, named]
  rw [row] at places
  exact ((Text.sortByName_perm Prod.fst entries).map Prod.fst).nodup_iff.1
    (List.Nodup.of_map _ places)

/-- **The documents of two tables agree if those of the changed entry do.** -/
theorem childrenAgree_entries {tree : String × β → Tree} {name : String} {x x' : β}
    {rest es es' : List (String × β)} (h : es.Perm ((name, x) :: rest))
    (h' : es'.Perm ((name, x') :: rest)) (distinct : (es.map Prod.fst).Nodup)
    (changed : (tree (name, x)).AgreeOutside id target up (tree (name, x'))) :
    ChildrenAgree id target up (entryChildren tree es) (entryChildren tree es') := by
  rw [ChildrenAgree, entryChildren, entryChildren, List.map_map, List.map_map,
    List.forall₂_map_left_iff, List.forall₂_map_right_iff]
  refine (Text.forall₂_sortByName h h' distinct).imp fun e e' related => ?_
  rcases related with rfl | ⟨rfl, rfl⟩
  · exact ⟨rfl, .refl _⟩
  · exact ⟨rfl, changed⟩

/-- The document of the paths of a table that is not empty. -/
theorem allPathsTree_of_ne_nil (tree : String × β → Tree) {entries : List (String × β)}
    (h : entries ≠ []) :
    allPathsTree tree entries =
      [.branch "paths" [.sectionTitle "Paths" 1] (entryChildren tree entries)] := by
  rw [allPathsTree, if_neg (by simpa using h)]
  rfl

/-! ## One resource changed -/

theorem segment_pathTree (entry : String × Resource) : (pathTree entry).segment = entry.1 := rfl

theorem segment_versionTree (entry : String × Resource) :
    (versionTree entry).segment = entry.1 := rfl

theorem segment_versionedPathTree (entry : String × Versions) :
    (versionedPathTree entry).segment = entry.1 := rfl

/-- A document that includes nothing but one resource. -/
theorem namedBranch_agree (name : String) (level below : Nat) (r r' : Resource) :
    (namedBranch name level [resourceTree below r]).AgreeOutside id ("resource" :: name :: up) up
      (namedBranch name level [resourceTree below r']) :=
  .branch (.cons ⟨rfl, .of_target rfl rfl⟩ .nil)

/-- **The documents of tables of paths that differ in one resource agree outside of it.** -/
theorem pathsTree_agree {t t' : PathTable} (h : t.DifferInResource t' target)
    (distinct : ((childDocuments id [] ((pathsTree t).map untitled)).map Document.place).Nodup) :
    ChildrenAgree id target [] ((pathsTree t).map untitled) ((pathsTree t').map untitled) := by
  cases h with
  | @path name r r' rest es es' h h' =>
    have entry : es ≠ [] := fun none => by simp [none] at h
    have entry' : es' ≠ [] := fun none => by simp [none] at h'
    rw [pathsTree, allPathsTree_of_ne_nil _ entry, List.map_singleton, untitled,
      childDocuments_cons, childDocuments_nil, List.append_nil] at distinct
    rw [pathsTree, pathsTree, allPathsTree_of_ne_nil _ entry, allPathsTree_of_ne_nil _ entry']
    have names := nodup_names_of_places segment_pathTree distinct
    refine .cons ⟨rfl, .branch ?_⟩ .nil
    exact childrenAgree_entries h h' names (namedBranch_agree name 2 3 r r')
  | @version name version r r' more vs vs' rest es es' h h' hv hv' =>
    have entry : es ≠ [] := fun none => by simp [none] at h
    have entry' : es' ≠ [] := fun none => by simp [none] at h'
    rw [pathsTree, allPathsTree_of_ne_nil _ entry, List.map_singleton, untitled,
      childDocuments_cons, childDocuments_nil, List.append_nil] at distinct
    rw [pathsTree, pathsTree, allPathsTree_of_ne_nil _ entry, allPathsTree_of_ne_nil _ entry']
    have names := nodup_names_of_places segment_versionedPathTree distinct
    have here : untitled (versionedPathTree (name, vs)) ∈ entryChildren versionedPathTree es :=
      List.mem_map_of_mem (List.mem_map_of_mem ((Text.sortByName_perm _ es).mem_iff.2
        (h.mem_iff.2 (List.mem_cons_self ..))))
    rw [Tree.documents, List.map_append] at distinct
    have versions := nodup_names_of_places segment_versionTree
      (((documents_sublist_childDocuments id _ here).map Document.place).nodup
        (List.nodup_append.1 distinct).1)
    refine .cons ⟨rfl, .branch ?_⟩ .nil
    refine childrenAgree_entries h h' names (.branch ?_)
    exact childrenAgree_entries hv hv' versions (namedBranch_agree version 3 4 r r')

/-- The documents right below the id that are not those of paths. -/
def catalogChildren (d : Description) : Children :=
  (d.definitions.toList.map definitionsTree ++ d.errors.toList.map errorsTree).map untitled

/-- The documents right below the id, those of the paths first. -/
theorem sections_of_paths {d : Description} {t : PathTable} (ht : d.paths = some t) :
    (sections d).map untitled = (pathsTree t).map untitled ++ catalogChildren d := by
  simp [sections, catalogChildren, ht]

variable {title : String} {d d' : Description} {t t' : PathTable}

theorem catalogChildren_congr (same : d.SameButPaths d') :
    catalogChildren d = catalogChildren d' := by
  rw [catalogChildren, catalogChildren, same.definitions, same.errors]

/-- **All documents outside a changed resource are the same.** -/
theorem outside_documents (same : d.SameButPaths d') (ht : d.paths = some t)
    (ht' : d'.paths = some t') (h : t.DifferInResource t' target)
    (distinct : ((documents title d).map Document.place).Nodup) :
    outside target (documents title d) = outside target (documents title d') := by
  have each : ChildrenAgree d.id target [] ((sections d).map untitled)
      ((sections d').map untitled) := by
    rw [documents, sections_of_paths ht, childDocuments_append, List.map_append, List.map_append,
      List.nodup_append, List.nodup_append] at distinct
    rw [sections_of_paths ht, sections_of_paths ht', ← catalogChildren_congr same]
    exact (pathsTree_agree h distinct.1.1).append (.refl _)
  rw [documents, documents, outside_append, outside_append, each.documents, same.id,
    rootDocument_congr title same each.shown]

/-! ## One path more -/

/-- A longer row of blocks is a longer text. -/
theorem length_render (blocks : List Block) :
    (render blocks).length = (blocks.map fun b => b.text.length).sum := by
  induction blocks with
  | nil => rfl
  | cons b rest ih => rw [render_cons, String.length_append, ih, List.map_cons, List.sum_cons]

/-- **A document that includes one file more has another text.** -/
theorem branchText_ne (id : String) (place : Place) (head : List Block) {c : List Block × Tree}
    {children children' : Children} (h : children'.Perm (c :: children)) :
    branchText id place head children ≠ branchText id place head children' := by
  intro texts
  have blocks : (head ++ children'.flatMap (includeBlocks id place)).Perm
      (head ++ (c :: children).flatMap (includeBlocks id place)) :=
    (h.flatMap_right _).append_left _
  have lengths := congrArg String.length texts
  rw [branchText, branchText, length_render, length_render, (blocks.map _).sum_nat] at lengths
  have line : 0 < (Block.inclusion (fileAt id (c.2.segment :: place))).text.length := by
    have mark : "include::".length = 9 := by decide
    rw [Block.text, String.length_append, String.length_append, mark]
    omega
  simp only [List.flatMap_cons, includeBlocks, List.map_append, List.sum_append, List.map_cons,
    List.map_nil, List.sum_cons, List.sum_nil] at lengths
  omega

/-- The trees of two tables that differ in one entry more. -/
theorem exists_pathsTree_of_hasOneMore (h : t.HasOneMore t') (some : 0 < t.size) :
    ∃ head children children' c, pathsTree t = [.branch "paths" head children] ∧
      pathsTree t' = [.branch "paths" head children'] ∧ children'.Perm (c :: children) := by
  have more {β : Type} (tree : String × β → Tree) {x : String × β} {es es' : List (String × β)}
      (h : es'.Perm (x :: es)) :
      (entryChildren tree es').Perm (untitled (tree x) :: entryChildren tree es) :=
    (((Text.sortByName_perm _ es').trans (h.trans
      ((Text.sortByName_perm _ es).symm.cons x))).map tree).map untitled
  cases h with
  | flat h =>
    refine ⟨_, _, _, _, allPathsTree_of_ne_nil _ (List.ne_nil_of_length_pos some),
      allPathsTree_of_ne_nil _ ?_, more pathTree h⟩
    exact fun none => by simp [none] at h
  | versioned h =>
    refine ⟨_, _, _, _, allPathsTree_of_ne_nil _ (List.ne_nil_of_length_pos some),
      allPathsTree_of_ne_nil _ ?_, more versionedPathTree h⟩
    exact fun none => by simp [none] at h

/-- **A path more leaves all documents but that of all paths.** -/
theorem mem_documents_of_hasOneMore (same : d.SameButPaths d') (ht : d.paths = some t)
    (ht' : d'.paths = some t') {head : List Block} {children children' : Children}
    {c : List Block × Tree} (h : pathsTree t = [.branch "paths" head children])
    (h' : pathsTree t' = [.branch "paths" head children'])
    (perm : children'.Perm (c :: children)) {doc : Document} (mem : doc ∈ documents title d) :
    doc ∈ documents title d' ∨ doc = branchDocument d.id ["paths"] head children := by
  have shown : shownOf ((sections d).map untitled) = shownOf ((sections d').map untitled) := by
    rw [sections_of_paths ht, sections_of_paths ht', h, h', catalogChildren_congr same]
    rfl
  rw [documents, List.mem_append, List.mem_singleton, sections_of_paths ht, h, List.map_singleton,
    untitled, List.singleton_append, childDocuments_cons, Tree.documents, List.mem_append,
    List.mem_append, List.mem_singleton] at mem
  rw [documents, List.mem_append, List.mem_singleton, sections_of_paths ht', h', List.map_singleton,
    untitled, List.singleton_append, childDocuments_cons, Tree.documents, List.mem_append,
    List.mem_append, List.mem_singleton]
  rcases mem with ((below | here) | catalogs) | root
  · rw [mem_childDocuments] at below
    obtain ⟨child, hc, hdoc⟩ := below
    have kept : child ∈ children' := perm.mem_iff.2 (List.mem_cons_of_mem _ hc)
    exact .inl (.inl (.inl (.inl (mem_childDocuments.2 ⟨child, kept, same.id ▸ hdoc⟩))))
  · exact .inr here
  · exact .inl (.inl (.inr (same.id ▸ catalogChildren_congr same ▸ catalogs)))
  · exact .inl (.inr (root.trans (rootDocument_congr title same shown)))

/-- The document of all paths. -/
theorem mem_documents_paths (title : String) (ht : d.paths = some t) {head : List Block}
    {children : Children} (h : pathsTree t = [.branch "paths" head children]) :
    branchDocument d.id ["paths"] head children ∈ documents title d := by
  rw [documents, sections_of_paths ht, h, List.map_singleton, untitled, List.singleton_append,
    childDocuments_cons, Tree.documents]
  simp

/-! ## Two runs -/

variable {out out' : Path} {disk disk' : FileSystem}

/-- **A document of two manuals has one text in both**, in files of one name. -/
theorem textIn_of_shared (same : d.SameButPaths d')
    (success : (generate title out disk d).failure = none)
    (success' : (generate title out' disk' d').failure = none) {doc : Document}
    (mem : doc ∈ documents title d) (mem' : doc ∈ documents title d') :
    fileAt d.id doc.place ∈ (generate title out disk d).written ∧
      fileAt d.id doc.place ∈ (generate title out' disk' d').written ∧
      ∃ text, textIn (generate title out disk d).disk out (fileAt d.id doc.place) = .ok text ∧
        textIn (generate title out' disk' d').disk out' (fileAt d.id doc.place) = .ok text := by
  obtain ⟨member, text, written, found⟩ := textIn_of_success success mem
  obtain ⟨member', text', written', found'⟩ := textIn_of_success success' mem'
  rw [← same.id] at member' found'
  rw [written] at written'
  cases written'
  exact ⟨member, member', text, found, found'⟩

/-- **Changes of paths are local.**  Take two manuals that were written to their end, of
descriptions that differ in their tables of paths alone.

If the tables differ in one resource, then outside of the documents of that resource both runs
write the same files, and each of these has one text in both.

If one table has one path more than the other, which is not empty, then its manual has all files
of the other, and of these only that of all paths has another text. -/
theorem files_change_locally (title : String) (out out' : Path) (disk disk' : FileSystem)
    (same : d.SameButPaths d') (ht : d.paths = some t) (ht' : d'.paths = some t')
    (success : (generate title out disk d).failure = none)
    (success' : (generate title out' disk' d').failure = none) :
    let report := generate title out disk d
    let report' := generate title out' disk' d'
    (∀ target, t.DifferInResource t' target →
      let files := (outside target (documents title d)).map fun doc => fileAt d.id doc.place
      files = (outside target (documents title d')).map (fun doc => fileAt d'.id doc.place) ∧
      ∀ file ∈ files, file ∈ report.written ∧ file ∈ report'.written ∧
        ∃ text, textIn report.disk out file = .ok text ∧
          textIn report'.disk out' file = .ok text) ∧
    (t.HasOneMore t' → 0 < t.size →
      ∀ file ∈ report.written, file ∈ report'.written ∧
        ∃ text text', textIn report.disk out file = .ok text ∧
          textIn report'.disk out' file = .ok text' ∧
          (text ≠ text' ↔ file = fileAt d.id ["paths"])) := by
  intro report report'
  refine ⟨fun target h => ?_, fun h some file mem => ?_⟩
  · have docs : outside target (documents title d) = outside target (documents title d') :=
      outside_documents same ht ht' h (nodup_places_of_success success)
    refine ⟨by rw [docs, same.id], fun file mem => ?_⟩
    obtain ⟨doc, hdoc, rfl⟩ := List.mem_map.1 mem
    exact textIn_of_shared same success success' (List.mem_of_mem_filter hdoc)
      (List.mem_of_mem_filter (docs ▸ hdoc))
  · obtain ⟨head, children, children', c, tree, tree', perm⟩ := exists_pathsTree_of_hasOneMore h some
    have all : branchDocument d.id ["paths"] head children ∈ documents title d :=
      mem_documents_paths title ht tree
    have all' : branchDocument d'.id ["paths"] head children' ∈ documents title d' :=
      mem_documents_paths title ht' tree'
    rw [written_of_success success, List.mem_map] at mem
    obtain ⟨doc, hdoc, rfl⟩ := mem
    by_cases here : doc = branchDocument d.id ["paths"] head children
    · obtain ⟨member, text, written, found⟩ := textIn_of_success success all
      obtain ⟨member', text', written', found'⟩ := textIn_of_success success' all'
      rw [← same.id] at member' found' written'
      cases written
      cases written'
      rw [here]
      exact ⟨member', _, _, found, found', fun _ => rfl,
        fun _ => branchText_ne d.id ["paths"] head perm⟩
    · have shared : doc ∈ documents title d' :=
        (mem_documents_of_hasOneMore same ht ht' tree tree' perm hdoc).resolve_right here
      obtain ⟨-, member', text, found, found'⟩ :=
        textIn_of_shared same success success' hdoc shared
      refine ⟨member', text, text, found, found', fun differ => absurd rfl differ, fun file => ?_⟩
      exact absurd (List.inj_on_of_nodup_map (nodup_written_of_success success) hdoc all file) here

/-- A resource without sections. -/
def bare (title : String) : Resource where
  title := some title
  description := none
  resourceSchema := none
  create := none
  read := none
  update := none
  delete := none
  patch := none
  actions := []
  queries := []

/-- The interface of pets with other paths. -/
def petsUnder (entries : List (String × Resource)) : Description :=
  { pets with paths := some (.flat entries) }

theorem failure_petsUnder (entries : List (String × Resource)) :
    (generate "Pets" ⟨[]⟩ FileSystem.empty (petsUnder entries)).failure =
      (takeAll "Pets" ⟨[]⟩ ⟨Registry.empty, [], FileSystem.empty⟩
        (steps "Pets" (petsUnder entries))).1 := by
  rw [generate_eq "Pets" ⟨[]⟩ FileSystem.empty fun kind h => by cases h]
  rfl

/-- The names of the two paths are in order. -/
theorem sections_ownersAndPets {owner pet : Resource} {entries : List (String × Resource)}
    (h : entries.Perm [("/owners", owner), ("/pets", pet)]) :
    sections (petsUnder entries) = .branch "paths" [.sectionTitle "Paths" 1]
      ([pathTree ("/owners", owner), pathTree ("/pets", pet)].map untitled) ::
        pets.definitions.toList.map definitionsTree := by
  have distinct : (entries.map Prod.fst).Nodup := (h.map Prod.fst).nodup_iff.2
    (show ["/owners", "/pets"].Nodup by decide)
  have inOrder : Text.sortByName Prod.fst entries = [("/owners", owner), ("/pets", pet)] := by
    rw [Text.sortByName_eq_of_perm h distinct]
    refine Text.sortByName_of_pairwise (List.pairwise_pair.2 ?_)
    show Text.notAfter "/owners".toList "/pets".toList = true
    decide
  have some : entries ≠ [] := fun none => by simp [none] at h
  simp [sections, petsUnder, pets, pathsTree, allPathsTree_of_ne_nil _ some, entryChildren, inOrder]

/-- A resource of another title changes one file, and a path more changes the file of all paths. -/
theorem changes_of_pets :
    let few := petsUnder [("/pets", bare "Pet")]
    let more := petsUnder [("/owners", bare "Owner"), ("/pets", bare "Pet")]
    let other := petsUnder [("/pets", bare "Animal"), ("/owners", bare "Owner")]
    let report d := generate "Pets" ⟨[]⟩ FileSystem.empty d
    (report few).failure = none ∧ (report more).failure = none ∧ (report other).failure = none ∧
    (∀ file ∈ ["pets-paths-owners-resource.adoc", "pets-paths-owners.adoc", "pets-paths-pets.adoc",
        "pets-paths.adoc", "pets-definitions-pet.adoc", "pets-definitions.adoc",
        "pets-index.adoc"],
      ∃ text, textIn (report more).disk ⟨[]⟩ file = .ok text ∧
        textIn (report other).disk ⟨[]⟩ file = .ok text) ∧
    ∀ file ∈ (report few).written, file ∈ (report more).written ∧
      ∃ text text', textIn (report few).disk ⟨[]⟩ file = .ok text ∧
        textIn (report more).disk ⟨[]⟩ file = .ok text' ∧
        (text ≠ text' ↔ file = "pets-paths.adoc") := by
  intro few more other report
  have inOrder := sections_ownersAndPets (.refl [("/owners", bare "Owner"), ("/pets", bare "Pet")])
  have first : (report few).failure = none := by decide +kernel
  have second : (report more).failure = none := by
    rw [failure_petsUnder, steps, rootDocument, inOrder]
    decide +kernel
  have third : (report other).failure = none := by
    rw [failure_petsUnder, steps, rootDocument, sections_ownersAndPets (.swap ..)]
    decide +kernel
  have likeOther : more.SameButPaths other := ⟨rfl, rfl, rfl, rfl⟩
  have likeMore : few.SameButPaths more := ⟨rfl, rfl, rfl, rfl⟩
  have changed := (files_change_locally "Pets" ⟨[]⟩ ⟨[]⟩ FileSystem.empty FileSystem.empty
    likeOther rfl rfl second third).1 ["resource", "/pets", "paths"] (.path (.swap ..) (.refl _))
  have grown := (files_change_locally "Pets" ⟨[]⟩ ⟨[]⟩ FileSystem.empty FileSystem.empty
    likeMore rfl rfl first second).2 (.flat (.refl _)) (by decide)
  have names : fileAt few.id ["paths"] = "pets-paths.adoc" := by decide +kernel
  rw [names] at grown
  refine ⟨first, second, third, fun file mem => ?_, grown⟩
  have files : (outside ["resource", "/pets", "paths"] (documents "Pets" more)).map
      (fun doc => fileAt more.id doc.place) = ["pets-paths-owners-resource.adoc",
        "pets-paths-owners.adoc", "pets-paths-pets.adoc", "pets-paths.adoc",
        "pets-definitions-pet.adoc", "pets-definitions.adoc", "pets-index.adoc"] := by
    rw [documents, rootDocument, inOrder]
    decide +kernel
  exact (changed.2 file (files ▸ mem)).2.2

end Manual
end ApiManual
