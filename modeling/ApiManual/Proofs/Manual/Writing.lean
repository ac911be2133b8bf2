import ApiManual.Proofs.Manual.Steps

/-!
# The writers follow the steps

The writers know nothing of a tree: each claims its namespace, has its parts written,
and puts the names of the files it is told into the document that it writes itself.
Here every one of them is shown to take exactly the steps of its tree, and to return
the file of the place at which its document stands.

`Follows w steps a` says so of one writer `w`, from any state: it does what the steps
do, and returns `a` if they all succeed.  There is one rule for each primitive and one
for each way of putting writers together, so that nothing below the rules opens the
state.  `generate_eq` is the sum: a manual is generated by taking the steps of its
description.
-/

namespace ApiManual
namespace Manual

open Asciidoc

variable {α β : Type} {id : String} {out : Path}

/-- A part of the writing takes the steps of a row, whatever has been written before,
and returns a value if none of them fails. -/
def Follows (id : String) (out : Path) (w : Writing α) (steps : List Step) (a : α) : Prop :=
  ∀ p, w.run.run p = match takeAll id out p steps with
    | (none, p') => (.ok a, p')
    | (some failure, p') => (.error failure, p')

/-! ## Rules -/

namespace Follows

theorem pure (a : α) : Follows id out (Pure.pure a) [] a := fun _ => rfl

/-- One part after another takes the steps of the one and then those of the other. -/
theorem bind {w : Writing α} {f : α → Writing β} {xs ys : List Step} {a : α} {b : β}
    (hw : Follows id out w xs a) (hf : Follows id out (f a) ys b) :
    Follows id out (w >>= f) (xs ++ ys) b := by
  intro p
  have start := hw p
  rw [ExceptT.run_bind, StateT.run_bind]
  cases h : takeAll id out p xs with
  | mk failure p' =>
    rw [h] at start
    rw [start]
    cases failure with
    | none =>
      rw [takeAll_append xs ys h]
      exact hf p'
    | some failure =>
      rw [takeAll_append_of_failure xs ys h]
      rfl

/-- A last part that takes no step of its own. -/
theorem bind_pure {w : Writing α} {xs : List Step} {a : α} (g : α → β)
    (hw : Follows id out w xs a) : Follows id out (w >>= fun x => Pure.pure (g x)) xs (g a) := by
  have last : Follows id out (Pure.pure (g a)) [] (g a) := pure (g a)
  have h := hw.bind (f := fun x => Pure.pure (g x)) last
  rwa [List.append_nil] at h

/-- The parts that a list gives rise to, one after the other. -/
theorem mapM {f : α → Writing β} {steps : α → List Step} {b : α → β} (xs : List α)
    (hf : ∀ x, Follows id out (f x) (steps x) (b x)) :
    Follows id out (xs.mapM f) (xs.flatMap steps) (xs.map b) := by
  induction xs with
  | nil => exact pure []
  | cons x rest ih =>
    rw [List.mapM_cons, List.flatMap_cons, List.map_cons]
    exact (hf x).bind (ih.bind_pure fun files => b x :: files)

theorem claim (up : Place) (s : String) :
    Follows id out (Manual.claim (some (namespaceAt id up)) s) [.claim (s :: up)]
      (namespaceAt id (s :: up)) := by
  intro p
  rw [run_claim, takeAll, Step.take, claimAt_cons]
  cases p.registry.grant ⟨some (namespaceAt id up), s⟩ <;> rfl

theorem claim_id : Follows id out (Manual.claim none id) [.claim []] (namespaceAt id []) := by
  intro p
  rw [run_claim, takeAll, Step.take, claimAt_nil]
  cases p.registry.grant ⟨none, id⟩ <;> rfl

theorem save (doc : Document) (blocks : List Block) (h : doc.text = .ok (render blocks)) :
    Follows id out (Manual.save out blocks (namespaceAt id doc.place)) [.write doc]
      (fileAt id doc.place) := by
  intro p
  rw [run_save]
  simp only [takeAll, Step.take, h, fileAt]
  cases p.disk.write (out.child (Path.parse (fileOf (namespaceAt id doc.place))))
    (render blocks) <;> rfl

/-- A body without a text ends the writing, whatever was to follow. -/
theorem needed_error {f : List Block → Writing α} {doc : Document} {fault : Json.WriteFault}
    (a : α) (h : doc.text = .error fault) :
    Follows id out (needed (.error fault) >>= f) [.write doc] a := by
  intro p
  simp only [takeAll, Step.take, h]
  rfl

/-- The rule for a leaf: its body is put into words, its namespace claimed, its file
written. -/
theorem leaf (id : String) (out : Path) (up : Place) (s : String) (dress : List Block → List Block)
    (body : Except Json.WriteFault (List Block)) :
    Follows id out
      (do
        let blocks ← needed body
        let ns ← Manual.claim (some (namespaceAt id up)) s
        Manual.save out (dress blocks) ns)
      ((Tree.leaf s (body.map dress)).steps id up) (fileAt id (s :: up)) := by
  cases body with
  | error fault => exact needed_error _ rfl
  | ok blocks =>
    exact (claim up s).bind (save (leafDocument (s :: up) (.ok (dress blocks))) _ rfl)

end Follows

/-! ## Rows of children -/

theorem childSteps_untitled (id : String) (up : Place) (f : α → Tree) (xs : List α) :
    childSteps id up ((xs.map f).map untitled) = xs.flatMap fun x => (f x).steps id up := by
  rw [childSteps_eq_flatMap, List.flatMap_map, List.flatMap_map]
  rfl

/-- A document says of children without titles just that it includes them. -/
theorem flatMap_includeBlocks_untitled (id : String) (up : Place) (ts : List Tree) :
    (ts.map untitled).flatMap (includeBlocks id up) =
      (ts.map fun t => fileAt id (t.segment :: up)).map Block.inclusion := by
  induction ts with
  | nil => rfl
  | cons t rest ih =>
    rw [List.map_cons, List.flatMap_cons, ih]
    rfl

/-- The rule for a branch whose children are shown without titles: its namespace is
claimed, the children are written one after the other, and then the document that
includes them. -/
theorem Follows.branch (id : String) (out : Path) {f : String → α → Writing String}
    (up : Place) (s : String) (head : List Block) (tree : α → Tree) (xs : List α)
    (hf : ∀ x, Follows id out (f (namespaceAt id (s :: up)) x) ((tree x).steps id (s :: up))
      (fileAt id ((tree x).segment :: s :: up))) :
    Follows id out
      (do
        let ns ← Manual.claim (some (namespaceAt id up)) s
        let files ← xs.mapM (f ns)
        Manual.save out (head ++ files.map .inclusion) ns)
      ((Tree.branch s head ((xs.map tree).map untitled)).steps id up) (fileAt id (s :: up)) := by
  rw [Tree.steps, childSteps_untitled, List.cons_append, ← List.singleton_append]
  refine (Follows.claim up s).bind
    ((Follows.mapM xs hf).bind (Follows.save (branchDocument ..) _ ?_))
  rw [branchDocument, branchText, flatMap_includeBlocks_untitled, List.map_map]
  simp only [Function.comp_def, List.map_map]

/-! ## Resources -/

variable (id : String) (out : Path)

/-- A section of a resource is one child under a title. -/
theorem follows_writeSection {level : Nat} (h : level < deepestLevel) (up : Place)
    (title segment : String) (body : Except Json.WriteFault (List Block)) :
    Follows id out (writeSection out level h (namespaceAt id up) title segment body)
      ((Tree.leaf segment body).steps id up)
      (includeBlocks id up (titled title (level + 1) (.leaf segment body))) := by
  have leaf := Follows.leaf id out up segment (fun blocks => blocks) body
  have same : body.map (fun blocks => blocks) = body := by cases body <;> rfl
  rw [same] at leaf
  have shown := leaf.bind_pure fun file => [titleBelow level h title, Block.inclusion file]
  simp only [bind_assoc] at shown
  exact shown

/-- An entry stands in a document of its own, under its name. -/
theorem follows_entry {level : Nat} (h : level < deepestLevel) (up : Place) (name : α → String)
    (blocks : α → Except Json.WriteFault (List Block)) (x : α) :
    Follows id out
      (do
        let body ← needed (blocks x)
        let ns ← claim (some (namespaceAt id up)) (name x)
        save out (titleBelow level h (monoText (name x)) :: body) ns)
      ((entryTree (level + 1) name blocks x).steps id up)
      (fileAt id ((entryTree (level + 1) name blocks x).segment :: up)) :=
  Follows.leaf id out up (name x) (fun body => titleBelow level h (monoText (name x)) :: body)
    (blocks x)

theorem follows_writeNamed {level : Nat} (h : level < deepestLevel) (up : Place)
    (segment : String) (name : α → String) (blocks : α → Except Json.WriteFault (List Block))
    (xs : List α) :
    Follows id out (writeNamed out level h (namespaceAt id up) segment name blocks xs)
      ((Tree.branch segment []
        (((Text.sortByName name xs).map (entryTree (level + 1) name blocks)).map untitled)).steps
          id up)
      (fileAt id (segment :: up)) :=
  Follows.branch id out up segment [] _ _ fun x => follows_entry id out h _ name blocks x

theorem follows_writeNamedSection {level : Nat} (h : level + 1 < deepestLevel) (up : Place)
    (title segment : String) (name : α → String)
    (blocks : α → Except Json.WriteFault (List Block)) (xs : List α) :
    Follows id out (writeNamedSection out level h (namespaceAt id up) title segment name blocks xs)
      (childSteps id up (namedSection title segment (level + 1) name blocks xs))
      ((namedSection title segment (level + 1) name blocks xs).flatMap (includeBlocks id up)) := by
  unfold writeNamedSection namedSection
  cases xs with
  | nil => exact Follows.pure []
  | cons x rest =>
    have named := follows_writeNamed id out h up segment name blocks (x :: rest)
    have both := named.bind_pure fun file =>
      [titleBelow level (Nat.lt_of_succ_lt h) title, Block.inclusion file]
    simpa [titled, includeBlocks, titleBelow, Tree.segment] using both

/-- The sections of the operations, as children of the resource. -/
theorem map_operationSections (level : Nat) (r : Resource) :
    (operationSections r).map (fun s => titled s.1 level (.leaf s.2.1 s.2.2)) =
      operationsSection level r := by
  simp only [operationSections, operationsSection, operationSection, List.map_append,
    List.map_map, Function.comp_def]

/-- Sections that are written one after the other are children one after the other. -/
theorem follows_sections {level : Nat} (h : level < deepestLevel) (up : Place)
    (title segment : α → String) (body : α → Except Json.WriteFault (List Block)) (xs : List α) :
    Follows id out
      (xs.mapM fun x => writeSection out level h (namespaceAt id up) (title x) (segment x) (body x))
      (childSteps id up (xs.map fun x => titled (title x) (level + 1) (.leaf (segment x) (body x))))
      ((xs.map fun x => titled (title x) (level + 1) (.leaf (segment x) (body x))).map
        (includeBlocks id up)) := by
  rw [childSteps_eq_flatMap, List.flatMap_map, List.map_map]
  exact Follows.mapM xs fun x => follows_writeSection id out h up (title x) (segment x) (body x)

/-- **A resource is written as its tree says.** -/
theorem follows_writeResource {level : Nat} (h : level + 1 < deepestLevel) (up : Place)
    (r : Resource) :
    Follows id out (writeResource out level h (namespaceAt id up) r)
      ((resourceTree (level + 1) r).steps id up) (fileAt id ("resource" :: up)) := by
  have lower : level < deepestLevel := Nat.lt_of_succ_lt h
  have schema := follows_sections id out lower ("resource" :: up)
    (fun _ => "Resource Schema") (fun _ => "schema") schemaBlocks r.resourceSchema.toList
  have operations := follows_sections id out lower ("resource" :: up)
    (fun s => s.1) (fun s => s.2.1) (fun s => s.2.2) (operationSections r)
  have actions := follows_writeNamedSection id out h ("resource" :: up)
    "Actions" "actions" Action.name actionBlocks r.actions
  have queries := follows_writeNamedSection id out h ("resource" :: up)
    "Queries" "queries" Query.key queryBlocks r.queries
  rw [map_operationSections] at operations
  have row : (resourceTree (level + 1) r).steps id up =
      [.claim ("resource" :: up)] ++
        (childSteps id ("resource" :: up) (schemaSection (level + 1) r.resourceSchema) ++
        (childSteps id ("resource" :: up) (operationsSection (level + 1) r) ++
        (childSteps id ("resource" :: up) (actionsSection (level + 1) r) ++
        (childSteps id ("resource" :: up) (queriesSection (level + 1) r) ++
        [.write (branchDocument id ("resource" :: up) (resourceHead r)
          (resourceSections (level + 1) r))])))) := by
    rw [resourceTree, Tree.steps]
    simp only [resourceSections, childSteps_append, List.append_assoc, List.cons_append,
      List.nil_append]
  rw [row]
  refine (Follows.claim up "resource").bind (schema.bind (operations.bind (actions.bind
    (queries.bind (Follows.save (branchDocument id ("resource" :: up) (resourceHead r)
      (resourceSections (level + 1) r)) _ ?_)))))
  simp only [branchDocument, branchText, resourceHead, resourceSections, schemaSection,
    actionsSection, queriesSection, List.flatMap_append, List.append_assoc, ← List.flatMap_def]

/-! ## Paths -/

/-- The rule for the document of a name with one resource below it. -/
theorem follows_named_resource (level : Nat) (h : level + 2 < deepestLevel) (up : Place)
    (name : String) (r : Resource) :
    Follows id out
      (do
        let ns ← claim (some (namespaceAt id up)) name
        let file ← writeResource out (level + 1) h ns r
        writePathDocument out level (by omega) name ns [file])
      ((namedBranch name (level + 1) [resourceTree (level + 2) r]).steps id up)
      (fileAt id (name :: up)) := by
  have row : (namedBranch name (level + 1) [resourceTree (level + 2) r]).steps id up =
      [.claim (name :: up)] ++ ((resourceTree (level + 2) r).steps id (name :: up) ++
        [.write (branchDocument id (name :: up) [.sectionTitle (monoText name) (level + 1)]
          [untitled (resourceTree (level + 2) r)])]) := by
    rw [namedBranch, Tree.steps]
    simp [untitled]
  rw [row]
  exact (Follows.claim up name).bind
    ((follows_writeResource id out h (name :: up) r).bind (Follows.save (branchDocument ..) _ rfl))

theorem follows_writePath (up : Place) (entry : String × Resource) :
    Follows id out (writePath out (namespaceAt id up) entry) ((pathTree entry).steps id up)
      (fileAt id ((pathTree entry).segment :: up)) :=
  follows_named_resource id out pathsLevel (by decide) up entry.1 entry.2

theorem follows_writeVersion (up : Place) (entry : String × Resource) :
    Follows id out (writeVersion out (namespaceAt id up) entry) ((versionTree entry).steps id up)
      (fileAt id ((versionTree entry).segment :: up)) :=
  follows_named_resource id out (pathsLevel + 1) (by decide) up entry.1 entry.2

theorem follows_writeVersionedPath (up : Place) (entry : String × Versions) :
    Follows id out (writeVersionedPath out (namespaceAt id up) entry)
      ((versionedPathTree entry).steps id up)
      (fileAt id ((versionedPathTree entry).segment :: up)) :=
  Follows.branch id out up entry.1 [.sectionTitle (monoText entry.1) 2] versionTree _
    fun v => follows_writeVersion id out (entry.1 :: up) v

/-- A table of paths is written as its tree says, if its paths are. -/
theorem follows_writePaths {write : String → String × β → Writing String}
    {tree : String × β → Tree} (up : Place)
    (hw : ∀ up x, Follows id out (write (namespaceAt id up) x) ((tree x).steps id up)
      (fileAt id ((tree x).segment :: up)))
    (entries : List (String × β)) :
    Follows id out (writePaths out write (namespaceAt id up) entries)
      (childSteps id up ((allPathsTree tree entries).map untitled))
      ((allPathsTree tree entries).map fun t => fileAt id (t.segment :: up)).head? := by
  unfold writePaths allPathsTree
  cases entries with
  | nil => exact Follows.pure none
  | cons x rest =>
    have written := (Follows.branch id out up "paths" [.sectionTitle "Paths" 1]
      tree (Text.sortByName Prod.fst (x :: rest)) fun e => hw ("paths" :: up) e).bind_pure some
    simp only [bind_assoc] at written
    rw [List.isEmpty_cons, if_neg Bool.false_ne_true, if_neg Bool.false_ne_true,
      List.map_singleton, untitled, childSteps_cons, childSteps_nil, List.append_nil]
    exact written

/-- The table of paths of an API is written as its tree says. -/
theorem follows_writePathTable (up : Place) (t : Option PathTable) :
    Follows id out (writePathTable out (namespaceAt id up) t)
      (childSteps id up ((t.toList.flatMap pathsTree).map untitled))
      ((t.toList.flatMap pathsTree).map fun t => fileAt id (t.segment :: up)).head? := by
  rcases t with _ | entries | entries | kind
  · exact Follows.pure none
  · simpa [writePathTable, pathsTree] using
      follows_writePaths id out up (follows_writePath id out) entries
  · simpa [writePathTable, pathsTree] using
      follows_writePaths id out up (follows_writeVersionedPath id out) entries
  · exact Follows.pure none

/-! ## Catalogs -/

theorem follows_writeCatalog (up : Place) (title segment : String)
    (blocks : α → Except Json.WriteFault (List Block)) (c : Catalog α) :
    Follows id out (writeCatalog out title segment blocks (namespaceAt id up) c)
      ((catalogTree title segment blocks c).steps id up) (fileAt id (segment :: up)) :=
  Follows.branch id out up segment [.sectionTitle title 1] _ _ fun e =>
    follows_entry id out (by decide) _ Prod.fst (fun e => blocks e.2) e

/-- A catalog that may be missing is written as its tree says. -/
theorem follows_writeOptionalCatalog (up : Place) (title segment : String)
    (blocks : α → Except Json.WriteFault (List Block)) (c : Catalog α) :
    Follows id out
      (do return some (← writeCatalog out title segment blocks (namespaceAt id up) c))
      (childSteps id up [untitled (catalogTree title segment blocks c)])
      (some (fileAt id (segment :: up))) := by
  rw [untitled, childSteps_cons, childSteps_nil, List.append_nil]
  exact (follows_writeCatalog id out up title segment blocks c).bind_pure some

theorem follows_writeDefinitions (up : Place) (c : Option (Catalog Schema)) :
    Follows id out (writeDefinitions out (namespaceAt id up) c)
      (childSteps id up ((c.toList.map definitionsTree).map untitled))
      ((c.toList.map definitionsTree).map fun t => fileAt id (t.segment :: up)).head? := by
  cases c with
  | none => exact Follows.pure none
  | some c =>
    exact follows_writeOptionalCatalog id out up "Definitions" "definitions" schemaBlocks c

theorem follows_writeErrors (up : Place) (c : Option (Catalog ApiError)) :
    Follows id out (writeErrors out (namespaceAt id up) c)
      (childSteps id up ((c.toList.map errorsTree).map untitled))
      ((c.toList.map errorsTree).map fun t => fileAt id (t.segment :: up)).head? := by
  cases c with
  | none => exact Follows.pure none
  | some c => exact follows_writeOptionalCatalog id out up "Errors" "errors" errorBlocks c

/-! ## The whole manual -/

/-- There is at most one document of all paths. -/
theorem length_pathsTree_le (t : Option PathTable) : (t.toList.flatMap pathsTree).length ≤ 1 := by
  rcases t with _ | entries | entries | kind
  · simp
  · cases entries <;> simp [pathsTree, allPathsTree]
  · cases entries <;> simp [pathsTree, allPathsTree]
  · simp [pathsTree]

/-- A list of at most one item is its first item, if there is one. -/
theorem toList_head? {xs : List α} (h : xs.length ≤ 1) : xs.head?.toList = xs := by
  match xs, h with
  | [], _ => rfl
  | [x], _ => rfl

/-- **The manual is written as its tree says.** -/
theorem follows_writeManual (title : String) (d : Description) :
    Follows d.id out (writeManual out title d) (steps title d) (fileAt d.id rootPlace) := by
  have row : steps title d =
      [.claim []] ++ (childSteps d.id [] ((d.paths.toList.flatMap pathsTree).map untitled) ++
        (childSteps d.id [] ((d.definitions.toList.map definitionsTree).map untitled) ++
        (childSteps d.id [] ((d.errors.toList.map errorsTree).map untitled) ++
        ([.claim rootPlace] ++ [.write (rootDocument title d)])))) := by
    rw [steps, sections]
    simp only [List.map_append, childSteps_append, List.append_assoc, List.cons_append,
      List.nil_append]
  rw [row]
  refine Follows.claim_id.bind ((follows_writePathTable d.id out [] d.paths).bind
    ((follows_writeDefinitions d.id out [] d.definitions).bind
    ((follows_writeErrors d.id out [] d.errors).bind
    ((Follows.claim [] rootSegment).bind (Follows.save (rootDocument title d) _ ?_)))))
  have files (ts : List Tree) (h : ts.length ≤ 1) :
      (ts.map fun t => fileAt d.id (t.segment :: [])).head?.toList =
        ts.map fun t => fileAt d.id (t.segment :: []) :=
    toList_head? (by simpa using h)
  simp only [rootDocument, branchText, flatMap_includeBlocks_untitled, sections, rootHead,
    List.flatMap_cons, List.flatMap_nil, List.flatMap_append, List.append_nil, List.map_append,
    List.append_assoc]
  rw [files _ (length_pathsTree_le d.paths), files _ (by cases d.definitions <;> simp),
    files _ (by cases d.errors <;> simp)]
  rfl

/-- **A manual is generated by taking the steps of its description**, unless what stands in the
place of the paths is no table. -/
theorem generate_eq (title : String) (out : Path) (disk : FileSystem) {d : Description}
    (h : ∀ kind, d.paths ≠ some (.unsupported kind)) :
    generate title out disk d =
      let run := takeAll d.id out ⟨Registry.empty, [], disk⟩ (steps title d)
      ⟨run.2.written, run.2.disk, run.1⟩ := by
  have run := follows_writeManual out title d ⟨Registry.empty, [], disk⟩
  unfold generate
  split
  · rename_i kind hk
    exact absurd hk (h kind)
  · rw [run]
    rcases takeAll d.id out ⟨Registry.empty, [], disk⟩ (steps title d) with ⟨_ | failure, p⟩ <;> rfl

end Manual
end ApiManual
