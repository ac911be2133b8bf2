import ApiManual.Proofs.Manual.Nesting
import Mathlib.Data.List.Nodup

/-!
# Siblings that can be told apart

Documents of different parents are told apart by what is known of their parents, and so
it comes down to siblings whether all documents of a manual are different.  What
"different" means is left open here.  `g` is what is to be different for all places:
the place itself, say, or its namespace.  `f` is what has to be different for the
segments of siblings, and `P` is what these have to be like as soon as one of the
siblings has children of its own.  `Separates g f P` says that this is enough, and then
all places that a manual claims differ in `g` (`nodup_claims_steps`).

`Description.NamesDiffer f P` is what remains to be asked of a description.  The
segments that every manual has, such as `resource` and `index`, are the business of
`Separates`.
-/

namespace ApiManual

variable {ι κ : Type}

/-! ## Names in descriptions -/

/-- The actions of a resource differ in what `f` makes of their names, and so do its queries. -/
structure Resource.NamesDiffer (f : String → κ) (r : Resource) : Prop where
  actions : (r.actions.map fun a => f a.name).Nodup
  queries : (r.queries.map fun q => f q.key).Nodup

/-- The entries of a table differ in what `f` makes of their names, and `P` holds of these. -/
structure EntriesDiffer (f : String → κ) (P : String → Prop) (below : α → Prop)
    (entries : List (String × α)) : Prop where
  names : (entries.map fun e => f e.1).Nodup
  spelled : ∀ e ∈ entries, P e.1
  below : ∀ e ∈ entries, below e.2

/-- The same of a table of paths, and of the versions of each path. -/
def PathTable.NamesDiffer (f : String → κ) (P : String → Prop) : PathTable → Prop
  | .flat entries => EntriesDiffer f P (Resource.NamesDiffer f) entries
  | .versioned entries => EntriesDiffer f P (EntriesDiffer f P (Resource.NamesDiffer f)) entries
  | .unsupported _ => True

/-- Everywhere in a description siblings differ in what `f` makes of their names, and `P` holds
of the names of paths and versions. -/
structure Description.NamesDiffer (f : String → κ) (P : String → Prop) (d : Description) :
    Prop where
  paths : ∀ t ∈ d.paths, t.NamesDiffer f P
  definitions : ∀ c ∈ d.definitions, (c.map fun e => f e.1).Nodup
  errors : ∀ c ∈ d.errors, (c.map fun e => f e.1).Nodup

/-- No two siblings of a description have one name. -/
def Description.HasDistinctNames (d : Description) : Prop :=
  d.NamesDiffer (fun name => name) fun _ => True

namespace Manual

/-! ## The segments that every manual has -/

/-- The segments of the sections of a resource, in order. -/
def sectionSegments : List String :=
  ["schema", "create", "read", "update", "delete", "patch", "actions", "queries"]

/-- The segments of the documents right below the id, in order. -/
def topSegments : List String := ["paths", "definitions", "errors", rootSegment]

/-- Places differ in `g` as soon as siblings on the way to them differ in `f`. -/
structure Separates (g : Place → ι) (f : String → κ) (P : String → Prop) : Prop where
  /-- A place differs from those above it. -/
  below : ∀ {s : String} {up p : Place}, (s :: up) <:+ p → g p ≠ g up
  /-- Siblings differ. -/
  leaves : ∀ {s s' : String} {up : Place}, f s ≠ f s' → g (s :: up) ≠ g (s' :: up)
  /-- What stands at or below one sibling differs from what stands at or below another. -/
  branches : ∀ {s s' : String} {up p q : Place}, P s → P s' → f s ≠ f s' →
    (s :: up) <:+ p → (s' :: up) <:+ q → g p ≠ g q
  sections : (sectionSegments.map f).Nodup
  top : (topSegments.map f).Nodup
  spelled : ∀ s ∈ "resource" :: sectionSegments ++ topSegments, P s

/-! ## Places below a place -/

theorem eq_of_mem_claims_leafSteps {place p : Place}
    {body : Except Json.WriteFault (List Asciidoc.Block)}
    (mem : p ∈ claims (leafSteps place body)) : p = place := by
  cases body with
  | ok blocks => simpa [leafSteps] using mem
  | error fault => simp [leafSteps] at mem

mutual

/-- What a tree claims stands at its place or below it. -/
theorem Tree.suffix_of_mem_claims (id : String) (up : Place) :
    ∀ (t : Tree), ∀ p ∈ claims (t.steps id up), (t.segment :: up) <:+ p
  | .leaf segment body, p, mem => by
    rw [Tree.steps] at mem
    rw [eq_of_mem_claims_leafSteps mem]
    exact List.suffix_rfl
  | .branch segment head children, p, mem => by
    rw [Tree.steps, List.cons_append, claims_cons_claim, claims_append, List.mem_cons,
      List.mem_append] at mem
    rcases mem with rfl | mem | mem
    · exact List.suffix_rfl
    · obtain ⟨c, -, suffix⟩ := suffix_of_mem_claims_children id (segment :: up) children p mem
      exact (List.suffix_cons ..).trans suffix
    · cases mem

/-- What several trees claim stands at the place of one of them or below it. -/
theorem suffix_of_mem_claims_children (id : String) (up : Place) :
    ∀ (ts : Children), ∀ p ∈ claims (childSteps id up ts), ∃ c ∈ ts, (c.2.segment :: up) <:+ p
  | [], p, mem => by
    rw [childSteps_nil] at mem
    cases mem
  | (above, t) :: rest, p, mem => by
    rw [childSteps_cons, claims_append, List.mem_append] at mem
    rcases mem with mem | mem
    · exact ⟨(above, t), List.mem_cons_self .., t.suffix_of_mem_claims id up p mem⟩
    · obtain ⟨c, hc, suffix⟩ := suffix_of_mem_claims_children id up rest p mem
      exact ⟨c, List.mem_cons_of_mem _ hc, suffix⟩

end

/-! ## Trees -/

/-- Whether a document includes no other. -/
def Tree.IsLeaf : Tree → Prop
  | .leaf _ _ => True
  | .branch _ _ _ => False

/-- Siblings differ in `f`; and they are all leaves or `P` holds of all their segments. -/
structure AreApart (f : String → κ) (P : String → Prop) (ts : Children) : Prop where
  differ : (ts.map fun c => f c.2.segment).Nodup
  spelled : (∀ c ∈ ts, c.2.IsLeaf) ∨ ∀ c ∈ ts, P c.2.segment

/-- All siblings in a tree can be told apart. -/
inductive Tree.IsApart (f : String → κ) (P : String → Prop) : Tree → Prop
  | leaf (segment : String) (body : Except Json.WriteFault (List Asciidoc.Block)) :
      IsApart f P (.leaf segment body)
  | branch {segment : String} {head : List Asciidoc.Block} {children : Children}
      (siblings : AreApart f P children) (below : ∀ c ∈ children, c.2.IsApart f P) :
      IsApart f P (.branch segment head children)

variable {g : Place → ι} {f : String → κ} {P : String → Prop}

/-- What different siblings claim differs in `g`. -/
theorem Separates.disjoint (h : Separates g f P) (id : String) {up : Place} {t t' : Tree}
    (spelled : t.IsLeaf ∧ t'.IsLeaf ∨ P t.segment ∧ P t'.segment)
    (differ : f t.segment ≠ f t'.segment) :
    List.Disjoint ((claims (t.steps id up)).map g) ((claims (t'.steps id up)).map g) := by
  intro x hx hy
  obtain ⟨p, hp, rfl⟩ := List.mem_map.1 hx
  obtain ⟨q, hq, same⟩ := List.mem_map.1 hy
  rcases spelled with ⟨leaf, leaf'⟩ | ⟨spelled, spelled'⟩
  · cases t with
    | branch segment head children => cases leaf
    | leaf segment body =>
      cases t' with
      | branch segment head children => cases leaf'
      | leaf segment' body' =>
        rw [Tree.steps] at hp hq
        rw [eq_of_mem_claims_leafSteps hp, eq_of_mem_claims_leafSteps hq] at same
        exact h.leaves differ same.symm
  · exact h.branches spelled spelled' differ (t.suffix_of_mem_claims id up p hp)
      (t'.suffix_of_mem_claims id up q hq) same.symm

/-- What several trees claim is different if it is different for each, and the trees can be told
apart. -/
theorem Separates.nodup_children (h : Separates g f P) (id : String) {up : Place} {ts : Children}
    (siblings : AreApart f P ts)
    (each : ∀ c ∈ ts, ((claims (c.2.steps id up)).map g).Nodup) :
    ((claims (childSteps id up ts)).map g).Nodup := by
  have row : (claims (childSteps id up ts)).map g =
      ts.flatMap fun c => (claims (c.2.steps id up)).map g := by
    rw [childSteps_eq_flatMap, claims, List.filterMap_flatMap, List.map_flatMap]
    rfl
  rw [row, List.nodup_flatMap]
  refine ⟨each, (List.pairwise_map.1 siblings.differ).imp_of_mem fun ha hb differ => ?_⟩
  refine h.disjoint id ?_ differ
  exact siblings.spelled.imp (fun leaf => ⟨leaf _ ha, leaf _ hb⟩) fun s => ⟨s _ ha, s _ hb⟩

mutual

/-- All places that a tree claims are different. -/
theorem Tree.nodup_claims (h : Separates g f P) (id : String) (up : Place) :
    ∀ t : Tree, t.IsApart f P → ((claims (t.steps id up)).map g).Nodup
  | .leaf segment body, _ => by
    rw [Tree.steps]
    cases body with
    | ok blocks => exact List.nodup_singleton _
    | error fault => exact List.nodup_nil
  | .branch segment head children, .branch siblings below => by
    rw [Tree.steps, List.cons_append, claims_cons_claim, claims_append, List.map_cons,
      List.nodup_cons]
    have children' := h.nodup_children id siblings
      (nodup_claims_of_mem h id (segment :: up) children below)
    refine ⟨fun mem => ?_, by simpa using children'⟩
    obtain ⟨p, hp, same⟩ := List.mem_map.1 mem
    rw [List.mem_append] at hp
    rcases hp with hp | hp
    · obtain ⟨c, -, suffix⟩ := suffix_of_mem_claims_children id (segment :: up) children p hp
      exact h.below suffix same
    · cases hp

/-- All places that each of several trees claims are different. -/
theorem nodup_claims_of_mem (h : Separates g f P) (id : String) (up : Place) :
    ∀ ts : Children, (∀ c ∈ ts, c.2.IsApart f P) →
      ∀ c ∈ ts, ((claims (c.2.steps id up)).map g).Nodup
  | [], _, c, mem => by cases mem
  | (above, t) :: rest, apart, c, mem => by
    rcases List.mem_cons.1 mem with rfl | mem
    · exact t.nodup_claims h id up (apart _ (List.mem_cons_self ..))
    · exact nodup_claims_of_mem h id up rest (fun c hc => apart c (List.mem_cons_of_mem _ hc)) c mem

end

/-! ## The trees of descriptions -/

/-- Sorting items by name leaves them apart. -/
theorem nodup_sortByName {α : Type} (name : α → String) (key : α → κ) {xs : List α}
    (h : (xs.map key).Nodup) : ((Text.sortByName name xs).map key).Nodup :=
  ((List.mergeSort_perm xs _).map key).nodup_iff.2 h

/-- Documents of one name each, in the order of their names. -/
theorem AreApart.named {α : Type} {tree : α → Tree} {name : α → String} {xs : List α}
    (segment : ∀ x, (tree x).segment = name x) (differ : (xs.map fun x => f (name x)).Nodup)
    (spelled : (∀ x, (tree x).IsLeaf) ∨ ∀ x ∈ xs, P (name x)) :
    AreApart f P (((Text.sortByName name xs).map tree).map untitled) := by
  refine ⟨?_, ?_⟩
  · have sorted := nodup_sortByName name (fun x => f (name x)) differ
    simpa [Function.comp_def, untitled, segment] using sorted
  · refine spelled.imp (fun leaf c mem => ?_) fun s c mem => ?_
    · obtain ⟨t, ht, rfl⟩ := List.mem_map.1 mem
      obtain ⟨x, -, rfl⟩ := List.mem_map.1 ht
      exact leaf x
    · obtain ⟨t, ht, rfl⟩ := List.mem_map.1 mem
      obtain ⟨x, hx, rfl⟩ := List.mem_map.1 ht
      show P (tree x).segment
      rw [segment]
      exact s x (List.mem_mergeSort.1 hx)

/-- Documents of a list of fixed segments, some of which may be missing. -/
theorem AreApart.of_sublist {ts : Children} {segments : List String}
    (h : (ts.map fun c => c.2.segment).Sublist segments) (differ : (segments.map f).Nodup)
    (spelled : ∀ s ∈ segments, P s) : AreApart f P ts := by
  refine ⟨?_, .inr fun c mem => spelled _ (h.subset (List.mem_map_of_mem mem))⟩
  have kept := (h.map f).nodup differ
  rwa [List.map_map] at kept

theorem segments_operationSection_sublist {α : Type} (title segment : String) (level : Nat)
    (blocks : α → Except Json.WriteFault (List Asciidoc.Block)) (o : Option α) :
    ((operationSection title segment level blocks o).map fun c => c.2.segment).Sublist
      [segment] := by
  cases o with
  | none => exact List.nil_sublist _
  | some x => exact List.Sublist.refl _

theorem segments_namedSection_sublist {α : Type} (title segment : String) (level : Nat)
    (name : α → String) (blocks : α → Except Json.WriteFault (List Asciidoc.Block))
    (xs : List α) :
    ((namedSection title segment level name blocks xs).map fun c => c.2.segment).Sublist
      [segment] := by
  unfold namedSection
  split
  · exact List.nil_sublist _
  · exact List.Sublist.refl _

/-- The sections of a resource have fixed segments. -/
theorem segments_resourceSections_sublist (level : Nat) (r : Resource) :
    ((resourceSections level r).map fun c => c.2.segment).Sublist sectionSegments := by
  have schema : ((schemaSection level r.resourceSchema).map fun c => c.2.segment).Sublist
      ["schema"] := by
    cases r.resourceSchema with
    | none => exact List.nil_sublist _
    | some s => exact List.Sublist.refl _
  have operations : ((operationsSection level r).map fun c => c.2.segment).Sublist
      (["create"] ++ ["read"] ++ ["update"] ++ ["delete"] ++ ["patch"]) := by
    unfold operationsSection
    simp only [List.map_append]
    exact (((((segments_operationSection_sublist ..).append
      (segments_operationSection_sublist ..)).append
      (segments_operationSection_sublist ..)).append
      (segments_operationSection_sublist ..)).append
      (segments_operationSection_sublist ..))
  unfold resourceSections
  simp only [List.map_append]
  exact ((schema.append operations).append (segments_namedSection_sublist ..)).append
    (segments_namedSection_sublist ..)

/-- The section of some items is a leaf at a time, and its items can be told apart. -/
theorem isApart_of_mem_namedSection {α : Type} {title segment : String} {level : Nat}
    {name : α → String} {blocks : α → Except Json.WriteFault (List Asciidoc.Block)} {xs : List α}
    (differ : (xs.map fun x => f (name x)).Nodup) :
    ∀ c ∈ namedSection title segment level name blocks xs, c.2.IsApart f P := by
  unfold namedSection
  split
  · exact List.forall_mem_nil _
  · intro c mem
    rw [List.mem_singleton.1 mem]
    refine .branch (.named (fun _ => rfl) differ (.inl fun _ => trivial)) fun c mem => ?_
    obtain ⟨t, ht, rfl⟩ := List.mem_map.1 mem
    obtain ⟨x, -, rfl⟩ := List.mem_map.1 ht
    exact .leaf _ _

theorem isApart_of_mem_operationSection {α : Type} {title segment : String} {level : Nat}
    {blocks : α → Except Json.WriteFault (List Asciidoc.Block)} {o : Option α} :
    ∀ c ∈ operationSection title segment level blocks o, c.2.IsApart f P := by
  intro c mem
  obtain ⟨x, -, rfl⟩ := List.mem_map.1 mem
  exact .leaf _ _

/-- The documents of a resource can be told apart. -/
theorem isApart_resourceTree (h : Separates g f P) (level : Nat) {r : Resource}
    (names : r.NamesDiffer f) : (resourceTree level r).IsApart f P := by
  have fixed : ∀ s ∈ sectionSegments, P s := fun s mem =>
    h.spelled s (List.mem_cons_of_mem _ (List.mem_append_left _ mem))
  refine .branch (.of_sublist (segments_resourceSections_sublist level r) h.sections fixed)
    fun c mem => ?_
  simp only [resourceSections, operationsSection, List.mem_append] at mem
  rcases mem with ((mem | ((((mem | mem) | mem) | mem) | mem)) | mem) | mem
  · obtain ⟨s, -, rfl⟩ := List.mem_map.1 mem
    exact .leaf _ _
  · exact isApart_of_mem_operationSection c mem
  · exact isApart_of_mem_operationSection c mem
  · exact isApart_of_mem_operationSection c mem
  · exact isApart_of_mem_operationSection c mem
  · exact isApart_of_mem_operationSection c mem
  · exact isApart_of_mem_namedSection names.actions c mem
  · exact isApart_of_mem_namedSection names.queries c mem

/-- A document of a name with a resource below it. -/
theorem isApart_named_resource (h : Separates g f P) (name : String) (level : Nat) {r : Resource}
    (names : r.NamesDiffer f) :
    (namedBranch name level [resourceTree (level + 1) r]).IsApart f P := by
  have resource : P "resource" := h.spelled _ (List.mem_cons_self ..)
  refine .branch ⟨List.nodup_singleton _, .inr fun c mem => ?_⟩ fun c mem => ?_
  · rw [List.mem_singleton.1 mem]
    exact resource
  · rw [List.mem_singleton.1 mem]
    exact isApart_resourceTree h (level + 1) names

theorem isApart_versionedPathTree (h : Separates g f P) {entry : String × Versions}
    (names : EntriesDiffer f P (Resource.NamesDiffer f) entry.2) :
    (versionedPathTree entry).IsApart f P := by
  refine .branch (.named (fun _ => rfl) names.names (.inr names.spelled)) fun c mem => ?_
  obtain ⟨t, ht, rfl⟩ := List.mem_map.1 mem
  obtain ⟨v, hv, rfl⟩ := List.mem_map.1 ht
  exact isApart_named_resource h v.1 3 (names.below v (List.mem_mergeSort.1 hv))

theorem isApart_allPathsTree {β : Type} {tree : String × β → Tree} {below : β → Prop}
    {entries : List (String × β)} (segment : ∀ e, (tree e).segment = e.1)
    (names : EntriesDiffer f P below entries) (each : ∀ e, below e.2 → (tree e).IsApart f P) :
    ∀ t ∈ allPathsTree tree entries, t.IsApart f P := by
  unfold allPathsTree
  split
  · exact List.forall_mem_nil _
  · intro t mem
    rw [List.mem_singleton.1 mem]
    refine .branch (.named segment names.names (.inr names.spelled)) fun c mem => ?_
    obtain ⟨t, ht, rfl⟩ := List.mem_map.1 mem
    obtain ⟨e, he, rfl⟩ := List.mem_map.1 ht
    exact each e (names.below e (List.mem_mergeSort.1 he))

theorem isApart_of_mem_pathsTree (h : Separates g f P) {table : PathTable}
    (names : table.NamesDiffer f P) : ∀ t ∈ pathsTree table, t.IsApart f P := by
  cases table with
  | flat entries =>
    exact isApart_allPathsTree (fun _ => rfl) names fun e he =>
      isApart_named_resource h e.1 2 he
  | versioned entries =>
    exact isApart_allPathsTree (fun _ => rfl) names fun e he => isApart_versionedPathTree h he
  | unsupported kind => exact List.forall_mem_nil _

theorem isApart_catalogTree {α : Type} (title segment : String)
    (blocks : α → Except Json.WriteFault (List Asciidoc.Block)) {c : Catalog α}
    (names : (c.map fun e => f e.1).Nodup) :
    (catalogTree title segment blocks c).IsApart f P := by
  refine .branch (.named (fun _ => rfl) names (.inl fun _ => trivial)) fun c mem => ?_
  obtain ⟨t, ht, rfl⟩ := List.mem_map.1 mem
  obtain ⟨x, -, rfl⟩ := List.mem_map.1 ht
  exact .leaf _ _

theorem isApart_of_mem_sections (h : Separates g f P) {d : Description}
    (names : d.NamesDiffer f P) : ∀ t ∈ sections d, t.IsApart f P := by
  intro t mem
  rw [sections, List.mem_append, List.mem_append, List.mem_flatMap, List.mem_map,
    List.mem_map] at mem
  rcases mem with (⟨table, given, mem⟩ | ⟨c, given, rfl⟩) | ⟨c, given, rfl⟩
  · exact isApart_of_mem_pathsTree h (names.paths table (Option.mem_toList.1 given)) t mem
  · exact isApart_catalogTree _ _ _ (names.definitions c (Option.mem_toList.1 given))
  · exact isApart_catalogTree _ _ _ (names.errors c (Option.mem_toList.1 given))

/-! ## The whole manual -/

theorem segments_sections_sublist (d : Description) :
    ((sections d).map Tree.segment).Sublist ["paths", "definitions", "errors"] := by
  have paths : ((d.paths.toList.flatMap pathsTree).map Tree.segment).Sublist ["paths"] := by
    rcases d.paths with _ | entries | entries | kind
    · exact List.nil_sublist _
    · cases entries with
      | nil => exact List.nil_sublist _
      | cons e rest => exact List.Sublist.refl _
    · cases entries with
      | nil => exact List.nil_sublist _
      | cons e rest => exact List.Sublist.refl _
    · exact List.nil_sublist _
  have definitions : ((d.definitions.toList.map definitionsTree).map Tree.segment).Sublist
      ["definitions"] := by
    cases d.definitions with
    | none => exact List.nil_sublist _
    | some c => exact List.Sublist.refl _
  have errors : ((d.errors.toList.map errorsTree).map Tree.segment).Sublist ["errors"] := by
    cases d.errors with
    | none => exact List.nil_sublist _
    | some c => exact List.Sublist.refl _
  rw [sections, List.map_append, List.map_append]
  exact (paths.append definitions).append errors

/-- The documents right below the id, with a leaf in the place of the root. -/
def topTrees (d : Description) : List Tree := sections d ++ [Tree.leaf rootSegment (.ok [])]

/-- The root is claimed like one more document right below the id. -/
theorem claims_steps (title : String) (d : Description) :
    claims (steps title d) = [] :: claims (childSteps d.id [] ((topTrees d).map untitled)) := by
  simp [steps, topTrees, childSteps_append, untitled, Tree.steps, leafSteps, rootPlace]

/-- **All places that a manual claims are different**, as far as `g` tells places apart. -/
theorem nodup_claims_steps (h : Separates g f P) (title : String) {d : Description}
    (names : d.NamesDiffer f P) : ((claims (steps title d)).map g).Nodup := by
  have segments : (((topTrees d).map untitled).map fun c => c.2.segment).Sublist topSegments := by
    rw [List.map_map, topTrees, List.map_append]
    exact (segments_sections_sublist d).append (List.Sublist.refl [rootSegment])
  have siblings : AreApart f P ((topTrees d).map untitled) :=
    .of_sublist segments h.top fun s mem =>
      h.spelled s (List.mem_cons_of_mem _ (List.mem_append_right _ mem))
  have each : ∀ c ∈ (topTrees d).map untitled, c.2.IsApart f P := by
    intro c mem
    obtain ⟨t, ht, rfl⟩ := List.mem_map.1 mem
    rcases List.mem_append.1 ht with ht | ht
    · exact isApart_of_mem_sections h names t ht
    · rw [List.mem_singleton.1 ht]
      exact .leaf _ _
  rw [claims_steps, List.map_cons, List.nodup_cons]
  refine ⟨fun mem => ?_, h.nodup_children d.id siblings (nodup_claims_of_mem h d.id [] _ each)⟩
  obtain ⟨p, hp, same⟩ := List.mem_map.1 mem
  obtain ⟨c, -, suffix⟩ := suffix_of_mem_claims_children d.id [] _ p hp
  exact h.below suffix same

end Manual
end ApiManual
