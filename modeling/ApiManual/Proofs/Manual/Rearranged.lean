import ApiManual.Proofs.Manual.Siblings
import ApiManual.Proofs.Manual.Writing
import ApiManual.Proofs.Text.Order
import ApiManual.Proofs.Validation.Correspondence

/-!
# Descriptions in another order

A manual shows paths, versions, actions, queries and the entries of catalogs in the order
of their names.  So two descriptions that have the same of these, in whatever order, have
one manual: `Description.Rearranged d d'` says how they may differ, and then a run does the
same for both (`generate_of_rearranged`), as the documents of both are one tree.

All names have to be told apart for this, since a row in which a name stands twice is
sorted in the order given.
-/

namespace ApiManual

open Validation

/-- Two resources of which nothing differs but the order of actions and that of queries. -/
structure Resource.Permuted (r r' : Resource) : Prop where
  same : r' = { r with actions := r'.actions, queries := r'.queries }
  actions : r.actions.Perm r'.actions
  queries : r.queries.Perm r'.queries

/-- The same of two resources whose actions and queries can be told apart by their names. -/
structure Resource.Rearranged (r r' : Resource) : Prop extends r.Permuted r' where
  distinct : r.NamesDiffer fun name => name

/-- Two tables of one shape that have the same paths, and the same versions under each. -/
inductive PathTable.Rearranged : PathTable → PathTable → Prop
  | flat {es es' : List (String × Resource)}
      (h : Corresponds (fun _ => Resource.Rearranged) es es') : Rearranged (.flat es) (.flat es')
  | versioned {es es' : List (String × Versions)}
      (h : Corresponds (fun _ => Corresponds fun _ => Resource.Rearranged) es es') :
      Rearranged (.versioned es) (.versioned es')

/-- Two descriptions that have the same of everything, in whatever order. -/
structure Description.Rearranged (d d' : Description) : Prop where
  id : d.id = d'.id
  description : d.description = d'.description
  paths : Option.Rel PathTable.Rearranged d.paths d'.paths
  definitions : Option.Rel (Corresponds fun _ => Eq) d.definitions d'.definitions
  errors : Option.Rel (Corresponds fun _ => Eq) d.errors d'.errors

namespace Manual

/-! ## Rows in the order of names -/

variable {α β γ : Type}

/-- What is made of entries, beside their names. -/
theorem map_named_congr {tree : String × α → γ} {tree' : String × β → γ}
    {xs : List (String × α)} {ms : List (String × β)}
    (h : List.Forall₂ (fun x m => x.1 = m.1 ∧ tree (x.1, x.2) = tree' (x.1, m.2)) xs ms) :
    (xs.map fun e => (e.1, tree e)) = ms.map fun e => (e.1, tree' e) := by
  induction h with
  | nil => rfl
  | @cons x m _ _ first _ ih =>
    obtain ⟨name, a⟩ := x
    obtain ⟨name', b⟩ := m
    obtain ⟨rfl, same⟩ : name = name' ∧ tree (name, a) = tree' (name, b) := first
    rw [List.map_cons, List.map_cons, ih, same]

/-- **What is made of corresponding tables, in the order of names, is the same**, if it is the
same for the values under each name. -/
theorem map_sortByName_congr {tree : String × α → γ} {tree' : String × β → γ}
    {xs : List (String × α)} {ys : List (String × β)}
    (h : Corresponds (fun name a b => tree (name, a) = tree' (name, b)) xs ys) :
    (Text.sortByName Prod.fst xs).map tree = (Text.sortByName Prod.fst ys).map tree' := by
  -- Names are sorted the same way with what is made of their entries beside them.
  have beside {δ : Type} (f : String × δ → γ) (es : List (String × δ)) :
      (Text.sortByName Prod.fst es).map f =
        (Text.sortByName Prod.fst (es.map fun e => (e.1, f e))).map Prod.snd := by
    rw [Text.sortByName_map es fun _ => rfl, List.map_map]
    rfl
  obtain ⟨ms, pairs, perm⟩ := h.paired
  have rows := map_named_congr pairs
  have distinct : ((xs.map fun e => (e.1, tree e)).map Prod.fst).Nodup := by
    rw [List.map_map]
    exact h.distinct
  rw [beside tree, beside tree',
    Text.sortByName_eq_of_perm ((List.Perm.of_eq rows).trans (perm.map _)) distinct]

/-! ## Trees -/

/-- The section of some items does not depend on their order. -/
theorem namedSection_perm (title segment : String) (level : Nat) {name : α → String}
    (blocks : α → Except Json.WriteFault (List Asciidoc.Block)) {xs ys : List α}
    (perm : xs.Perm ys) (distinct : (xs.map name).Nodup) :
    namedSection title segment level name blocks xs =
      namedSection title segment level name blocks ys := by
  rw [namedSection, namedSection, Text.sortByName_eq_of_perm perm distinct, perm.isEmpty_eq]

/-- **The documents of rearranged resources are one tree.** -/
theorem resourceTree_congr (level : Nat) {r r' : Resource} (h : r.Rearranged r') :
    resourceTree level r = resourceTree level r' := by
  have actions : actionsSection level r = actionsSection level r' :=
    namedSection_perm _ _ _ _ h.actions h.distinct.actions
  have queries : queriesSection level r = queriesSection level r' :=
    namedSection_perm _ _ _ _ h.queries h.distinct.queries
  rw [resourceTree, resourceTree, resourceSections, resourceSections, actions, queries, h.same]
  rfl

/-- The document of all paths, if the documents of each path are the same. -/
theorem allPathsTree_congr {tree : String × α → Tree} {es es' : List (String × α)}
    (h : Corresponds (fun name a b => tree (name, a) = tree (name, b)) es es') :
    allPathsTree tree es = allPathsTree tree es' := by
  have size : es.isEmpty = es'.isEmpty :=
    Bool.eq_iff_iff.2 (List.isEmpty_iff.trans (h.eq_nil_iff.trans List.isEmpty_iff.symm))
  rw [allPathsTree, allPathsTree, size, map_sortByName_congr h]

theorem pathsTree_congr {t t' : PathTable} (h : t.Rearranged t') : pathsTree t = pathsTree t' := by
  cases h with
  | flat h =>
    refine allPathsTree_congr (h.imp fun x _ r related => ?_)
    rw [pathTree, pathTree, resourceTree_congr 3 related]
  | versioned h =>
    refine allPathsTree_congr (h.imp fun x _ vs related => ?_)
    have versions : (Text.sortByName Prod.fst x.2).map versionTree =
        (Text.sortByName Prod.fst vs).map versionTree := by
      refine map_sortByName_congr (related.imp fun v _ r related => ?_)
      rw [versionTree, versionTree, resourceTree_congr 4 related]
    rw [versionedPathTree, versionedPathTree, versions]

/-- A catalog does not depend on the order of its entries. -/
theorem catalogTree_congr (title segment : String)
    (blocks : α → Except Json.WriteFault (List Asciidoc.Block)) {c c' : Catalog α}
    (h : Corresponds (fun _ => Eq) c c') :
    catalogTree title segment blocks c = catalogTree title segment blocks c' := by
  have entries : (Text.sortByName Prod.fst c).map (entryTree 2 Prod.fst fun e => blocks e.2) =
      (Text.sortByName Prod.fst c').map (entryTree 2 Prod.fst fun e => blocks e.2) := by
    refine map_sortByName_congr (h.imp fun x _ e same => ?_)
    rw [same]
  rw [catalogTree, catalogTree, entries]

/-! ## Runs -/

variable {d d' : Description}

/-- What is made of two options, if the same is made of related values. -/
theorem map_congr_of_rel {R : α → α → Prop} {f : α → γ} {o o' : Option α} (h : Option.Rel R o o')
    (same : ∀ a b, R a b → f a = f b) : o.map f = o'.map f := by
  cases h with
  | none => rfl
  | some related => exact congrArg some (same _ _ related)

/-- **The documents below the id are the same.** -/
theorem sections_congr (h : d.Rearranged d') : sections d = sections d' := by
  have paths : d.paths.map pathsTree = d'.paths.map pathsTree :=
    map_congr_of_rel h.paths fun _ _ => pathsTree_congr
  have definitions : d.definitions.map definitionsTree = d'.definitions.map definitionsTree :=
    map_congr_of_rel h.definitions fun _ _ => catalogTree_congr _ _ _
  have errors : d.errors.map errorsTree = d'.errors.map errorsTree :=
    map_congr_of_rel h.errors fun _ _ => catalogTree_congr _ _ _
  rw [sections, sections, List.flatMap_def, List.flatMap_def, ← Option.toList_map,
    ← Option.toList_map, ← Option.toList_map, ← Option.toList_map, ← Option.toList_map,
    ← Option.toList_map, paths, definitions, errors]

/-- **Rearranged descriptions have one manual.**  From one file system a run does the same for
both, however it ends. -/
theorem generate_of_rearranged (title : String) (out : Path) (disk : FileSystem)
    (h : d.Rearranged d') : generate title out disk d = generate title out disk d' := by
  have supported : (∀ kind, d.paths ≠ some (.unsupported kind)) ∧
      ∀ kind, d'.paths ≠ some (.unsupported kind) := by
    have paths := h.paths
    generalize d.paths = t at paths
    generalize d'.paths = t' at paths
    cases paths with
    | none => exact ⟨fun _ => nofun, fun _ => nofun⟩
    | some related => cases related <;> exact ⟨fun _ => nofun, fun _ => nofun⟩
  have documents : steps title d = steps title d' := by
    rw [steps, steps, rootDocument, rootDocument, rootHead, rootHead, sections_congr h, h.id,
      h.description]
  rw [generate_eq title out disk supported.1, generate_eq title out disk supported.2, documents,
    h.id]

end Manual
end ApiManual
