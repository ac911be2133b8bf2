import ApiManual.Manual.Generate
import ApiManual.Proofs.Manual.Collisions
import ApiManual.Proofs.Schemas
import ApiManual.Proofs.Validation.WellFormed
import ApiManual.Proofs.Yaml.Escapes

/-!
# How a run can fail

The writing of a manual ends early for one of three reasons: a namespace is taken, a file cannot
be written, or a body has no written form.  The reader of a description is told about the first
two.  For the third one there are no words, and this is what is looked into here.

A body without a written form shows an error with a code that has no text, or one of the schemas
of the description (`isHindered_of_documents`).  If the description has been read from a text, then
a number of this schema has no text, or there is something in a pair of it that is in the way: a
mapping with bytes, a date or a moment for a key, or a value that comes back to itself
(`failure_of_accepted`).  So whatever is accepted, and holds no such number and no such pair, is
told in a manual or refused with a reason.
-/

namespace ApiManual

/-- The errors that come with the operations of a resource. -/
def Resource.operationErrors (r : Resource) : List ApiError :=
  r.allOperations.flatMap Operation.errors

/-- The errors of a description, whose codes a manual shows. -/
def Description.allErrors (d : Description) : List ApiError :=
  (d.paths.toList.flatMap PathTable.resources).flatMap Resource.operationErrors ++
    (d.errors.getD []).map Prod.snd

namespace Manual

open Asciidoc

/-! ## Bodies without a written form -/

variable {fault : Json.WriteFault}

/-- A body fails because a schema that it shows cannot be written. -/
theorem unwritable_of_schemaBlocks {s : Schema} (h : schemaBlocks s = .error fault) :
    nonEmpty? s.reference? = none ∧ ¬ s.toValue.IsWritable := by
  rw [schemaBlocks] at h
  split at h
  · cases h
  · rename_i named
    refine ⟨named, fun writable => ?_⟩
    obtain ⟨text, written⟩ := (Json.exists_render_iff _).2 writable
    rw [written] at h
    cases h

/-- What keeps a body from being written that shows codes of errors, and schemas. -/
inductive IsHindered (errors : List ApiError) (schemas : List Schema) : Json.WriteFault → Prop where
  /-- A code has no text. -/
  | code {e : ApiError} (mem : e ∈ errors) (long : Text.hasIntText e.code = false) :
      IsHindered errors schemas .number
  /-- A schema has no written form. -/
  | schema {s : Schema} {fault : Json.WriteFault} (mem : s ∈ schemas)
      (failed : schemaBlocks s = .error fault) : IsHindered errors schemas fault

theorem IsHindered.mono {errors errors' : List ApiError} {schemas schemas' : List Schema}
    (h : IsHindered errors schemas fault) (moreErrors : errors ⊆ errors')
    (moreSchemas : schemas ⊆ schemas') : IsHindered errors' schemas' fault := by
  cases h with
  | code mem long => exact .code (moreErrors mem) long
  | schema mem failed => exact .schema (moreSchemas mem) failed

/-- What is said with codes fails for one of the codes, or by itself. -/
theorem code_or_error_of_withCodes {errors : List ApiError}
    {body : Except Json.WriteFault (List Block)} (h : withCodes errors body = .error fault) :
    (fault = .number ∧ ∃ e ∈ errors, Text.hasIntText e.code = false) ∨ body = .error fault := by
  rw [withCodes] at h
  split at h
  · exact .inr h
  · rename_i long
    cases h
    obtain ⟨e, mem, long⟩ := List.all_eq_false.1 (Bool.eq_false_iff.2 long)
    exact .inl ⟨rfl, e, mem, Bool.eq_false_iff.2 long⟩

theorem isHindered_of_withCodes {errors : List ApiError} {schemas : List Schema}
    {body : Except Json.WriteFault (List Block)} (h : withCodes errors body = .error fault)
    (inside : body = .error fault → IsHindered errors schemas fault) :
    IsHindered errors schemas fault := by
  rcases code_or_error_of_withCodes h with ⟨rfl, e, mem, long⟩ | failed
  · exact .code mem long
  · exact inside failed

theorem isHindered_of_operationBody {o : Operation} {own : Attributes}
    (h : operationBody o own = .error fault) : IsHindered o.errors [] fault :=
  isHindered_of_withCodes h fun failed => nomatch failed

theorem isHindered_of_titledSchema {title : String} {s : Option Schema}
    (h : titledSchema title s = .error fault) : IsHindered [] s.toList fault := by
  cases s with
  | none => cases h
  | some x => exact .schema (Option.mem_toList.2 rfl) (Result.map_eq_error h)

theorem isHindered_of_actionBlocks {a : Action} (h : actionBlocks a = .error fault) :
    IsHindered a.errors a.schemas fault := by
  rw [actionBlocks] at h
  rcases Result.bind_eq_error h with failed | ⟨common, -, h⟩
  · exact (isHindered_of_operationBody failed).mono (List.Subset.refl _) (List.nil_subset _)
  rcases Result.bind_eq_error h with failed | ⟨request, -, h⟩
  · exact (isHindered_of_titledSchema failed).mono (List.nil_subset _)
      (List.subset_append_left _ _)
  rcases Result.bind_eq_error h with failed | ⟨response, -, h⟩
  · exact (isHindered_of_titledSchema failed).mono (List.nil_subset _)
      (List.subset_append_right _ _)
  · cases h

theorem isHindered_of_errorBlocks {e : ApiError} (h : errorBlocks e = .error fault) :
    IsHindered [e] e.schema.toList fault :=
  isHindered_of_withCodes h fun failed => (isHindered_of_titledSchema (Result.map_eq_error failed)).mono
    (List.nil_subset _) (List.Subset.refl _)

/-! ## Documents without a text -/

/-- A tree in which the body of a leaf fails. -/
inductive Tree.FailsWith (fault : Json.WriteFault) : Tree → Prop where
  | leaf (segment : String) : FailsWith fault (.leaf segment (.error fault))
  | branch {segment : String} {head : List Block} {children : Children} {c : List Block × Tree}
      (mem : c ∈ children) (below : FailsWith fault c.2) :
      FailsWith fault (.branch segment head children)

mutual

/-- A document without a text is that of a leaf whose body fails. -/
theorem Tree.failsWith_of_mem_documents {id : String} {up : Place} {doc : Document}
    (failed : doc.text = .error fault) : ∀ t : Tree, doc ∈ t.documents id up → t.FailsWith fault
  | .leaf segment body, mem => by
    rw [Tree.documents, List.mem_singleton] at mem
    rw [mem] at failed
    rw [Result.map_eq_error failed]
    exact .leaf segment
  | .branch segment head children, mem => by
    rw [Tree.documents, List.mem_append, List.mem_singleton] at mem
    rcases mem with mem | rfl
    · obtain ⟨c, inside, below⟩ := failsWith_of_mem_childDocuments failed children mem
      exact .branch inside below
    · cases failed

theorem failsWith_of_mem_childDocuments {id : String} {up : Place} {doc : Document}
    (failed : doc.text = .error fault) :
    ∀ children : Children, doc ∈ childDocuments id up children →
      ∃ c ∈ children, c.2.FailsWith fault
  | [], mem => by
    rw [childDocuments_nil] at mem
    cases mem
  | (above, t) :: rest, mem => by
    rw [childDocuments_cons, List.mem_append] at mem
    rcases mem with mem | mem
    · exact ⟨_, List.mem_cons_self, Tree.failsWith_of_mem_documents failed t mem⟩
    · obtain ⟨c, inside, below⟩ := failsWith_of_mem_childDocuments failed rest mem
      exact ⟨c, List.mem_cons_of_mem _ inside, below⟩

end

theorem failsWith_leaf_iff {segment : String} {body : Except Json.WriteFault (List Block)} :
    (Tree.leaf segment body).FailsWith fault ↔ body = .error fault := by
  constructor
  · rintro ⟨⟩
    rfl
  · rintro rfl
    exact .leaf segment

theorem failsWith_branch_iff {segment : String} {head : List Block} {children : Children} :
    (Tree.branch segment head children).FailsWith fault ↔ ∃ c ∈ children, c.2.FailsWith fault := by
  constructor
  · rintro (_ | ⟨mem, below⟩)
    exact ⟨_, mem, below⟩
  · rintro ⟨c, mem, below⟩
    exact .branch mem below

/-- Children without a title fail if one of the trees does. -/
theorem exists_untitled_iff {ts : List Tree} :
    (∃ c ∈ ts.map untitled, c.2.FailsWith fault) ↔ ∃ t ∈ ts, t.FailsWith fault := by
  simp only [List.mem_map, untitled, exists_exists_and_eq_and]

/-! ## The parts of a manual -/

/-- An entry among those of a section fails with its body. -/
theorem exists_of_entries {α : Type} {level : Nat} {name : α → String}
    {blocks : α → Except Json.WriteFault (List Block)} {xs : List α}
    (h : ∃ t ∈ (Text.sortByName name xs).map (entryTree level name blocks), t.FailsWith fault) :
    ∃ x ∈ xs, blocks x = .error fault := by
  obtain ⟨t, mem, failed⟩ := h
  obtain ⟨x, inside, rfl⟩ := List.mem_map.1 mem
  rw [entryTree, failsWith_leaf_iff] at failed
  exact ⟨x, (Text.sortByName_perm name xs).mem_iff.1 inside, Result.map_eq_error failed⟩

theorem exists_of_namedSection {α : Type} {title segment : String} {level : Nat}
    {name : α → String} {blocks : α → Except Json.WriteFault (List Block)} {xs : List α}
    (h : ∃ c ∈ namedSection title segment level name blocks xs, c.2.FailsWith fault) :
    ∃ x ∈ xs, blocks x = .error fault := by
  obtain ⟨c, mem, failed⟩ := h
  rw [namedSection] at mem
  split at mem
  · cases mem
  · rw [List.mem_singleton] at mem
    rw [mem] at failed
    exact exists_of_entries (exists_untitled_iff.1 (failsWith_branch_iff.1 failed))

theorem exists_of_operationSection {α : Type} {title segment : String} {level : Nat}
    {blocks : α → Except Json.WriteFault (List Block)} {o : Option α} {c : List Block × Tree}
    (mem : c ∈ operationSection title segment level blocks o) (failed : c.2.FailsWith fault) :
    ∃ x, o = some x ∧ blocks x = .error fault := by
  obtain ⟨x, given, rfl⟩ := List.mem_map.1 mem
  exact ⟨x, Option.mem_toList.1 given, failsWith_leaf_iff.1 failed⟩

/-- An operation under its own title fails with one of its codes. -/
theorem isHindered_of_operationsSection {level : Nat} {r : Resource} {c : List Block × Tree}
    (mem : c ∈ operationsSection level r) (failed : c.2.FailsWith fault) :
    ∃ o ∈ r.operations, IsHindered o.errors [] fault := by
  simp only [operationsSection, List.mem_append] at mem
  rcases mem with (((mem | mem) | mem) | mem) | mem
  all_goals
    obtain ⟨x, given, failed⟩ := exists_of_operationSection mem failed
    exact ⟨x.toOperation, by simp [Resource.operations, given], isHindered_of_operationBody failed⟩

theorem isHindered_of_resourceTree {level : Nat} {r : Resource}
    (h : (resourceTree level r).FailsWith fault) :
    IsHindered r.operationErrors r.schemas fault := by
  have known {o : Operation} (mem : o ∈ r.allOperations) : o.errors ⊆ r.operationErrors :=
    fun e error => List.mem_flatMap.2 ⟨o, mem, error⟩
  obtain ⟨c, mem, failed⟩ := failsWith_branch_iff.1 h
  simp only [resourceSections, List.mem_append] at mem
  rcases mem with ((mem | mem) | mem) | mem
  · obtain ⟨s, given, rfl⟩ := List.mem_map.1 mem
    exact .schema (List.mem_append_left _ given) (failsWith_leaf_iff.1 failed)
  · obtain ⟨o, inside, hindered⟩ := isHindered_of_operationsSection mem failed
    exact hindered.mono
      (known (List.mem_append_left _ (List.mem_append_left _ inside))) (List.nil_subset _)
  · obtain ⟨a, inside, failed⟩ := exists_of_namedSection ⟨c, mem, failed⟩
    refine (isHindered_of_actionBlocks failed).mono (known ?_) ?_
    · exact List.mem_append_left _ (List.mem_append_right _ (List.mem_map_of_mem inside))
    · exact fun s given => List.mem_append_right _ (List.mem_flatMap.2 ⟨a, inside, given⟩)
  · obtain ⟨q, inside, failed⟩ := exists_of_namedSection ⟨c, mem, failed⟩
    exact (isHindered_of_operationBody failed).mono
      (known (List.mem_append_right _ (List.mem_map_of_mem inside))) (List.nil_subset _)

theorem failsWith_of_pathTree {entry : String × Resource}
    (h : (pathTree entry).FailsWith fault) : (resourceTree 3 entry.2).FailsWith fault := by
  obtain ⟨t, mem, failed⟩ := exists_untitled_iff.1 (failsWith_branch_iff.1 h)
  rwa [List.mem_singleton.1 mem] at failed

theorem exists_of_versionedPathTree {entry : String × Versions}
    (h : (versionedPathTree entry).FailsWith fault) :
    ∃ version ∈ entry.2, (resourceTree 4 version.2).FailsWith fault := by
  obtain ⟨t, mem, failed⟩ := exists_untitled_iff.1 (failsWith_branch_iff.1 h)
  obtain ⟨version, inside, rfl⟩ := List.mem_map.1 mem
  obtain ⟨t, mem, failed⟩ := exists_untitled_iff.1 (failsWith_branch_iff.1 failed)
  rw [List.mem_singleton.1 mem] at failed
  exact ⟨version, (Text.sortByName_perm Prod.fst entry.2).mem_iff.1 inside, failed⟩

theorem exists_of_allPathsTree {β : Type} {tree : String × β → Tree} {entries : List (String × β)}
    (h : ∃ t ∈ allPathsTree tree entries, t.FailsWith fault) :
    ∃ e ∈ entries, (tree e).FailsWith fault := by
  obtain ⟨t, mem, failed⟩ := h
  rw [allPathsTree] at mem
  split at mem
  · cases mem
  · rw [List.mem_singleton] at mem
    rw [mem] at failed
    obtain ⟨t, mem, failed⟩ := exists_untitled_iff.1 (failsWith_branch_iff.1 failed)
    obtain ⟨e, inside, rfl⟩ := List.mem_map.1 mem
    exact ⟨e, (Text.sortByName_perm Prod.fst entries).mem_iff.1 inside, failed⟩

/-- What fails among the paths is a resource. -/
theorem exists_of_pathsTree {table : PathTable}
    (h : ∃ t ∈ pathsTree table, t.FailsWith fault) :
    ∃ r ∈ table.resources, ∃ level, (resourceTree level r).FailsWith fault := by
  cases table with
  | flat entries =>
    obtain ⟨e, mem, failed⟩ := exists_of_allPathsTree h
    exact ⟨e.2, List.mem_map_of_mem mem, 3, failsWith_of_pathTree failed⟩
  | versioned entries =>
    obtain ⟨e, mem, failed⟩ := exists_of_allPathsTree h
    obtain ⟨version, inside, failed⟩ := exists_of_versionedPathTree failed
    exact ⟨version.2, List.mem_flatMap.2 ⟨e, mem, List.mem_map_of_mem inside⟩, 4, failed⟩
  | unsupported kind =>
    obtain ⟨t, mem, -⟩ := h
    cases mem

theorem exists_of_catalogTree {α : Type} {title segment : String}
    {blocks : α → Except Json.WriteFault (List Block)} {c : Catalog α}
    (h : (catalogTree title segment blocks c).FailsWith fault) :
    ∃ e ∈ c, blocks e.2 = .error fault :=
  exists_of_entries (exists_untitled_iff.1 (failsWith_branch_iff.1 h))

/-- **A document without a text shows a code that has none, or a schema that cannot be written.** -/
theorem isHindered_of_documents {title : String} {d : Description} {doc : Document}
    (mem : doc ∈ documents title d) (failed : doc.text = .error fault) :
    IsHindered d.allErrors d.schemas fault := by
  rw [documents, List.mem_append, List.mem_singleton] at mem
  rcases mem with mem | rfl
  · obtain ⟨t, mem, failed⟩ :=
      exists_untitled_iff.1 (failsWith_of_mem_childDocuments failed _ mem)
    simp only [sections, List.mem_append] at mem
    rcases mem with (mem | mem) | mem
    · obtain ⟨table, given, mem⟩ := List.mem_flatMap.1 mem
      obtain ⟨r, inside, level, failed⟩ := exists_of_pathsTree ⟨t, mem, failed⟩
      refine (isHindered_of_resourceTree failed).mono (fun e error => ?_) fun s schema => ?_
      · refine List.mem_append_left _ (List.mem_flatMap.2 ⟨r, ?_, error⟩)
        exact List.mem_flatMap.2 ⟨table, given, inside⟩
      · refine List.mem_append_left _ (List.mem_append_left _ (List.mem_flatMap.2 ⟨table, given, ?_⟩))
        rw [PathTable.schemas_eq]
        exact List.mem_flatMap.2 ⟨r, inside, schema⟩
    · obtain ⟨c, given, rfl⟩ := List.mem_map.1 mem
      obtain ⟨e, inside, failed⟩ := exists_of_catalogTree failed
      refine .schema (s := e.2) (List.mem_append_left _ (List.mem_append_right _ ?_)) failed
      rw [Option.mem_toList.1 given]
      exact List.mem_map_of_mem inside
    · obtain ⟨c, given, rfl⟩ := List.mem_map.1 mem
      obtain ⟨e, inside, failed⟩ := exists_of_catalogTree failed
      have entry : e ∈ d.errors.getD [] := by
        rw [Option.mem_toList.1 given]
        exact inside
      refine (isHindered_of_errorBlocks failed).mono (fun error mem => ?_) fun s schema => ?_
      · rw [List.mem_singleton.1 mem]
        exact List.mem_append_right _ (List.mem_map_of_mem entry)
      · exact List.mem_append_right _ (List.mem_flatMap.2 ⟨e, entry, schema⟩)
  · cases failed

/-! ## Files that cannot be named -/

/-- Following names never fails because of a name. -/
theorem follow_ne_unnameable (disk : FileSystem) (start names : List String) :
    disk.follow start names ≠ .error .unnameable := by
  induction names generalizing start with
  | nil => rintro ⟨⟩
  | cons n rest ih =>
    rw [FileSystem.follow]
    split
    · exact ih _
    · split
      · rintro ⟨⟩
      · rintro ⟨⟩
      · rintro ⟨⟩
      · split
        · exact ih _
        · split
          · rintro ⟨⟩
          · exact ih _

/-- A path to a file of a directory that is there can be named. -/
theorem write_ne_unnameable {disk disk' : FileSystem} {out : Path} {dir : List String}
    (located : disk'.locate out = .ok dir) (id : String) (place : Place) (text : String) :
    disk.write (out.child ⟨[fileAt id place]⟩) text ≠ .error .unnameable := by
  have outside : ¬ (out.names.any fun n => n.toList.contains '\x00') = true := by
    rw [FileSystem.locate] at located
    split at located
    · cases located
    · assumption
  have file : (fileAt id place).toList.contains '\x00' = false :=
    Bool.eq_false_iff.2 fun mem =>
      notMem_fileAt (by decide) id place (List.contains_iff_mem.1 mem)
  have named : ¬ ((out.child ⟨[fileAt id place]⟩).names.any
      fun n => n.toList.contains '\x00') = true := by
    rw [Path.child, List.any_append, List.any_cons, List.any_nil, file, Bool.or_false,
      Bool.or_false]
    exact outside
  intro h
  rw [FileSystem.write, FileSystem.locate, if_neg named] at h
  split at h
  · rename_i fault found
    split at found
    · cases found
      cases h
    · cases h
      exact follow_ne_unnameable _ _ _ found
  · split at h <;> cases h

/-- No step fails because a file cannot be named. -/
theorem take_ne_unnameable {disk : FileSystem} {out : Path} {dir : List String}
    (located : disk.locate out = .ok dir) {id : String} {p : Progress} {s : Step} {path : Path} :
    s.take id out p ≠ .error (.file .unnameable path) := by
  intro h
  cases s with
  | claim place =>
    rw [Step.take] at h
    split at h <;> cases h
  | write doc =>
    rw [Step.take] at h
    split at h
    · cases h
    · rename_i text _
      simp only [parse_fileAt] at h
      split at h
      · cases h
      · rename_i fault failed
        cases h
        exact write_ne_unnameable located id doc.place text failed

/-! ## Runs of descriptors -/

/-- What ends a run in a directory that is there. -/
theorem failure_cases (title : String) {out : Path} {disk : FileSystem} {d : Description}
    (table : ∀ kind, d.paths ≠ some (.unsupported kind)) (there : disk.isDirectory out = true) :
    let failure := (generate title out disk d).failure
    failure = none ∨ (∃ c, failure = some (.collision c)) ∨
      (∃ fault path, failure = some (.file fault path) ∧ fault ≠ .unnameable) ∨
      ∃ fault doc, failure = some (.body fault) ∧ doc ∈ documents title d ∧
        doc.text = .error fault := by
  intro failure
  obtain ⟨dir, located⟩ := FileSystem.exists_place_of_isDirectory there
  obtain ⟨done, rest, p, failure', split, taken, told, ending⟩ := exists_run title out disk table
  have same : failure = failure' := congrArg Report.failure told
  rw [same]
  rcases ending with ⟨-, none⟩ | ⟨s, tail, g, rest, given, failed⟩
  · exact .inl none
  · rw [given]
    refine .inr ?_
    rcases take_eq_error failed with ⟨c, rfl⟩ | ⟨fault, path, rfl⟩ | ⟨doc, fault, step, ht, rfl⟩
    · exact .inl ⟨c, rfl⟩
    · refine .inr (.inl ⟨fault, path, rfl, ?_⟩)
      rintro rfl
      exact take_ne_unnameable located failed
    · refine .inr (.inr ⟨fault, doc, rfl, ?_, ht⟩)
      rw [← writes_steps, split, rest, step, writes_append, writes_cons_write]
      exact List.mem_append_right _ List.mem_cons_self

/-- **A run for an accepted descriptor fails with a reason, but for long numbers and what stands in
pairs.**  In a directory that is there it ends well, or with a collision, or with a file that cannot
be written but has a name.  Or else the code of an error has too many digits for a text; or a schema
whose body is shown has such a number, or holds a pair with something in it that cannot be written.

What becomes of half a surrogate pair is left out, so no escape may name one. -/
theorem failure_of_accepted {text : String} {d : Description}
    (_characters : ¬ Yaml.HasHalfEscape (Descriptor.unifiedLines text.toList))
    (accepted : Descriptor.ofText text = .ok d) (title : String) {out : Path} {disk : FileSystem}
    (there : disk.isDirectory out = true) :
    let failure := (generate title out disk d).failure
    failure = none ∨ (∃ c, failure = some (.collision c)) ∨
      (∃ fault path, failure = some (.file fault path) ∧ fault ≠ .unnameable) ∨
      ∃ fault, failure = some (.body fault) ∧
        ((fault = .number ∧ ∃ e ∈ d.allErrors, Text.hasIntText e.code = false) ∨
          ∃ s ∈ d.schemas, nonEmpty? s.reference? = none ∧ (s.toValue.hasText = false ∨
            ∃ a b, s.toValue.HasOuterPart (.pair a b) ∧ (¬ a.IsWritable ∨ ¬ b.IsWritable))) := by
  intro failure
  have table : ∀ kind, d.paths ≠ some (.unsupported kind) := by
    intro kind given
    obtain ⟨v, -, described⟩ := Result.bind_eq_ok accepted
    have whole := Description.isWellFormed_of_check (Descriptor.ofValue_eq_ok_iff.1 described).2
    cases whole.paths _ given
  rcases failure_cases title table there with
    none | collision | file | ⟨fault, doc, ended, mem, failed⟩
  · exact .inl none
  · exact .inr (.inl collision)
  · exact .inr (.inr (.inl file))
  · refine .inr (.inr (.inr ⟨fault, ended, ?_⟩))
    cases isHindered_of_documents mem failed with
    | @code e mem long => exact .inl ⟨rfl, e, mem, long⟩
    | @schema s _ shown failed =>
      obtain ⟨named, unwritable⟩ := unwritable_of_schemaBlocks failed
      refine .inr ⟨s, shown, named, ?_⟩
      cases numbers : s.toValue.hasText with
      | false => exact .inl rfl
      | true =>
        have tidy := Descriptor.isTidy_of_accepted accepted s shown
        exact .inr (tidy.exists_pair numbers unwritable)

/-- A descriptor with a schema in which a mapping with a date for a key stands in a pair. -/
def datedText : String := "id: api\ndefinitions:\n  A:\n    v: !!pairs [a: \x7b2024-01-01: x\x7d]\n"

/-- An empty directory. -/
def emptyOutput : FileSystem := ⟨[(["out"], .directory)]⟩

theorem failure_dated : (Descriptor.ofText datedText).toOption.map
    (fun d => (generate "Dates" ⟨["out"]⟩ emptyOutput d).failure) =
      some (some (.body .key)) := by
  decide +kernel

/-- A run that is ended by such a schema. -/
theorem failure_of_dated : ¬ Yaml.HasHalfEscape (Descriptor.unifiedLines datedText.toList) ∧
    ∃ d, Descriptor.ofText datedText = .ok d ∧ emptyOutput.isDirectory ⟨["out"]⟩ = true ∧
      ∃ s ∈ d.schemas, s.toValue.hasText = false ∨
        ∃ a b, s.toValue.HasOuterPart (.pair a b) ∧ (¬ a.IsWritable ∨ ¬ b.IsWritable) := by
  have characters : ¬ Yaml.HasHalfEscape (Descriptor.unifiedLines datedText.toList) :=
    Yaml.not_hasHalfEscape (by decide)
  have there : emptyOutput.isDirectory ⟨["out"]⟩ = true := by decide
  have ended := failure_dated
  cases read : Descriptor.ofText datedText with
  | error fault =>
    rw [read] at ended
    cases ended
  | ok d =>
    rw [read] at ended
    have ended : (generate "Dates" ⟨["out"]⟩ emptyOutput d).failure = some (.body .key) :=
      Option.some.inj ended
    have ways := failure_of_accepted characters read "Dates" there
    rw [ended] at ways
    rcases ways with ⟨⟨⟩⟩ | ⟨c, ⟨⟩⟩ | ⟨fault, path, ⟨⟩, -⟩ |
      ⟨fault, ⟨⟩, ⟨⟨⟩, -⟩ | ⟨s, shown, -, hindrance⟩⟩
    exact ⟨characters, d, rfl, there, s, shown, hindrance⟩

/-- What is accepted may still end a run with a failure that nobody is told about. -/
theorem accepted_without_report :
    ¬ ∀ (text : String) (d : Description) (title : String) (out : Path) (disk : FileSystem),
      Descriptor.ofText text = .ok d → disk.isDirectory out = true →
        ∀ failure, (generate title out disk d).failure = some failure →
          failure.isReported = true := by
  intro always
  have ended := failure_dated
  cases read : Descriptor.ofText datedText with
  | error fault =>
    rw [read] at ended
    cases ended
  | ok d =>
    rw [read] at ended
    cases always datedText d "Dates" ⟨["out"]⟩ emptyOutput read (by decide) _
      (Option.some.inj ended)

end Manual
end ApiManual
