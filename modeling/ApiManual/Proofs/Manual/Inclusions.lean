import ApiManual.Proofs.Manual.Run
import ApiManual.Proofs.Manual.Shown

/-!
# What the files of a manual include

The files of a manual are tied together by their inclusion lines alone.  Here these are
read off the files themselves, after the run: `inclusionsIn` takes the text that the
disk holds under a name, whatever wrote it.

Two results are about them.  However a run ends, it has written the first documents of
the post-order of its description, each with its text, and no file that it has written
includes one that it had not written before (`inclusionsIn_subset_before`).  If it ends
well, the files are a tree: each is included once (`perm_inclusions_of_success`), by the
file of the document above it (`exists_includer_of_success`), and the last one, the
root, is included by none.
-/

namespace ApiManual
namespace Manual

open Asciidoc

/-- What the file of a name in a directory holds. -/
def textIn (disk : FileSystem) (out : Path) (file : String) : Except FileFault String :=
  disk.read (out.child (Path.parse file))

/-- The files that a file of a directory includes, by the inclusion lines of its text. -/
def inclusionsIn (disk : FileSystem) (out : Path) (file : String) : List String :=
  match disk.read (out.child (Path.parse file)) with
  | .ok text => inclusionTargets text
  | .error _ => []

variable {title : String} {out : Path} {disk : FileSystem} {d : Description}
  {done rest : List Step} {p : Progress}

/-! ## The part that was written -/

/-- What the file of a written document holds after the run. -/
theorem read_of_mem_writes (split : steps title d = done ++ rest)
    (taken : Runs d.id out ⟨Registry.empty, [], disk⟩ done p) {doc : Document}
    (mem : doc ∈ writes done) :
    ∃ text, doc.text = .ok text ∧
      p.disk.read (out.child (Path.parse (fileAt d.id doc.place))) = .ok text := by
  obtain ⟨text, ht⟩ := taken.texts doc mem
  refine ⟨text, ht, ?_⟩
  rw [parse_fileAt]
  exact taken.read (nodup_files split taken) mem ht

/-- A written document is a document of the manual. -/
theorem mem_documents_of_mem_writes (split : steps title d = done ++ rest) {doc : Document}
    (mem : doc ∈ writes done) : doc ∈ documents title d := by
  rw [← writes_steps, split, writes_append]
  exact List.mem_append_left _ mem

/-- **The file of a written document includes the files of the documents that it was made to
include.** -/
theorem inclusionsIn_of_mem_writes (plain : AllUnmarked (title :: d.shownTexts))
    (split : steps title d = done ++ rest)
    (taken : Runs d.id out ⟨Registry.empty, [], disk⟩ done p) {doc : Document}
    (mem : doc ∈ writes done) :
    inclusionsIn p.disk out (fileAt d.id doc.place) = doc.includes.map (fileAt d.id) := by
  obtain ⟨text, ht, found⟩ := read_of_mem_writes split taken mem
  have told := tellsIncludes_of_mem_documents plain (mem_documents_of_mem_writes split mem)
  rw [inclusionsIn, found]
  exact inclusionTargets_of_markedLines (told text ht)

/-- A written document stands behind what it includes, and that has been written. -/
theorem includes_written_before (split : steps title d = done ++ rest)
    {before after : List Document} {doc : Document} (h : writes done = before ++ doc :: after)
    {place : Place} (mem : place ∈ doc.includes) : place ∈ before.map Document.place := by
  refine isGrounded_documents title d before doc (after ++ writes rest) ?_ place mem
  rw [← writes_steps, split, writes_append, h, List.append_assoc, List.cons_append]

/-- A written file is that of a written document, and the files of what this was made to include
stand before it. -/
theorem exists_document_of_written (split : steps title d = done ++ rest)
    {before after : List String} {file : String}
    (h : (writes done).map (fun doc => fileAt d.id doc.place) = before ++ file :: after) :
    ∃ doc ∈ writes done, fileAt d.id doc.place = file ∧
      ∀ place ∈ doc.includes, fileAt d.id place ∈ before := by
  obtain ⟨front, back, hw, rfl, hb⟩ := List.map_eq_append_iff.1 h
  obtain ⟨doc, last, rfl, rfl, -⟩ := List.map_eq_cons_iff.1 hb
  refine ⟨doc, ?_, rfl, fun place mem => ?_⟩
  · rw [hw]
    exact List.mem_append_right _ (List.mem_cons_self ..)
  · obtain ⟨earlier, he, rfl⟩ := List.mem_map.1 (includes_written_before split hw mem)
    exact List.mem_map_of_mem he

/-- Each written file includes only files that were written before it. -/
theorem inclusionsIn_subset_before (plain : AllUnmarked (title :: d.shownTexts))
    (split : steps title d = done ++ rest)
    (taken : Runs d.id out ⟨Registry.empty, [], disk⟩ done p) {before after : List String}
    {file : String}
    (h : (writes done).map (fun doc => fileAt d.id doc.place) = before ++ file :: after) :
    ∀ target ∈ inclusionsIn p.disk out file, target ∈ before := by
  intro target mem
  obtain ⟨doc, here, rfl, earlier⟩ := exists_document_of_written split h
  rw [inclusionsIn_of_mem_writes plain split taken here] at mem
  obtain ⟨place, hp, rfl⟩ := List.mem_map.1 mem
  exact earlier place hp

/-- **No run leaves a file that includes one it did not write.**  However the run ends, the files
that it has written are those of the first documents of the post-order; each holds the text of
its document; and every inclusion line of a written file names a file that was written earlier. -/
theorem inclusions_written_before (title : String) (out : Path) (disk : FileSystem)
    (d : Description) (plain : AllUnmarked (title :: d.shownTexts)) :
    let report := generate title out disk d
    (∃ n, report.written =
        ((documents title d).take n).map (fun doc => fileAt d.id doc.place) ∧
      ∀ doc ∈ (documents title d).take n, ∃ text, doc.text = .ok text ∧
        report.disk.read (out.child (Path.parse (fileAt d.id doc.place))) = .ok text) ∧
    ∀ before file after, report.written = before ++ file :: after →
      ∀ target ∈ inclusionsIn report.disk out file, target ∈ before := by
  intro report
  obtain ⟨done, rest, p, split, taken, written, found⟩ := exists_runs title out disk d
  rw [taken.written_eq, List.nil_append] at written
  have some : writes done = (documents title d).take (writes done).length := writes_eq_take split
  refine ⟨⟨(writes done).length, ?_, ?_⟩, ?_⟩
  · rw [← some]
    exact written
  · rw [← some]
    intro doc mem
    rw [found]
    exact read_of_mem_writes split taken mem
  · intro before file after h
    rw [found]
    exact inclusionsIn_subset_before plain split taken (written.symm.trans h)

/-- A directory stands in the way of the file of all paths, and the files below it are written. -/
theorem inclusions_before_directory :
    let disk : FileSystem := ⟨[(["pets-paths.adoc"], .directory)]⟩
    let report := generate "Pets" ⟨[]⟩ disk pets
    AllUnmarked ("Pets" :: pets.shownTexts) ∧
      report.failure = some (.file .isDirectory ⟨["pets-paths.adoc"]⟩) ∧
      report.written.length = 5 ∧
      ∀ before file after, report.written = before ++ file :: after →
        ∀ target ∈ inclusionsIn report.disk ⟨[]⟩ file, target ∈ before := by
  have plain : AllUnmarked ("Pets" :: pets.shownTexts) := by decide
  have stopped : let report := generate "Pets" ⟨[]⟩ ⟨[(["pets-paths.adoc"], .directory)]⟩ pets
      report.failure = some (.file .isDirectory ⟨["pets-paths.adoc"]⟩) ∧
        report.written.length = 5 := by
    decide +kernel
  exact ⟨plain, stopped.1, stopped.2, (inclusions_written_before "Pets" ⟨[]⟩ _ pets plain).2⟩

/-! ## The whole manual -/

/-- A run that ends well has written the files of all documents. -/
theorem written_of_success (success : (generate title out disk d).failure = none) :
    (generate title out disk d).written =
      (documents title d).map fun doc => fileAt d.id doc.place := by
  obtain ⟨p, taken, told⟩ := runs_of_success success
  rw [told, ← writes_steps]
  exact taken.written_eq

/-- All files are different. -/
theorem nodup_written_of_success (success : (generate title out disk d).failure = none) :
    ((documents title d).map fun doc => fileAt d.id doc.place).Nodup := by
  obtain ⟨p, taken, -⟩ := runs_of_success success
  rw [← writes_steps]
  exact nodup_files (List.append_nil _).symm taken

/-- Documents of a manual have places of their own, if it is written to its end. -/
theorem nodup_places_of_success (success : (generate title out disk d).failure = none) :
    ((documents title d).map Document.place).Nodup := by
  refine List.Nodup.of_map (fileAt d.id) ?_
  rw [List.map_map]
  exact nodup_written_of_success success

/-- Each document is then in a file of the report. -/
theorem textIn_of_success (success : (generate title out disk d).failure = none) {doc : Document}
    (mem : doc ∈ documents title d) :
    fileAt d.id doc.place ∈ (generate title out disk d).written ∧
      ∃ text, doc.text = .ok text ∧
        textIn (generate title out disk d).disk out (fileAt d.id doc.place) = .ok text := by
  refine ⟨?_, ?_⟩
  · rw [written_of_success success]
    exact List.mem_map_of_mem mem
  · obtain ⟨p, taken, told⟩ := runs_of_success success
    rw [← writes_steps] at mem
    rw [told]
    exact read_of_mem_writes (List.append_nil _).symm taken mem

/-- The files of all documents include what these were made to include. -/
theorem inclusionsIn_of_success (plain : AllUnmarked (title :: d.shownTexts))
    (success : (generate title out disk d).failure = none) {doc : Document}
    (mem : doc ∈ documents title d) :
    inclusionsIn (generate title out disk d).disk out (fileAt d.id doc.place) =
      doc.includes.map (fileAt d.id) := by
  obtain ⟨p, taken, told⟩ := runs_of_success success
  rw [told]
  rw [← writes_steps] at mem
  exact inclusionsIn_of_mem_writes plain (List.append_nil _).symm taken mem

/-- **All inclusion lines together name all files but the last**, each of them once. -/
theorem perm_inclusions_of_success (plain : AllUnmarked (title :: d.shownTexts))
    (success : (generate title out disk d).failure = none) :
    ((generate title out disk d).written.flatMap
      (inclusionsIn (generate title out disk d).disk out)).Perm
        (generate title out disk d).written.dropLast := by
  have included : ∀ doc ∈ documents title d,
      inclusionsIn (generate title out disk d).disk out (fileAt d.id doc.place) =
        doc.includes.map (fileAt d.id) :=
    fun _ mem => inclusionsIn_of_success plain success mem
  have perm := (perm_includes_documents title d).map (fileAt d.id)
  rw [List.map_flatMap, List.map_map] at perm
  rw [written_of_success success, List.flatMap_map, List.flatMap_congr included,
    ← List.map_dropLast]
  exact perm

/-- The name of the root file says the id and the word for the root. -/
theorem fileAt_rootPlace (id : String) :
    fileAt id rootPlace = Namespace.normalize [id, "index"] ++ ".adoc" := by
  have same : namespaceAt id rootPlace = Namespace.normalize [id, "index"] := by
    rw [rootPlace, namespaceAt_cons, namespaceAt_nil]
    refine String.toList_inj.1 ?_
    rw [Namespace.toList_child_some, Namespace.toList_child_none,
      Namespace.normalizePart_normalizePart]
    simp [Namespace.normalize, rootSegment]
  rw [fileAt, fileOf, same]
  rfl

/-- The root file is the last one. -/
theorem written_eq_concat_of_success (success : (generate title out disk d).failure = none) :
    ∃ front, (generate title out disk d).written =
      front ++ [Namespace.normalize [d.id, "index"] ++ ".adoc"] := by
  rw [written_of_success success, documents, List.map_append, List.map_singleton,
    ← fileAt_rootPlace]
  exact ⟨_, rfl⟩

/-- The file above that of a document is written later, and includes it. -/
theorem exists_includer_of_success (plain : AllUnmarked (title :: d.shownTexts))
    (success : (generate title out disk d).failure = none) {before after : List Document}
    {doc : Document} (h : documents title d = before ++ doc :: after) (behind : after ≠ []) :
    ∃ between parent last, after = between ++ parent :: last ∧
      parent.place = includer doc.place ∧
      fileAt d.id doc.place ∈
        inclusionsIn (generate title out disk d).disk out (fileAt d.id parent.place) := by
  obtain ⟨between, parent, last, rfl, above, mem⟩ :=
    exists_includer h behind (nodup_places_of_success success)
  have here : parent ∈ documents title d := by
    rw [h]
    simp
  refine ⟨between, parent, last, rfl, above, ?_⟩
  rw [inclusionsIn_of_success plain success here]
  exact List.mem_map_of_mem mem

/-- **The files of a manual are a tree.**  If the run ends well, it has written the files of all
documents in post-order, no two of one name.  Each but the last stands once among the inclusion
lines of all files, and that in the file of the document right above it, which was written
later; the last is the file of the root, which no file includes. -/
theorem inclusions_of_success (title : String) (out : Path) (disk : FileSystem) (d : Description)
    (plain : AllUnmarked (title :: d.shownTexts))
    (success : (generate title out disk d).failure = none) :
    let report := generate title out disk d
    report.written = (documents title d).map (fun doc => fileAt d.id doc.place) ∧
    report.written.Nodup ∧
    (∀ file ∈ report.written.dropLast,
      (report.written.flatMap (inclusionsIn report.disk out)).count file = 1) ∧
    (∀ before doc after, documents title d = before ++ doc :: after → after ≠ [] →
      ∃ between parent last, after = between ++ parent :: last ∧
        parent.place = includer doc.place ∧
        fileAt d.id doc.place ∈ inclusionsIn report.disk out (fileAt d.id parent.place)) ∧
    report.written.getLast? = some (Namespace.normalize [d.id, "index"] ++ ".adoc") ∧
    Namespace.normalize [d.id, "index"] ++ ".adoc" ∉
      report.written.flatMap (inclusionsIn report.disk out) := by
  intro report
  have written : report.written = (documents title d).map fun doc => fileAt d.id doc.place :=
    written_of_success success
  have files : report.written.Nodup := by
    rw [written]
    exact nodup_written_of_success success
  have lines : (report.written.flatMap (inclusionsIn report.disk out)).Perm
      report.written.dropLast := perm_inclusions_of_success plain success
  obtain ⟨front, last⟩ : ∃ front, report.written =
      front ++ [Namespace.normalize [d.id, "index"] ++ ".adoc"] :=
    written_eq_concat_of_success success
  refine ⟨written, files, ?_, ?_, ?_, ?_⟩
  · intro file mem
    rw [lines.count_eq]
    exact List.count_eq_one_of_mem (files.sublist (List.dropLast_sublist _)) mem
  · intro before doc after h behind
    exact exists_includer_of_success plain success h behind
  · rw [last, List.getLast?_concat]
  · intro mem
    have earlier := lines.subset mem
    rw [last, List.dropLast_concat] at earlier
    rw [last, List.nodup_append] at files
    exact files.2.2 _ earlier _ (List.mem_singleton_self _) rfl

/-- The manual of a small interface is written to its end. -/
theorem inclusions_of_pets :
    let report := generate "Pets" ⟨[]⟩ FileSystem.empty pets
    AllUnmarked ("Pets" :: pets.shownTexts) ∧ report.failure = none ∧
      report.written.length = 9 ∧ report.written.Nodup ∧
      ∀ file ∈ report.written.dropLast,
        (report.written.flatMap (inclusionsIn report.disk ⟨[]⟩)).count file = 1 := by
  have plain : AllUnmarked ("Pets" :: pets.shownTexts) := by decide
  have success : let report := generate "Pets" ⟨[]⟩ FileSystem.empty pets
      report.failure = none ∧ report.written.length = 9 := by
    decide +kernel
  have all := inclusions_of_success "Pets" ⟨[]⟩ FileSystem.empty pets plain success.1
  exact ⟨plain, success.1, success.2, all.2.1, all.2.2.1⟩

end Manual
end ApiManual
