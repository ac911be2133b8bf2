import ApiManual.Proofs.Manual.Run

/-!
# What a run leaves alone

A run has one directory to write into, and the names of the files come from texts that
nobody has looked at: ids like `../../x`, absolute paths, characters that no file name
may hold.  Here it is shown that none of this gets out.  Whatever a text holds, the name
of its file is one name of allowed characters with the extension behind it
(`isFileName_fileAt`), so the path to it leads right into the directory.

From this comes the frame of a run.  However it ends, every place of the file system
holds what it held before, but for the places of the files that the report names
(`changes_only_written_files`).  The invariant along the run is that the directory is
still where it was: only files are put, and these are in nobody's way.
-/

namespace ApiManual
namespace Manual

/-! ## Names of files -/

/-- A name as the files of manuals have it: allowed characters, at least one of them, and then
the extension. -/
def IsFileName (file : String) : Prop :=
  ∃ stem : List Char, stem ≠ [] ∧ (∀ c ∈ stem, Namespace.isAllowed c = true) ∧
    file.toList = stem ++ ".adoc".toList

/-- Namespaces are not empty. -/
theorem toList_namespaceAt_ne_nil (id : String) (place : Place) :
    (namespaceAt id place).toList ≠ [] := by
  cases place with
  | nil =>
    rw [namespaceAt_nil, Namespace.toList_child_none]
    exact Namespace.normalizePart_ne_nil _
  | cons s up =>
    rw [namespaceAt_cons, Namespace.toList_child_some]
    exact fun none => List.cons_ne_nil _ _ (List.append_eq_nil_iff.1 none).2

/-- **Files have such names**, whatever the id and the segments on the way hold. -/
theorem isFileName_fileAt (id : String) (place : Place) : IsFileName (fileAt id place) :=
  ⟨(namespaceAt id place).toList, toList_namespaceAt_ne_nil id place,
    fun _ mem => isAllowed_of_mem_namespaceAt mem, String.toList_append⟩

/-! ## Places that are not written -/

variable {id : String} {out : Path} {p p' : Progress} {xs : List Step} {dir : List String}

/-- A write into a directory puts its file right there. -/
theorem disk_of_write {fs fs' : FileSystem} {file text : String} (plain : Path.IsPlain file)
    (there : fs.follow [] out.names = .ok dir)
    (h : fs.write (out.child ⟨[file]⟩) text = .ok fs') :
    fs.at? (dir ++ [file]) ≠ some .directory ∧ fs' = fs.withFile (dir ++ [file]) text := by
  obtain ⟨place, located, free, rfl⟩ := FileSystem.write_eq_ok h
  obtain ⟨start, started, rfl⟩ := FileSystem.locate_child plain located
  obtain rfl : dir = start := by
    rw [there] at started
    cases started
    rfl
  exact ⟨free, rfl⟩

namespace Runs

/-- Paths lead where they led before the run. -/
theorem locate (h : Runs id out p xs p') {path : Path} {goal : List String}
    (reached : p.disk.locate path = .ok goal) : p'.disk.locate path = .ok goal := by
  induction h with
  | nil => exact reached
  | claim _ _ ih => exact ih reached
  | write _ hw _ ih =>
    obtain ⟨place, -, free, rfl⟩ := FileSystem.write_eq_ok hw
    exact ih (FileSystem.locate_withFile _ free reached)

/-- **A place at which no file is written holds what it held before.** -/
theorem at?_of_ne (h : Runs id out p xs p') (there : p.disk.locate out = .ok dir)
    {place : List String} (other : ∀ doc ∈ writes xs, place ≠ dir ++ [fileAt id doc.place]) :
    p'.disk.at? place = p.disk.at? place := by
  induction h with
  | nil => rfl
  | claim _ _ ih => exact ih there other
  | @write _ _ doc text _ _ _ hw _ ih =>
    rw [writes_cons_write, List.forall_mem_cons] at other
    obtain ⟨free, rfl⟩ :=
      disk_of_write (isPlain_fileAt id doc.place) (FileSystem.follow_of_locate there) hw
    rw [ih (FileSystem.locate_withFile _ free there) other.2]
    exact FileSystem.at?_withFile_of_ne _ _ other.1

/-- A file that is written holds the text of its document, as long as no two documents have one
file. -/
theorem at?_file (h : Runs id out p xs p') (there : p.disk.locate out = .ok dir)
    (distinct : ((writes xs).map fun doc => fileAt id doc.place).Nodup) {doc : Document}
    (mem : doc ∈ writes xs) {text : String} (ht : doc.text = .ok text) :
    p'.disk.at? (dir ++ [fileAt id doc.place]) = some (.file text) := by
  obtain ⟨place, located, found⟩ := FileSystem.read_eq_ok (h.read distinct mem ht)
  obtain ⟨start, started, rfl⟩ := FileSystem.locate_child (isPlain_fileAt id doc.place) located
  obtain rfl : start = dir := by
    rw [FileSystem.follow_of_locate (h.locate there)] at started
    cases started
    rfl
  exact found

end Runs

/-! ## Runs of a description -/

/-- **A run changes the files that it has written, and nothing else.**  The directory stays where
it is.  However the run ends, every place but those of the files that the report names holds
what it held before; each of these files holds the text of its document; and its name is one
name of allowed characters, in the directory itself. -/
theorem changes_only_written_files (title : String) (out : Path) (disk : FileSystem)
    (d : Description) (there : disk.isDirectory out = true) :
    let report := generate title out disk d
    ∃ dir, disk.locate out = .ok dir ∧ report.disk.locate out = .ok dir ∧
      (∀ place, (∀ file ∈ report.written, place ≠ dir ++ [file]) →
        report.disk.at? place = disk.at? place) ∧
      (∃ n, report.written =
          ((documents title d).take n).map (fun doc => fileAt d.id doc.place) ∧
        ∀ doc ∈ (documents title d).take n, ∃ text, doc.text = .ok text ∧
          report.disk.at? (dir ++ [fileAt d.id doc.place]) = some (.file text)) ∧
      ∀ file ∈ report.written, IsFileName file ∧ Path.parse file = ⟨[file]⟩ := by
  intro report
  obtain ⟨dir, located⟩ := FileSystem.exists_place_of_isDirectory there
  obtain ⟨done, rest, p, split, taken, written, found⟩ := exists_runs title out disk d
  rw [taken.written_eq, List.nil_append] at written
  have first : writes done = (documents title d).take (writes done).length := writes_eq_take split
  have distinct := nodup_files split taken
  refine ⟨dir, located, ?_, ?_, ⟨(writes done).length, ?_, ?_⟩, ?_⟩
  · rw [found]
    exact taken.locate located
  · intro place other
    rw [found]
    refine taken.at?_of_ne located fun doc mem => other _ ?_
    rw [written]
    exact List.mem_map_of_mem mem
  · rw [← first]
    exact written
  · rw [← first]
    intro doc mem
    obtain ⟨text, ht⟩ := taken.texts doc mem
    refine ⟨text, ht, ?_⟩
    rw [found]
    exact taken.at?_file located distinct mem ht
  · intro file mem
    rw [written] at mem
    obtain ⟨doc, -, rfl⟩ := List.mem_map.1 mem
    exact ⟨isFileName_fileAt d.id doc.place, parse_fileAt d.id doc.place⟩

/-- An interface whose names look like paths that lead out of the directory. -/
def stray : Description where
  id := "../../x"
  description := none
  paths := some (.flat [("/etc/passwd\x00",
    { title := none, description := none, resourceSchema := none, create := none, read := none,
      update := none, delete := none, patch := none, actions := [], queries := [] })])
  definitions := some [("..", ⟨[]⟩)]
  errors := none

/-- Such names stay in the directory, also in a run that a directory in the place of the root file
ends. -/
theorem changes_of_stray :
    let disk : FileSystem := ⟨[(["out"], .directory), (["out", "notes.txt"], .file "Keep me."),
      (["out", ".._.._x-index.adoc"], .directory)]⟩
    let report := generate "Stray" ⟨["out"]⟩ disk stray
    disk.isDirectory ⟨["out"]⟩ = true ∧
      report.failure = some (.file .isDirectory ⟨["out", ".._.._x-index.adoc"]⟩) ∧
      report.written = [".._.._x-paths-etc_passwd-resource.adoc", ".._.._x-paths-etc_passwd.adoc",
        ".._.._x-paths.adoc", ".._.._x-definitions-...adoc", ".._.._x-definitions.adoc"] ∧
      ∃ dir, disk.locate ⟨["out"]⟩ = .ok dir ∧
        ∀ place, (∀ file ∈ report.written, place ≠ dir ++ [file]) →
          report.disk.at? place = disk.at? place := by
  intro disk report
  have there : disk.isDirectory ⟨["out"]⟩ = true := by decide
  have stopped : report.failure = some (.file .isDirectory ⟨["out", ".._.._x-index.adoc"]⟩) ∧
      report.written = [".._.._x-paths-etc_passwd-resource.adoc", ".._.._x-paths-etc_passwd.adoc",
        ".._.._x-paths.adoc", ".._.._x-definitions-...adoc", ".._.._x-definitions.adoc"] := by
    decide +kernel
  obtain ⟨dir, located, -, elsewhere, -⟩ :=
    changes_only_written_files "Stray" ⟨["out"]⟩ disk stray there
  exact ⟨there, stopped.1, stopped.2, dir, located, elsewhere⟩

end Manual
end ApiManual
