import ApiManual.Manual.Generator
import ApiManual.Proofs.Manual.Frame

/-!
# Writing manuals one after the other

A generator keeps the claims and the list of files of its last manual, which may have stopped
anywhere.  Nothing of this gets into the next manual: an execution comes to the same whatever
state the generator is in (`Generator.execute_eq`).

On the disk the earlier manuals leave their files, and the directory for the output is still
there, so that another generator can be made for it without a change
(`Generator.create_of_isDirectory`).  If the same manual is written again, every file is found to
hold already what is written into it.  The writing comes just as far and stops at the same thing,
and the disk stays as it is (`generate_again`).
-/

namespace ApiManual
namespace Manual

variable {id : String} {out : Path} {p p' : Progress} {xs : List Step}

/-! ## Taking the same steps again -/

/-- A run that succeeds is had by taking its steps. -/
theorem takeAll_of_runs (h : Runs id out p xs p') : takeAll id out p xs = (none, p') := by
  induction h with
  | nil p => rfl
  | @claim p _ place _ free _ ih =>
    have granted : p.registry.grant (claimAt id place) =
        .ok ⟨claimAt id place :: p.registry.claims⟩ := by
      refine Registry.grant_eq_ok_iff.2 ⟨?_, rfl⟩
      rw [Registry.holder?, List.find?_eq_none]
      intro c mem
      simpa [namespaceAt] using free c mem
    rw [takeAll, Step.take, granted]
    exact ih
  | write ht hw _ ih =>
    rw [takeAll, Step.take, ht]
    simp only [parse_fileAt, hw]
    exact ih

/-- **Steps that were taken can be taken again on the disk that they left**, which stays as it is,
as long as no two documents have one file. -/
theorem Runs.again (h : Runs id out p xs p')
    (distinct : ((writes xs).map fun doc => fileAt id doc.place).Nodup) :
    Runs id out { p with disk := p'.disk } xs p' := by
  induction h with
  | nil => exact .nil _
  | claim free _ ih => exact .claim free (ih distinct)
  | @write p p' doc text disk rest ht hw behind ih =>
    have all : Runs id out p (.write doc :: rest) p' := .write ht hw behind
    have there := all.read distinct List.mem_cons_self ht
    rw [writes_cons_write, List.map_cons, List.nodup_cons] at distinct
    exact .write ht (FileSystem.write_of_read there) (ih distinct.2)

/-- **The same manual again.**  It comes to the same, and the disk stays as it is. -/
theorem generate_again (title : String) (out : Path) (disk : FileSystem) (d : Description) :
    generate title out (generate title out disk d).disk d = generate title out disk d := by
  by_cases table : ∃ kind, d.paths = some (.unsupported kind)
  · obtain ⟨kind, hk⟩ := table
    simp only [generate, hk]
  · have supported : ∀ kind, d.paths ≠ some (.unsupported kind) := fun kind hk => table ⟨kind, hk⟩
    obtain ⟨done, rest, p, split, taken, -, left⟩ := exists_runs title out disk d
    have again := taken.again (nodup_files split taken)
    rw [left, generate_eq title out p.disk supported, generate_eq title out disk supported, split,
      takeAll_append done rest (takeAll_of_runs again),
      takeAll_append done rest (takeAll_of_runs taken)]

/-! ## The directory -/

/-- A directory that was made ready is there. -/
theorem isDirectory_of_prepare {disk disk' : FileSystem} (h : prepare disk out = (disk', none)) :
    disk'.isDirectory out = true := by
  rw [prepare] at h
  split at h
  · cases h
  · cases h
  · split at h
    · cases h
    · cases h
    · split at h
      · rename_i made
        cases h
        exact FileSystem.isDirectory_of_makeDirectories made
      · cases h

/-- A directory that is there is ready. -/
theorem prepare_of_isDirectory {disk : FileSystem} (there : disk.isDirectory out = true) :
    prepare disk out = (disk, none) := by
  obtain ⟨place, located, found⟩ := FileSystem.exists_directory there
  have found? : disk.find? out = some .directory := by
    rw [FileSystem.find?, located]
    exact found
  rw [prepare, located]
  dsimp only
  rw [found?]
  dsimp only
  rw [FileSystem.makeDirectories_of_isDirectory there]

/-- A manual leaves its directory there. -/
theorem isDirectory_generate (title : String) {disk : FileSystem} (d : Description)
    (there : disk.isDirectory out = true) :
    (generate title out disk d).disk.isDirectory out = true := by
  obtain ⟨dir, located, found⟩ := FileSystem.exists_directory there
  obtain ⟨dir', located', still, elsewhere, -⟩ :=
    changes_only_written_files title out disk d there
  obtain rfl : dir = dir' := Except.ok.inj (located.symm.trans located')
  refine FileSystem.isDirectory_of_locate still ?_
  rw [elsewhere dir fun file _ => by simp, found]

/-! ## One execution -/

/-- What an execution tells of its manual. -/
def Execution.report (e : Execution) : Report := ⟨e.generator.written, e.disk, e.failure⟩

namespace Generator

variable {g : Generator} {disk : FileSystem} {title : String}

/-- **What is left of the last manual does not matter.** -/
theorem execute_reset (g : Generator) (disk : FileSystem) (d : Description) :
    g.reset.execute disk d = g.execute disk d := rfl

/-- An execution writes the manual of its description. -/
theorem report_execute (g : Generator) (disk : FileSystem) (d : Description) :
    (g.execute disk d).report = generate g.title g.out disk d := by
  rw [execute, generate]
  dsimp only [reset]
  generalize ((writeManual g.out g.title d).run).run ⟨Registry.empty, [], disk⟩ = ended
  rcases ended with ⟨_ | _, p⟩
  all_goals rcases d.paths with _ | (_ | _ | _) <;> rfl

/-- A generator keeps its directory and its title. -/
theorem kept_execute (g : Generator) (disk : FileSystem) (d : Description) :
    (g.execute disk d).generator.out = g.out ∧ (g.execute disk d).generator.title = g.title := by
  rw [execute]
  dsimp only [reset]
  split
  · exact ⟨rfl, rfl⟩
  · split <;> exact ⟨rfl, rfl⟩

/-- A generator that has executed something executes as it did before. -/
theorem execute_execute (g : Generator) (disk disk' : FileSystem) (d d' : Description) :
    (g.execute disk d).generator.execute disk' d' = g.execute disk' d' := by
  have same : (g.execute disk d).generator.reset = g.reset := by
    obtain ⟨out, title⟩ := g.kept_execute disk d
    rw [reset, reset, out, title]
  rw [← execute_reset, same, execute_reset]

/-- **The same description again** ends in the same way. -/
theorem report_execute_again (g : Generator) (disk : FileSystem) (d : Description) :
    ((g.execute disk d).generator.execute (g.execute disk d).disk d).report =
      (g.execute disk d).report := by
  have told := g.report_execute disk d
  have left : (g.execute disk d).disk = (generate g.title g.out disk d).disk :=
    congrArg Report.disk told
  rw [execute_execute, report_execute, told, left, generate_again]

/-! ## Making a generator -/

/-- A generator that was made has its directory and its title, and nothing else. -/
theorem create_eq_ok {disk' : FileSystem} (h : create disk out title = (disk', .ok g)) :
    prepare disk out = (disk', none) ∧ g = ⟨out, title, Registry.empty, []⟩ := by
  rw [create] at h
  split at h
  · rename_i ready
    cases h
    exact ⟨ready, rfl⟩
  · cases h

/-- **Where the directory is, a generator is made without a change.** -/
theorem create_of_isDirectory (title : String) (there : disk.isDirectory out = true) :
    create disk out title = (disk, .ok ⟨out, title, Registry.empty, []⟩) := by
  rw [create, prepare_of_isDirectory there]

/-! ## Several executions -/

/-- A generator after some executions on a disk: it has its directory and its title still, and the
directory is there. -/
structure IsReady (out : Path) (title : String) (e : Execution) : Prop where
  out_eq : e.generator.out = out
  title_eq : e.generator.title = title
  there : e.disk.isDirectory out = true

/-- An execution keeps this. -/
theorem IsReady.execute {e : Execution} (h : IsReady out title e) (d : Description) :
    IsReady out title (e.generator.execute e.disk d) where
  out_eq := (kept_execute ..).1.trans h.out_eq
  title_eq := (kept_execute ..).2.trans h.title_eq
  there := by
    have disk := congrArg Report.disk (report_execute e.generator e.disk d)
    rw [h.out_eq, h.title_eq] at disk
    have kept := isDirectory_generate title d h.there
    rwa [← disk] at kept

/-- **It holds after any row of executions.** -/
theorem isReady_executeAll {start : FileSystem} (made : create disk out title = (start, .ok g))
    (ds : List Description) : IsReady out title (g.executeAll start ds) := by
  obtain ⟨ready, rfl⟩ := create_eq_ok made
  have first : IsReady out title ⟨⟨out, title, Registry.empty, []⟩, start, none⟩ :=
    ⟨rfl, rfl, isDirectory_of_prepare ready⟩
  rw [executeAll]
  generalize (⟨⟨out, title, Registry.empty, []⟩, start, none⟩ : Execution) = e at first
  induction ds generalizing e with
  | nil => exact first
  | cons d rest ih => exact ih _ (first.execute d)

/-- **Executions are independent.**  Whatever a generator has executed before, and however that
ended, its next execution ends as that of a new generator with the same directory and title,
which can be made on the same disk without a change of it; it has written the same files, and
they hold the same.  And the same description again ends in the same way, and leaves the disk
exactly as it is. -/
theorem executions_independent {start : FileSystem}
    (made : create disk out title = (start, .ok g)) (before : List Description)
    (d : Description) :
    let past := g.executeAll start before
    let last := past.generator.execute past.disk d
    let again := last.generator.execute last.disk d
    (∃ fresh, create past.disk out title = (past.disk, .ok fresh) ∧
      last.failure = (fresh.execute past.disk d).failure ∧
      last.generator.written = (fresh.execute past.disk d).generator.written ∧
      last.disk = (fresh.execute past.disk d).disk) ∧
    again.failure = last.failure ∧ again.generator.written = last.generator.written ∧
      again.disk = last.disk := by
  intro past last again
  have ready : IsReady out title past := isReady_executeAll made before
  constructor
  · have fresh : past.generator.reset = ⟨out, title, Registry.empty, []⟩ := by
      rw [reset, ready.out_eq, ready.title_eq]
    refine ⟨past.generator.reset, ?_, rfl, rfl, rfl⟩
    rw [fresh]
    exact create_of_isDirectory title ready.there
  · have repeated : again.report = last.report :=
      report_execute_again past.generator past.disk d
    exact ⟨congrArg Report.failure repeated, congrArg Report.written repeated,
      congrArg Report.disk repeated⟩

/-- A disk with a directory in the place of a root file. -/
def crowded : FileSystem := ⟨[(["out"], .directory), (["out", ".._.._x-index.adoc"], .directory)]⟩

/-- An interface of which nothing is known but its id. -/
def bare : Description := { pets with description := none, paths := none, definitions := none }

/-- Interfaces whose manuals stop at their last write and before their first one. -/
def stopped : List Description := [stray, { bare with paths := some (.unsupported .list) }]

/-- The generator of manuals about pets. -/
def petsGenerator : Generator := ⟨⟨["out"]⟩, "Pets", Registry.empty, []⟩

theorem written_after_stopped :
    let past := petsGenerator.executeAll crowded stopped
    past.failure = some (.unsupportedPaths .list) ∧
      (past.generator.execute past.disk bare).generator.written = ["pets-index.adoc"] := by
  decide +kernel

/-- After both of these a manual is what it would have been without them. -/
theorem executions_independent_of_stopped :
    let past := petsGenerator.executeAll crowded stopped
    let last := past.generator.execute past.disk bare
    create crowded ⟨["out"]⟩ "Pets" = (crowded, .ok petsGenerator) ∧
      past.failure = some (.unsupportedPaths .list) ∧
      last.generator.written = ["pets-index.adoc"] ∧
      (∃ fresh, create past.disk ⟨["out"]⟩ "Pets" = (past.disk, .ok fresh) ∧
        last.failure = (fresh.execute past.disk bare).failure ∧
        last.disk = (fresh.execute past.disk bare).disk) ∧
      (last.generator.execute last.disk bare).disk = last.disk := by
  intro past last
  have made : create crowded ⟨["out"]⟩ "Pets" = (crowded, .ok petsGenerator) := rfl
  obtain ⟨refused, written⟩ := written_after_stopped
  obtain ⟨⟨fresh, anew, failure, -, disk⟩, -, -, again⟩ :=
    executions_independent made stopped bare
  exact ⟨made, refused, written, ⟨fresh, anew, failure, disk⟩, again⟩

end Generator
end Manual
end ApiManual
