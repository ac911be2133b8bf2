import ApiManual.Proofs.FileSystem
import ApiManual.Proofs.Manual.Nesting
import ApiManual.Proofs.Manual.Writing
import Mathlib.Data.List.Nodup

/-!
# What a run leaves behind

A run takes the steps of its description up to the first one that fails.  The registry
then holds what was claimed, with no namespace twice; the report names the files of
what was written; and as no two documents have one file, each file still holds the text
that was written into it (`Runs.read`).

All of this is said of the steps that were taken, however many these are.  They are a
relation between what a run finds and what it leaves (`Runs`), with one rule for each
kind of step, so that every property of runs is an induction over the rules.
`exists_run` is the way from a report to these steps.
-/

namespace ApiManual
namespace Manual

/-! ## Names of files -/

/-- A name with an extension is no name that stands for a directory. -/
theorem fileAt_ne {name : String} (h : name.toList.getLast? ≠ some 'c') (id : String)
    (place : Place) : fileAt id place ≠ name := by
  rintro rfl
  refine h ?_
  rw [fileAt, fileOf, String.toList_append, List.getLast?_append]
  rfl

theorem isPlain_fileAt (id : String) (place : Place) : Path.IsPlain (fileAt id place) :=
  ⟨fileAt_ne (by decide) id place, fileAt_ne (by decide) id place⟩

/-- The name of a file is a path of one name. -/
theorem parse_fileAt (id : String) (place : Place) :
    Path.parse (fileAt id place) = ⟨[fileAt id place]⟩ :=
  Path.parse_eq_singleton (notMem_fileAt (by decide) id place) (fileAt_ne (by decide) id place)
    (fileAt_ne (by decide) id place)

/-! ## Steps that succeed -/

variable {id : String} {out : Path} {p p' : Progress} {xs : List Step}

/-- A claim that is granted adds a holder to the registry, under a namespace that was free. -/
theorem take_claim_eq_ok {place : Place} (h : (Step.claim place).take id out p = .ok p') :
    (∀ c ∈ p.registry.claims, c.target ≠ namespaceAt id place) ∧
      p' = { p with registry := ⟨claimAt id place :: p.registry.claims⟩ } := by
  rw [Step.take] at h
  split at h
  · rename_i registry granted
    obtain ⟨free, rfl⟩ := Registry.grant_eq_ok_iff.1 granted
    cases h
    rw [Registry.holder?, List.find?_eq_none] at free
    exact ⟨fun c mem => by simpa [namespaceAt] using free c mem, rfl⟩
  · cases h

/-- A write that succeeds puts the text of its document into the file of its place. -/
theorem take_write_eq_ok {doc : Document} (h : (Step.write doc).take id out p = .ok p') :
    ∃ text disk, doc.text = .ok text ∧
      p.disk.write (out.child ⟨[fileAt id doc.place]⟩) text = .ok disk ∧
      p' = { p with written := p.written ++ [fileAt id doc.place], disk } := by
  rw [Step.take] at h
  split at h
  · cases h
  · rename_i text ht
    simp only [parse_fileAt] at h
    split at h
    · rename_i disk hw
      cases h
      exact ⟨text, disk, ht, hw, rfl⟩
    · cases h

/-! ## Runs that succeed -/

/-- Steps that all succeed, with what each of them finds and leaves. -/
inductive Runs (id : String) (out : Path) : Progress → List Step → Progress → Prop
  | nil (p : Progress) : Runs id out p [] p
  | claim {p p' : Progress} {place : Place} {rest : List Step}
      (free : ∀ c ∈ p.registry.claims, c.target ≠ namespaceAt id place)
      (behind : Runs id out { p with registry := ⟨claimAt id place :: p.registry.claims⟩ }
        rest p') :
      Runs id out p (.claim place :: rest) p'
  | write {p p' : Progress} {doc : Document} {text : String} {disk : FileSystem}
      {rest : List Step} (ht : doc.text = .ok text)
      (hw : p.disk.write (out.child ⟨[fileAt id doc.place]⟩) text = .ok disk)
      (behind : Runs id out { p with written := p.written ++ [fileAt id doc.place], disk }
        rest p') :
      Runs id out p (.write doc :: rest) p'

/-- **Steps that are all taken are such a run.** -/
theorem runs_of_takeAll (h : takeAll id out p xs = (none, p')) : Runs id out p xs p' := by
  induction xs generalizing p with
  | nil =>
    cases h
    exact .nil _
  | cons s rest ih =>
    rw [takeAll] at h
    cases hs : s.take id out p with
    | error failure =>
      rw [hs] at h
      cases h
    | ok q =>
      rw [hs] at h
      have behind : Runs id out q rest p' := ih h
      cases s with
      | claim place =>
        obtain ⟨free, rfl⟩ := take_claim_eq_ok hs
        exact .claim free behind
      | write doc =>
        obtain ⟨text, disk, ht, hw, rfl⟩ := take_write_eq_ok hs
        exact .write ht hw behind

namespace Runs

/-- The registry holds what was claimed, the latest first. -/
theorem registry_eq (h : Runs id out p xs p') :
    p'.registry.claims = ((claims xs).map (claimAt id)).reverse ++ p.registry.claims := by
  induction h with
  | nil => rfl
  | claim _ _ ih =>
    rw [ih]
    simp
  | write _ _ _ ih => rw [ih, claims_cons_write]

/-- **No namespace is handed out twice.** -/
theorem nodup_targets (h : Runs id out p xs p')
    (distinct : (p.registry.claims.map Claim.target).Nodup) :
    (p'.registry.claims.map Claim.target).Nodup := by
  induction h with
  | nil => exact distinct
  | claim free _ ih =>
    refine ih ?_
    rw [List.map_cons, List.nodup_cons]
    refine ⟨fun mem => ?_, distinct⟩
    obtain ⟨c, hc, same⟩ := List.mem_map.1 mem
    exact free c hc same
  | write _ _ _ ih => exact ih distinct

/-- The namespaces that a run from the beginning claims are different. -/
theorem nodup_claims {disk : FileSystem} (h : Runs id out ⟨Registry.empty, [], disk⟩ xs p') :
    ((claims xs).map (namespaceAt id)).Nodup := by
  have distinct := h.nodup_targets List.nodup_nil
  rw [h.registry_eq, Registry.empty, List.append_nil, List.map_reverse, List.nodup_reverse,
    List.map_map] at distinct
  exact distinct

/-- The report names the files of what was written, in order. -/
theorem written_eq (h : Runs id out p xs p') :
    p'.written = p.written ++ (writes xs).map fun doc => fileAt id doc.place := by
  induction h with
  | nil => simp
  | claim _ _ ih => rw [ih, writes_cons_claim]
  | write _ _ _ ih =>
    rw [ih, writes_cons_write, List.map_cons, List.append_assoc]
    rfl

/-- What was written has a text. -/
theorem texts (h : Runs id out p xs p') : ∀ doc ∈ writes xs, ∃ text, doc.text = .ok text := by
  induction h with
  | nil => exact List.forall_mem_nil _
  | claim _ _ ih => exact ih
  | write ht _ _ ih =>
    rw [writes_cons_write, List.forall_mem_cons]
    exact ⟨⟨_, ht⟩, ih⟩

/-- A file of the directory that is not written keeps its text. -/
theorem read_of_notMem (h : Runs id out p xs p') {file text : String}
    (plain : Path.IsPlain file) (other : file ∉ (writes xs).map fun doc => fileAt id doc.place)
    (before : p.disk.read (out.child ⟨[file]⟩) = .ok text) :
    p'.disk.read (out.child ⟨[file]⟩) = .ok text := by
  induction h with
  | nil => exact before
  | claim _ _ ih => exact ih other before
  | @write _ _ doc _ _ _ _ hw _ ih =>
    rw [writes_cons_write, List.map_cons, List.mem_cons, not_or] at other
    exact ih other.2
      (FileSystem.read_write_sibling (isPlain_fileAt id doc.place) plain other.1 hw before)

/-- **Every file holds the text that was written into it**, as long as no two documents have
one file. -/
theorem read (h : Runs id out p xs p')
    (distinct : ((writes xs).map fun doc => fileAt id doc.place).Nodup) {doc : Document}
    (mem : doc ∈ writes xs) {text : String} (ht : doc.text = .ok text) :
    p'.disk.read (out.child ⟨[fileAt id doc.place]⟩) = .ok text := by
  induction h with
  | nil => cases mem
  | claim _ _ ih => exact ih distinct mem
  | @write _ _ first written _ _ hfirst hw behind ih =>
    rw [writes_cons_write, List.map_cons, List.nodup_cons] at distinct
    rcases List.mem_cons.1 mem with rfl | mem
    · obtain rfl : written = text := by
        rw [hfirst] at ht
        cases ht
        rfl
      exact behind.read_of_notMem (isPlain_fileAt id doc.place) distinct.1
        (FileSystem.read_write hw)
    · exact ih distinct.2 mem

end Runs

/-! ## Runs of a description -/

variable {title : String} {disk : FileSystem} {d : Description} {done rest : List Step}

/-- **The steps behind a report.**  They are the first steps of the description, and a step
that fails follows unless there are no more. -/
theorem exists_run (title : String) (out : Path) (disk : FileSystem)
    (table : ∀ kind, d.paths ≠ some (.unsupported kind)) :
    ∃ done rest p failure, steps title d = done ++ rest ∧
      Runs d.id out ⟨Registry.empty, [], disk⟩ done p ∧
      generate title out disk d = ⟨p.written, p.disk, failure⟩ ∧
      ((rest = [] ∧ failure = none) ∨
        ∃ s tail g, rest = s :: tail ∧ failure = some g ∧ s.take d.id out p = .error g) := by
  have report := generate_eq title out disk table
  cases run : takeAll d.id out ⟨Registry.empty, [], disk⟩ (steps title d) with
  | mk failure p =>
    obtain ⟨done, rest, split, taken, ending⟩ := takeAll_spec (steps title d) run
    rw [run] at report
    exact ⟨done, rest, p, failure, split, runs_of_takeAll taken, report, ending⟩

/-- Whatever stands in the place of the paths, the steps that were taken are the first ones. -/
theorem exists_runs (title : String) (out : Path) (disk : FileSystem) (d : Description) :
    ∃ done rest p, steps title d = done ++ rest ∧
      Runs d.id out ⟨Registry.empty, [], disk⟩ done p ∧
      (generate title out disk d).written = p.written ∧
      (generate title out disk d).disk = p.disk := by
  by_cases table : ∃ kind, d.paths = some (.unsupported kind)
  · obtain ⟨kind, hk⟩ := table
    refine ⟨[], steps title d, _, rfl, .nil _, ?_, ?_⟩ <;>
      rw [generate, hk]
  · obtain ⟨done, rest, p, failure, split, taken, told, -⟩ :=
      exists_run title out disk fun kind hk => table ⟨kind, hk⟩
    refine ⟨done, rest, p, split, taken, ?_, ?_⟩ <;>
      rw [told]

/-- The steps behind a run that ends well are all of them. -/
theorem runs_of_success (success : (generate title out disk d).failure = none) :
    ∃ p, Runs d.id out ⟨Registry.empty, [], disk⟩ (steps title d) p ∧
      generate title out disk d = ⟨p.written, p.disk, none⟩ := by
  have supported : ∀ kind, d.paths ≠ some (.unsupported kind) := by
    intro kind hk
    rw [generate, hk] at success
    cases success
  obtain ⟨done, rest, p, failure, split, taken, told, ending⟩ := exists_run title out disk supported
  rw [told] at success
  rcases ending with ⟨rfl, rfl⟩ | ⟨s, tail, g, -, rfl, -⟩
  · rw [List.append_nil] at split
    rw [← split] at taken
    exact ⟨p, taken, told⟩
  · cases success

/-- What a run has written are the first documents of its description. -/
theorem writes_eq_take (h : steps title d = done ++ rest) :
    writes done = (documents title d).take (writes done).length := by
  rw [← writes_steps, h, writes_append, List.take_left]

/-- **Different documents are written into different files**, as far as a run has come. -/
theorem nodup_files (split : steps title d = done ++ rest)
    (h : Runs d.id out ⟨Registry.empty, [], disk⟩ done p) :
    ((writes done).map fun doc => fileAt d.id doc.place).Nodup := by
  obtain ⟨places, perm, sublist⟩ := subperm_claims split h.texts
  have claimed := (sublist.map (namespaceAt d.id)).nodup h.nodup_claims
  have distinct := ((perm.map (namespaceAt d.id)).nodup_iff.1 claimed).map fileOf_injective
  rwa [List.map_map, List.map_map] at distinct

end Manual
end ApiManual
