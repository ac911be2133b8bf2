import ApiManual.FileSystem

/-!
# Reading back what was written

A file that is put in a place changes what stands there and nothing else, and the way
to no place leads through it, as only directories are walked through.  So every path
that led somewhere leads there still (`follow_put`).  What was just written is read
back (`read_write`), and what stood in another file of the same directory is what it
was (`read_write_sibling`).

Names that lead down from a directory are *plain*: neither the name of the root nor
the one that goes up.
-/

namespace ApiManual

/-! ## Paths to files -/

namespace Path

/-- A name that leads down. -/
def IsPlain (name : String) : Prop := name ≠ rootName ∧ name ≠ ".."

theorem splitSlashes_eq_singleton {cs : List Char} (h : '/' ∉ cs) : splitSlashes cs = [cs] := by
  induction cs with
  | nil => rfl
  | cons c rest ih =>
    rw [List.mem_cons, not_or] at h
    have hc : c ≠ '/' := fun e => h.1 e.symm
    rw [splitSlashes, ih h.2]
    · exact hc

/-- A text without slashes spells a path of one name. -/
theorem parse_eq_singleton {s : String} (slash : '/' ∉ s.toList) (hne : s ≠ "") (dot : s ≠ ".") :
    parse s = ⟨[s]⟩ := by
  have notEmpty : s.toList ≠ [] := fun e => hne (String.toList_inj.1 (by rw [e]; rfl))
  have notDot : s.toList ≠ ['.'] := fun e => dot (String.toList_inj.1 (by rw [e]; rfl))
  have first : s.toList.head? ≠ some '/' := fun e => slash (List.mem_of_head? e)
  rw [parse, splitSlashes_eq_singleton slash, if_neg first]
  simp [notEmpty, notDot]

end Path

namespace FileSystem

/-! ## Where a path leads -/

/-- The names behind others are followed from where those lead. -/
theorem follow_append (fs : FileSystem) (start xs ys : List String) :
    fs.follow start (xs ++ ys) = (fs.follow start xs).bind fun place => fs.follow place ys := by
  induction xs generalizing start with
  | nil => rfl
  | cons n rest ih =>
    rw [List.cons_append, follow, follow]
    by_cases root : n = Path.rootName
    · rw [if_pos root, if_pos root, ih]
    · rw [if_neg root, if_neg root]
      cases fs.at? start with
      | none => rfl
      | some e =>
        cases e with
        | file t => rfl
        | bytes bs => rfl
        | directory =>
          simp only
          by_cases up : n = ".."
          · rw [if_pos up, if_pos up, ih]
          · rw [if_neg up, if_neg up]
            split
            · rfl
            · exact ih _

/-- A plain name leads down, if it leads anywhere. -/
theorem follow_singleton {fs : FileSystem} {start goal : List String} {name : String}
    (plain : Path.IsPlain name) (h : fs.follow start [name] = .ok goal) :
    goal = start ++ [name] := by
  rw [follow, if_neg plain.1] at h
  split at h
  · cases h
  · cases h
  · cases h
  · rw [if_neg plain.2] at h
    split at h
    · cases h
    · simpa [follow] using h.symm

/-! ## Putting an entry -/

theorem at?_put_self {fs : FileSystem} {place : List String} (e : FileEntry)
    (h : fs.at? place ≠ some .directory) :
    (FileSystem.mk (put place e fs.entries)).at? place = some e := by
  have taken : ¬ isGiven place = true := fun given => h (by rw [at?, if_pos given])
  rw [at?, if_neg taken]
  exact lookup_put_self place _ fs.entries

theorem at?_put_of_ne {place other : List String} (fs : FileSystem) (e : FileEntry)
    (h : other ≠ place) : (FileSystem.mk (put place e fs.entries)).at? other = fs.at? other := by
  rw [at?, at?]
  split
  · rfl
  · exact lookup_put_of_ne h _ fs.entries

/-- **A new entry is in nobody's way.**  What led somewhere leads there still. -/
theorem follow_put {fs : FileSystem} {place : List String} (e : FileEntry)
    (h : fs.at? place ≠ some .directory) (names : List String) {start goal : List String}
    (reached : fs.follow start names = .ok goal) :
    (FileSystem.mk (put place e fs.entries)).follow start names = .ok goal := by
  induction names generalizing start with
  | nil => exact reached
  | cons n rest ih =>
    rw [follow] at reached ⊢
    by_cases root : n = Path.rootName
    · rw [if_pos root] at reached ⊢
      exact ih reached
    · rw [if_neg root] at reached ⊢
      -- only directories are walked through, and the entry is not put in one's place
      by_cases here : start = place
      · subst here
        split at reached
        · cases reached
        · cases reached
        · cases reached
        · rename_i directory
          exact absurd directory h
      · rw [at?_put_of_ne fs e here]
        split at reached
        · cases reached
        · cases reached
        · cases reached
        · split at reached
          · rename_i up
            rw [if_pos up]
            exact ih reached
          · rename_i up
            rw [if_neg up]
            split at reached
            · cases reached
            · rename_i short
              rw [if_neg short]
              exact ih reached

theorem locate_put {fs : FileSystem} {place : List String} (e : FileEntry)
    (h : fs.at? place ≠ some .directory) {p : Path} {goal : List String}
    (reached : fs.locate p = .ok goal) :
    (FileSystem.mk (put place e fs.entries)).locate p = .ok goal := by
  unfold locate at reached ⊢
  split at reached
  · cases reached
  · rename_i named
    rw [if_neg named]
    split at reached
    · cases reached
    · rename_i short
      rw [if_neg short]
      exact follow_put e h p.names reached

/-- What stands at a place can be put there again. -/
theorem put_of_lookup {place : List String} {e : FileEntry}
    {entries : List (List String × FileEntry)} (h : entries.lookup place = some e) :
    put place e entries = entries := by
  induction entries with
  | nil => cases h
  | cons x rest ih =>
    obtain ⟨q, f⟩ := x
    rw [put]
    split
    · rename_i same
      subst same
      rw [List.lookup_cons_self] at h
      cases h
      rfl
    · rename_i other
      rw [List.lookup_cons, beq_false_of_ne (Ne.symm other)] at h
      rw [ih h]

/-- A file in a place that is no directory. -/
def withFile (fs : FileSystem) (place : List String) (text : String) : FileSystem :=
  ⟨put place (.file text) fs.entries⟩

theorem at?_withFile_self {fs : FileSystem} {place : List String} (text : String)
    (h : fs.at? place ≠ some .directory) :
    (fs.withFile place text).at? place = some (.file text) :=
  at?_put_self _ h

theorem at?_withFile_of_ne {place other : List String} (fs : FileSystem) (text : String)
    (h : other ≠ place) : (fs.withFile place text).at? other = fs.at? other :=
  at?_put_of_ne fs _ h

theorem locate_withFile {fs : FileSystem} {place : List String} (text : String)
    (h : fs.at? place ≠ some .directory) {p : Path} {goal : List String}
    (reached : fs.locate p = .ok goal) : (fs.withFile place text).locate p = .ok goal :=
  locate_put _ h reached

/-! ## Writing and reading -/

/-- What a write does: the path leads to a place that is no directory, and the text stands
there afterwards. -/
theorem write_eq_ok {fs fs' : FileSystem} {p : Path} {text : String}
    (h : fs.write p text = .ok fs') :
    ∃ place, fs.locate p = .ok place ∧ fs.at? place ≠ some .directory ∧
      fs' = fs.withFile place text := by
  unfold write at h
  split at h
  · cases h
  · rename_i place located
    split at h
    · cases h
    · rename_i free
      exact ⟨place, located, free, by simpa [withFile] using h.symm⟩

/-- What a read finds. -/
theorem read_eq_ok {fs : FileSystem} {p : Path} {text : String} (h : fs.read p = .ok text) :
    ∃ place, fs.locate p = .ok place ∧ fs.at? place = some (.file text) := by
  unfold read at h
  split at h
  · cases h
  · rename_i place located
    split at h
    · rename_i t found
      exact ⟨place, located, by simpa [found] using h⟩
    · cases h
    · cases h
    · cases h

/-- A read finds the file in the place that the path leads to. -/
theorem read_of_locate {fs : FileSystem} {p : Path} {place : List String} {text : String}
    (located : fs.locate p = .ok place) (found : fs.at? place = some (.file text)) :
    fs.read p = .ok text := by
  rw [read, located]
  simp only [found]

/-- A directory is in a place. -/
theorem exists_place_of_isDirectory {fs : FileSystem} {p : Path} (h : fs.isDirectory p = true) :
    ∃ place, fs.locate p = .ok place := by
  unfold isDirectory find? at h
  cases located : fs.locate p with
  | ok place => exact ⟨place, rfl⟩
  | error fault =>
    rw [located] at h
    simp at h

/-- What is looked at as a file can be read. -/
theorem read_of_look {fs : FileSystem} {name text : String} (h : fs.look name = .ok (.file text)) :
    fs.read (Path.parse name) = .ok text := by
  unfold look at h
  split at h
  · cases h
  split at h
  · cases h
  rename_i place located
  split at h
  · cases h
  · cases h
  · rename_i entry _ found
    split at h
    · cases h
    · cases h
      exact read_of_locate located found

/-- **What was written is read back.** -/
theorem read_write {fs fs' : FileSystem} {p : Path} {text : String}
    (h : fs.write p text = .ok fs') : fs'.read p = .ok text := by
  obtain ⟨place, located, free, rfl⟩ := write_eq_ok h
  exact read_of_locate (locate_withFile text free located) (at?_withFile_self text free)

/-- **What can be read can be written again**, and nothing changes. -/
theorem write_of_read {fs : FileSystem} {p : Path} {text : String} (h : fs.read p = .ok text) :
    fs.write p text = .ok fs := by
  obtain ⟨place, located, found⟩ := read_eq_ok h
  have entry : fs.entries.lookup place = some (.file text) := by
    rw [at?] at found
    split at found
    · cases found
    · exact found
  rw [write, located]
  simp only [found]
  rw [put_of_lookup entry]

/-- A path leads where its names lead. -/
theorem follow_of_locate {fs : FileSystem} {p : Path} {place : List String}
    (h : fs.locate p = .ok place) : fs.follow [] p.names = .ok place := by
  unfold locate at h
  split at h
  · cases h
  · split at h
    · cases h
    · exact h

/-- The place of a file in a directory ends with its name. -/
theorem locate_child {fs : FileSystem} {dir : Path} {name : String} {place : List String}
    (plain : Path.IsPlain name) (h : fs.locate (dir.child ⟨[name]⟩) = .ok place) :
    ∃ start, fs.follow [] dir.names = .ok start ∧ place = start ++ [name] := by
  have followed : fs.follow [] (dir.names ++ [name]) = .ok place := follow_of_locate h
  rw [follow_append] at followed
  cases hs : fs.follow [] dir.names with
  | error f =>
    rw [hs] at followed
    cases followed
  | ok start =>
    rw [hs] at followed
    exact ⟨start, rfl, follow_singleton plain followed⟩

/-- **What stands in another file of the directory stays.** -/
theorem read_write_sibling {fs fs' : FileSystem} {dir : Path} {name other : String}
    {text found : String} (plain : Path.IsPlain name) (plain' : Path.IsPlain other)
    (different : other ≠ name)
    (h : fs.write (dir.child ⟨[name]⟩) text = .ok fs')
    (before : fs.read (dir.child ⟨[other]⟩) = .ok found) :
    fs'.read (dir.child ⟨[other]⟩) = .ok found := by
  obtain ⟨place, located, free, rfl⟩ := write_eq_ok h
  obtain ⟨place', located', there⟩ := read_eq_ok before
  obtain ⟨start, started, rfl⟩ := locate_child plain located
  obtain ⟨start', started', rfl⟩ := locate_child plain' located'
  obtain rfl : start = start' := by
    rw [started] at started'
    cases started'
    rfl
  have apart : start ++ [other] ≠ start ++ [name] := by simpa using different
  refine read_of_locate (locate_withFile text free located') ?_
  rw [at?_withFile_of_ne fs text apart, there]

/-! ## Making directories -/

theorem isDirectory_of_locate {fs : FileSystem} {p : Path} {place : List String}
    (located : fs.locate p = .ok place) (found : fs.at? place = some .directory) :
    fs.isDirectory p = true := by
  rw [isDirectory, find?, located]
  exact decide_eq_true found

/-- A directory stands at the end of a path that leads to one. -/
theorem exists_directory {fs : FileSystem} {p : Path} (h : fs.isDirectory p = true) :
    ∃ place, fs.locate p = .ok place ∧ fs.at? place = some .directory := by
  obtain ⟨place, located⟩ := exists_place_of_isDirectory h
  rw [isDirectory, find?, located] at h
  exact ⟨place, located, of_decide_eq_true h⟩

theorem isDirectory_nil (fs : FileSystem) : fs.isDirectory ⟨[]⟩ = true := by
  have located : fs.locate ⟨[]⟩ = .ok [] := by
    rw [locate, if_neg (by decide), if_neg (by decide)]
    rfl
  exact isDirectory_of_locate located fs.at?_nil

/-- What was made is there. -/
theorem isDirectory_of_makeDirectory {fs fs' : FileSystem} {p : Path}
    (h : fs.makeDirectory p = .ok fs') : fs'.isDirectory p = true := by
  rw [makeDirectory] at h
  split at h
  · cases h
  rename_i place located
  split at h
  · cases h
  rename_i nothing
  cases h
  have free : fs.at? place ≠ some .directory := by simp [nothing]
  exact isDirectory_of_locate (locate_put _ free located) (at?_put_self _ free)

theorem isDirectory_of_orThere {fs fs' : FileSystem} {p : Path} {f : FileFault}
    (h : fs.orThere p f = (fs', none)) : fs'.isDirectory p = true := by
  rw [orThere] at h
  split at h
  · rename_i there
    cases h
    exact there.2
  · cases h

/-- Whoever has made a directory and those above it has it. -/
theorem isDirectory_of_makeDirectoriesUp {fs fs' : FileSystem} {up : List String}
    (h : fs.makeDirectoriesUp up = (fs', none)) : fs'.isDirectory ⟨up.reverse⟩ = true := by
  cases up with
  | nil => exact isDirectory_nil fs'
  | cons n up =>
    rw [makeDirectoriesUp] at h
    split at h
    · rename_i made
      cases h
      exact isDirectory_of_makeDirectory made
    · split at h
      · cases h
      · split at h
        · rename_i made
          cases h
          exact isDirectory_of_makeDirectory made
        · exact isDirectory_of_orThere h
    · exact isDirectory_of_orThere h

theorem isDirectory_of_makeDirectories {fs fs' : FileSystem} {p : Path}
    (h : fs.makeDirectories p = (fs', none)) : fs'.isDirectory p = true := by
  have there := isDirectory_of_makeDirectoriesUp h
  rwa [List.reverse_reverse] at there

/-- **A directory that is there is not made again.** -/
theorem makeDirectories_of_isDirectory {fs : FileSystem} {p : Path}
    (there : fs.isDirectory p = true) : fs.makeDirectories p = (fs, none) := by
  rw [makeDirectories]
  cases reversed : p.names.reverse with
  | nil => rfl
  | cons n up =>
    have whole : (⟨(n :: up).reverse⟩ : Path) = p := by rw [← reversed, List.reverse_reverse]
    have taken : fs.makeDirectory p = .error .alreadyThere := by
      obtain ⟨place, located, found⟩ := exists_directory there
      rw [makeDirectory, located]
      simp only [found]
    rw [makeDirectoriesUp, whole, taken]
    dsimp only
    rw [orThere, if_pos ⟨by decide, there⟩]

end FileSystem
end ApiManual
