import ApiManual.Text.Quoted

/-!
# File systems

Files and directories as a value: what stands at each place below the working
directory, in the order in which it was put there.  Places are rows of names; a
path is a row of names on the way to a place, on which `..` goes up.

Operations fail as those of a real system do, and say why, as far as names and what
stands at them decide it.  There are no links, and nobody is kept from reading or
writing by permissions.  A write either replaces the whole file or leaves everything as
it was.
-/

namespace ApiManual

/-- A path: the names on the way, without empty ones and without single dots.  An
absolute path starts with the name `/`. -/
structure Path where
  names : List String
  deriving DecidableEq, Repr

namespace Path

/-- The name at which absolute paths start. -/
def rootName : String := "/"

/-- Splits a text at its slashes. -/
def splitSlashes : List Char → List (List Char)
  | [] => [[]]
  | '/' :: rest => [] :: splitSlashes rest
  | c :: rest => match splitSlashes rest with
    | [] => [[c]]
    | w :: ws => (c :: w) :: ws

/-- The path that a text spells. -/
def parse (s : String) : Path :=
  let words := (splitSlashes s.toList).filter fun w => !w.isEmpty && w ≠ ['.']
  ⟨(if s.toList.head? = some '/' then [rootName] else []) ++ words.map String.ofList⟩

/-- Names with slashes between them. -/
def joined (names : List String) : String := "/".intercalate names

/-- A path as text; the working directory is a dot. -/
def text (p : Path) : String :=
  match p.names with
  | [] => "."
  | n :: rest => if n = rootName then rootName ++ joined rest else joined (n :: rest)

/-- A path to a place further down. -/
def child (p : Path) (rest : Path) : Path := ⟨p.names ++ rest.names⟩

end Path

/-- Why a file operation fails. -/
inductive FileFault where
  | notFound
  | alreadyThere
  | notDirectory
  | isDirectory
  | nameTooLong
  /-- The path holds the character that ends texts, which no name can. -/
  | unnameable
  /-- The bytes of a file spell no text. -/
  | notText
  deriving DecidableEq, Repr

namespace FileFault

/-- The number and the words of a failure. -/
def words : FileFault → String
  | .notFound => "[Errno 2] No such file or directory"
  | .alreadyThere => "[Errno 17] File exists"
  | .notDirectory => "[Errno 20] Not a directory"
  | .isDirectory => "[Errno 21] Is a directory"
  | .nameTooLong => "[Errno 36] File name too long"
  | .unnameable => "embedded null byte"
  | .notText => "no text"

/-- A failure at a path as messages show it. -/
def message (f : FileFault) (p : Path) : String := f.words ++ ": " ++ Text.quoted p.text

end FileFault

/-- What stands at a place. -/
inductive FileEntry where
  | file (text : String)
  /-- A file whose bytes spell no text. -/
  | bytes (content : List UInt8)
  | directory
  deriving DecidableEq, Repr

/-- The places that are taken, and by what. -/
structure FileSystem where
  entries : List (List String × FileEntry)
  deriving DecidableEq, Repr

namespace FileSystem

/-- An empty working directory. -/
def empty : FileSystem := ⟨[]⟩

/-- The longest name of a file, in bytes. -/
def longestName : Nat := 255

/-- The longest path, in bytes. -/
def longestPath : Nat := 4095

/-- Whether a place is there from the beginning: the working directory, those above
it, and the root. -/
def isGiven (place : List String) : Bool :=
  place.all (· = "..") || place = [Path.rootName]

/-- What stands at a place. -/
def at? (fs : FileSystem) (place : List String) : Option FileEntry :=
  if isGiven place then some .directory else fs.entries.lookup place

/-- The place above. -/
def above (place : List String) : List String :=
  if place.all (· = "..") then place ++ [".."]
  else if place = [Path.rootName] then place
  else place.dropLast

/-- Follows names from a place.  All places on the way have to be directories; at
the end there may be nothing. -/
def follow (fs : FileSystem) (place : List String) : List String → Except FileFault (List String)
  | [] => .ok place
  | n :: rest =>
    if n = Path.rootName then follow fs [n] rest
    else match fs.at? place with
      | none => .error .notFound
      | some (.file _) => .error .notDirectory
      | some (.bytes _) => .error .notDirectory
      | some .directory =>
        if n = ".." then follow fs (above place) rest
        else if longestName < n.utf8ByteSize then .error .nameTooLong
        else follow fs (place ++ [n]) rest

/-- The place that a path leads to. -/
def locate (fs : FileSystem) (p : Path) : Except FileFault (List String) :=
  if p.names.any fun n => n.toList.contains '\x00' then .error .unnameable
  else if longestPath < p.text.utf8ByteSize then .error .nameTooLong
  else fs.follow [] p.names

/-- What stands at the end of a path. -/
def find? (fs : FileSystem) (p : Path) : Option FileEntry :=
  match fs.locate p with
  | .ok place => fs.at? place
  | .error _ => none

/-- Whether a path leads to a directory. -/
def isDirectory (fs : FileSystem) (p : Path) : Bool := fs.find? p = some .directory

/-- The entries with one more; what stands at the place already is replaced. -/
def put (place : List String) (e : FileEntry) :
    List (List String × FileEntry) → List (List String × FileEntry)
  | [] => [(place, e)]
  | (q, f) :: rest => if q = place then (q, e) :: rest else (q, f) :: put place e rest

/-- Writes a whole file. -/
def write (fs : FileSystem) (p : Path) (text : String) : Except FileFault FileSystem :=
  match fs.locate p with
  | .error f => .error f
  | .ok place => match fs.at? place with
    | some .directory => .error .isDirectory
    | _ => .ok ⟨put place (.file text) fs.entries⟩

/-- Reads a whole file. -/
def read (fs : FileSystem) (p : Path) : Except FileFault String :=
  match fs.locate p with
  | .error f => .error f
  | .ok place => match fs.at? place with
    | some (.file text) => .ok text
    | some (.bytes _) => .error .notText
    | some .directory => .error .isDirectory
    | none => .error .notFound

/-- Whether a text goes on behind its last name, which then has to lead to a
directory. -/
def wantsDirectory (s : String) : Bool :=
  match (Path.splitSlashes s.toList).getLast? with
  | some w => w.isEmpty || w = ['.']
  | none => false

/-- What stands at the end of a path that is given as a text; an empty text leads
nowhere. -/
def look (fs : FileSystem) (s : String) : Except FileFault FileEntry :=
  if s.isEmpty then .error .notFound
  else match fs.locate (Path.parse s) with
    | .error f => .error f
    | .ok place => match fs.at? place with
      | none => .error .notFound
      | some .directory => .ok .directory
      | some e => if wantsDirectory s then .error .notDirectory else .ok e

/-- Makes a directory in one that is there. -/
def makeDirectory (fs : FileSystem) (p : Path) : Except FileFault FileSystem :=
  match fs.locate p with
  | .error f => .error f
  | .ok place => match fs.at? place with
    | some _ => .error .alreadyThere
    | none => .ok ⟨put place .directory fs.entries⟩

/-- A file system after an attempt, and the failure with the path at which it
happened. -/
abbrev Attempt := FileSystem × Option (FileFault × Path)

/-- Takes a directory that is there for one that was made. -/
def orThere (fs : FileSystem) (p : Path) (f : FileFault) : Attempt :=
  if f ≠ .unnameable ∧ fs.isDirectory p then (fs, none) else (fs, some (f, p))

/-- Makes a directory and those above it, given by its names from the last one up.
What was made on the way stays even if the rest fails. -/
def makeDirectoriesUp (fs : FileSystem) : List String → Attempt
  | [] => (fs, none)
  | n :: up =>
    let p : Path := ⟨(n :: up).reverse⟩
    match fs.makeDirectory p with
    | .ok fs' => (fs', none)
    | .error .notFound =>
      match makeDirectoriesUp fs up with
      | (fs', some failure) => (fs', some failure)
      | (fs', none) => match fs'.makeDirectory p with
        | .ok fs'' => (fs'', none)
        | .error f => orThere fs' p f
    | .error f => orThere fs p f

/-- Makes a directory and those above it; those that are there already will do. -/
def makeDirectories (fs : FileSystem) (p : Path) : Attempt := fs.makeDirectoriesUp p.names.reverse

@[simp] theorem at?_nil (fs : FileSystem) : fs.at? [] = some .directory := rfl

/-- What was put stands at its place. -/
@[simp] theorem lookup_put_self (place : List String) (e : FileEntry)
    (entries : List (List String × FileEntry)) :
    (put place e entries).lookup place = some e := by
  induction entries with
  | nil => simp [put]
  | cons x rest ih =>
    obtain ⟨q, f⟩ := x
    by_cases h : q = place
    · simp [put, h]
    · have h' : (place == q) = false := by simpa using fun e => h e.symm
      simp [put, h, List.lookup_cons, h', ih]

/-- What stands at other places stays. -/
theorem lookup_put_of_ne {place other : List String} (h : other ≠ place) (e : FileEntry)
    (entries : List (List String × FileEntry)) :
    (put place e entries).lookup other = entries.lookup other := by
  induction entries with
  | nil => simp [put, h]
  | cons x rest ih =>
    obtain ⟨q, f⟩ := x
    by_cases hq : q = place
    · subst hq
      have h' : (other == q) = false := by simpa using h
      simp [put, List.lookup_cons, h']
    · simp [put, hq, List.lookup_cons, ih]

end FileSystem
end ApiManual
