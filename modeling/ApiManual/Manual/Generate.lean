import ApiManual.Manual.Writing

/-!
# Generating manuals

The manual of a description is written into a directory, from the beginning each
time: no namespace is claimed and no file is written yet.  What has become of it is
told in a report.
-/

namespace ApiManual
namespace Manual

/-- What has become of the writing of a manual. -/
structure Report where
  written : List String
  disk : FileSystem
  failure : Option Failure

/-- Writes the manual of a description into a directory. -/
def generate (title : String) (out : Path) (disk : FileSystem) (d : Description) : Report :=
  match d.paths with
  | some (.unsupported kind) => ⟨[], disk, some (.unsupportedPaths kind)⟩
  | _ => match ((writeManual out title d).run).run ⟨Registry.empty, [], disk⟩ with
    | (.ok _, p) => ⟨p.written, p.disk, none⟩
    | (.error failure, p) => ⟨p.written, p.disk, some failure⟩

/-! ## The directory -/

/-- Why a directory cannot take a manual. -/
inductive OutputFault where
  /-- No directory was named. -/
  | missing
  /-- Something else stands there. -/
  | notDirectory (path : Path)
  /-- It cannot be made. -/
  | notMade (path : Path) (fault : FileFault) (place : Path)
  /-- Not even a look at it is possible. -/
  | unreachable (fault : FileFault)
  deriving DecidableEq, Repr

/-- How a fault is worded. -/
def OutputFault.message : OutputFault → String
  | .missing => "output_dir required"
  | .notDirectory path => "Output path is not a directory: " ++ path.text
  | .notMade path fault place =>
    "Unable to create output directory " ++ path.text ++ ": " ++ fault.message place
  | .unreachable fault => fault.words

/-- Makes sure that a directory is there, and makes those above it on the way.  That one
must also be allowed to write into it is left out, as files have no permissions here. -/
def prepare (disk : FileSystem) (out : Path) : FileSystem × Option OutputFault :=
  match disk.locate out with
  | .error .nameTooLong => (disk, some (.unreachable .nameTooLong))
  | .error .unnameable => (disk, some (.unreachable .unnameable))
  | _ => match disk.find? out with
    | some (.file _) => (disk, some (.notDirectory out))
    | some (.bytes _) => (disk, some (.notDirectory out))
    | _ => match disk.makeDirectories out with
      | (disk', none) => (disk', none)
      | (disk', some (fault, place)) => (disk', some (.notMade out fault place))

/-! ## Messages -/

/-- The title of a manual that is given no other. -/
def defaultTitle : String := "API Descriptor"

/-- How a failure is worded; a body that cannot be put into words has no words for
that either. -/
def Failure.message : Failure → String
  | .unsupportedPaths kind => "Unsupported Paths type: builtins." ++ kind.name
  | .collision c => c.message
  | .file fault path => "Unable to output doc file: " ++ fault.message path
  | .body _ => ""

/-- Whether the reader of the description is told about a failure. -/
def Failure.isReported : Failure → Bool
  | .file fault _ => fault ≠ .unnameable
  | .body _ => false
  | _ => true

/-- Whether the reader of the description is told about a fault. -/
def OutputFault.isReported : OutputFault → Bool
  | .unreachable _ => false
  | .notMade _ fault _ => fault ≠ .unnameable
  | _ => true

/-- The weight of a line of the log. -/
inductive Level where
  | info | debug
  deriving DecidableEq, Repr

/-- What the log calls a weight. -/
def Level.name : Level → String
  | .info => "INFO"
  | .debug => "DEBUG"

/-- The lines that are logged while a manual is written. -/
def logLines (out : Path) (d : Description) (r : Report) : List (Level × String) :=
  match r.failure with
  | some (.unsupportedPaths _) => []
  | _ =>
    (.info, "Generating docs for " ++ Text.quoted d.id ++ " into " ++ out.text) ::
      (if d.paths.any fun t => t.size = 0 then [(.debug, "Skipping empty path table")] else []) ++
      r.written.map (fun file => (.debug, "Wrote " ++ file)) ++
      (if r.failure.isNone then
        [(.info, "Wrote " ++ Text.intText r.written.length ++ " files for " ++ Text.quoted d.id)]
      else [])

end Manual
end ApiManual
