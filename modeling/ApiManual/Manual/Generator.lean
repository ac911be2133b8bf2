import ApiManual.Manual.Generate

/-!
# Generators

A generator has a directory and a title, and writes one manual after the other.  What
the last manual has claimed and written stays with it until the next one, which
starts from nothing again, even if it cannot be written at all.
-/

namespace ApiManual
namespace Manual

/-- One who writes manuals. -/
structure Generator where
  out : Path
  title : String
  /-- The claims of the last manual. -/
  registry : Registry
  /-- The files of the last manual, in order. -/
  written : List String

/-- What has become of an execution: the generator and the files afterwards, and why
the manual was not written to its end. -/
structure Execution where
  generator : Generator
  disk : FileSystem
  failure : Option Failure

namespace Generator

/-- A generator that has not written anything yet; its directory is made if it is not
there. -/
def create (disk : FileSystem) (out : Path) (title : String) :
    FileSystem × Except OutputFault Generator :=
  match prepare disk out with
  | (disk', none) => (disk', .ok ⟨out, title, Registry.empty, []⟩)
  | (disk', some fault) => (disk', .error fault)

/-- A generator that has forgotten its last manual. -/
def reset (g : Generator) : Generator := { g with registry := Registry.empty, written := [] }

/-- A generator that has come so far with a manual. -/
def reached (g : Generator) (p : Progress) : Generator :=
  { g with registry := p.registry, written := p.written }

/-- Writes the manual of a description. -/
def execute (g : Generator) (disk : FileSystem) (d : Description) : Execution :=
  let start := g.reset
  match d.paths with
  | some (.unsupported kind) => ⟨start, disk, some (.unsupportedPaths kind)⟩
  | _ =>
    match ((writeManual g.out g.title d).run).run ⟨start.registry, start.written, disk⟩ with
    | (.ok _, p) => ⟨start.reached p, p.disk, none⟩
    | (.error failure, p) => ⟨start.reached p, p.disk, some failure⟩

/-- Writes the manuals of several descriptions, one after the other. -/
def executeAll (g : Generator) (disk : FileSystem) (ds : List Description) : Execution :=
  ds.foldl (fun e d => e.generator.execute e.disk d) ⟨g, disk, none⟩

end Generator
end Manual
end ApiManual
