import ApiManual.CommandLine.Run
import Std.Time

/-!
# The program

Takes a picture of the files that a run may look at, runs the command on it, and
does to the files what the run did to the picture.
-/

namespace ApiManual
namespace Main

/-- The time as the log shows it. -/
def clock : IO String := do
  let t ← Std.Time.PlainDateTime.now
  let two (n : Int) := Text.padded 2 n.toNat
  return Text.padded 4 (t.year : Int).toNat ++ "-" ++ two t.month.val ++ "-" ++ two t.day.val ++
    " " ++ two t.hour.val ++ ":" ++ two t.minute.val ++ ":" ++ two t.second.val ++ "," ++
    Text.padded 3 (t.nanosecond.val.toNat / 1000000)

/-- Puts what stands at a path into the picture, if it can be reached there. -/
def look (picture : FileSystem) (p : Path) : IO FileSystem := do
  match picture.locate p with
  | .error _ => return picture
  | .ok place =>
    if (picture.at? place).isSome then return picture
    else
      let real := (← IO.currentDir) / (Path.mk place).text
      if ← real.isDir then return ⟨FileSystem.put place .directory picture.entries⟩
      else if ← real.pathExists then
        let bytes ← IO.FS.readBinFile real
        let entry := match Text.utf8Text? bytes.toList with
          | some text => FileEntry.file text
          | none => .bytes bytes.toList
        return ⟨FileSystem.put place entry picture.entries⟩
      else return picture

/-- Puts what stands on the way to a path into the picture, and what stands directly
below it. -/
def lookAlong (picture : FileSystem) (text : String) : IO FileSystem := do
  let p := Path.parse text
  let picture ← (List.range p.names.length).foldlM
    (fun picture n => look picture ⟨p.names.take (n + 1)⟩) picture
  if picture.isDirectory p then
    let entries ← ((← IO.currentDir) / p.text).readDir
    entries.foldlM (fun picture e => look picture ⟨p.names ++ [e.fileName]⟩) picture
  else return picture

/-- Does to the files what was done to the picture. -/
def apply (before after : FileSystem) : IO Unit := do
  let here ← IO.currentDir
  after.entries.forM fun (place, entry) => do
    if before.entries.lookup place ≠ some entry then
      let real := here / (Path.mk place).text
      match entry with
      | .file text => IO.FS.writeFile real text
      | .bytes content => IO.FS.writeBinFile real ⟨content.toArray⟩
      | .directory => IO.FS.createDir real

end Main
end ApiManual

open ApiManual ApiManual.Main in
/-- Runs the program with the arguments of the command line. -/
def main (args : List String) : IO UInt32 := do
  let names := [CommandLine.Setting.outputName, CommandLine.Setting.titleName]
  let environment ← names.filterMapM fun name => do
    return (← IO.getEnv name).map fun value => (name, value)
  let picture ← (CommandLine.paths environment args).foldlM lookAlong FileSystem.empty
  let outcome := CommandLine.run ⟨environment, picture, ← clock⟩ args
  apply picture outcome.disk
  IO.print outcome.stdout
  IO.eprint outcome.stderr
  return UInt32.ofNat outcome.exit
