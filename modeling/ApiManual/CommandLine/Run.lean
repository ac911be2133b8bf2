import ApiManual.CommandLine.Usage
import ApiManual.Descriptor
import ApiManual.Manual.Generate
import ApiManual.Text.Control

/-!
# Running commands

What the program does with its arguments: it describes itself, checks a descriptor
and sums it up, or writes the manual of one.  The outcome is what it says, what it
leaves behind, and whether it broke down.
-/

namespace ApiManual
namespace CommandLine

/-- Something that the program breaks down at. -/
inductive Crash where
  /-- A path that is none. -/
  | path (fault : FileFault)
  | descriptor (fault : Descriptor.Fault)
  | output (fault : Manual.OutputFault)
  | manual (failure : Manual.Failure)

/-- What has become of a run. -/
structure Outcome where
  exit : Nat
  stdout : String
  stderr : String
  crash : Option Crash
  disk : FileSystem

/-- What the program is run with besides its arguments: the environment of its
environment, the files, and what its log says of the time. -/
structure Setting where
  environment : List (String × String)
  disk : FileSystem
  time : String

namespace Setting

/-- The variable that names the directory for the output. -/
def outputName : String := "API_DOCS_OUTPUT_DIR"

/-- The variable that gives the title. -/
def titleName : String := "API_DOCS_TITLE"

/-- A variable that is set to something. -/
def setTo? (s : Setting) (name : String) : Option String :=
  (s.environment.lookup name).filter fun v => !v.isEmpty

/-- The directory for the output, unless an option names it. -/
def output? (s : Setting) : Option String := s.setTo? outputName

/-- The title, unless an option gives it. -/
def title? (s : Setting) : Option String := s.setTo? titleName

end Setting

/-- Why a command does not begin. -/
inductive Refusal where
  | usage (fault : UsageFault)
  | crash (c : Crash)

/-- A line of output. -/
def line (s : String) : String := Text.withoutControls s ++ "\n"

/-- A line that says what went wrong. -/
def errorLine (message : String) : String := line ("Error: " ++ message)

/-! ## Outcomes -/

namespace Outcome

/-- All went well. -/
def done (disk : FileSystem) (stdout stderr : String) : Outcome := ⟨0, stdout, stderr, none, disk⟩

/-- Something went wrong that was said. -/
def failed (disk : FileSystem) (stdout stderr message : String) : Outcome :=
  ⟨1, stdout, stderr ++ errorLine message, none, disk⟩

/-- The program broke down. -/
def crashed (disk : FileSystem) (stdout stderr : String) (c : Crash) : Outcome :=
  ⟨1, stdout, stderr, some c, disk⟩

/-- The program could not begin. -/
def refused (disk : FileSystem) (t : Topic) : Refusal → Outcome
  | .usage fault => ⟨2, "", Text.withoutControls (fault.report t), none, disk⟩
  | .crash c => crashed disk "" "" c

end Outcome

/-! ## Arguments -/

/-- The path of the descriptor, which has to be a file. -/
def descriptorPath (disk : FileSystem) (given : Given) : Except Refusal Path :=
  match given.arguments with
  | [] => .error (.usage .descriptorMissing)
  | text :: _ => match disk.look text with
    | .error .unnameable => .error (.crash (.path .unnameable))
    | .error _ => .error (.usage (.noDescriptor text))
    | .ok .directory => .error (.usage (.descriptorIsDirectory text))
    | .ok _ => .ok (Path.parse text)

/-- The path of the directory for the output, at which there must not be a file. -/
def outputPath (disk : FileSystem) (value : Option String) : Except Refusal Path :=
  match value with
  | none => .error (.usage .outputMissing)
  | some text => match disk.look text with
    | .error .unnameable => .error (.crash (.path .unnameable))
    | .error _ => .ok (Path.parse text)
    | .ok .directory => .ok (Path.parse text)
    | .ok _ => .error (.usage (.outputIsFile text))

/-- Refuses arguments behind the path of the descriptor. -/
def noMore (given : Given) : Except Refusal Unit :=
  match given.arguments with
  | _ :: a :: rest => .error (.usage (.tooMany (a :: rest)))
  | _ => .ok ()

/-! ## The commands -/

/-- What a descriptor sums up to. -/
def summary (d : Description) : String :=
  line (d.id ++ ": valid") ++
    line ("Paths: " ++ match d.paths with
      | none => "none"
      | some t => Text.intText t.size ++ " (" ++ t.shape ++ ")") ++
    line ("Definitions: " ++ Text.intText ((d.definitions.map List.length).getD 0)) ++
    line ("Errors: " ++ Text.intText ((d.errors.map List.length).getD 0))

/-- Goes on with the description in a file; `said` has been said before. -/
def withDescription (disk : FileSystem) (path : Path) (said : String)
    (go : Description → Outcome) : Outcome :=
  match Descriptor.ofFile disk path with
  | .ok d => go d
  | .error fault =>
    if fault.isReported then .failed disk said "" (fault.message path)
    else .crashed disk said "" (.descriptor fault)

/-- Checks a descriptor. -/
def validate (disk : FileSystem) (path : Path) : Outcome :=
  withDescription disk path "" fun d => .done disk (summary d) ""

/-- Who writes the log of a manual. -/
def logName : String := "api_descriptor_docs.generator.docs"

/-- A log as text. -/
def logText (time : String) (lines : List (Manual.Level × String)) : String :=
  String.join <| lines.map fun l =>
    time ++ " " ++ l.1.name ++ " " ++ logName ++ ": " ++ l.2 ++ "\n"

/-- What is said about a manual that has been written. -/
def conclusion (out : Path) (r : Manual.Report) : String :=
  line ("Root document: " ++ (out.child (Path.parse (r.written.getLast?.getD ""))).text) ++
    line ("Generated " ++ Text.intText r.written.length ++ " files in " ++ out.text)

/-- Writes the manual of a descriptor. -/
def generate (s : Setting) (verbose : Bool) (path out : Path) (title : String) : Outcome :=
  let parsing := line ("Parsing " ++ path.text ++ "...")
  withDescription s.disk path parsing fun d =>
    let said := parsing ++ line ("Generating docs for " ++ d.id ++ "...")
    match Manual.prepare s.disk out with
    | (disk, some fault) =>
      if fault.isReported then .failed disk said "" fault.message
      else .crashed disk said "" (.output fault)
    | (disk, none) =>
      let r := Manual.generate title out disk d
      let log := if verbose then logText s.time (Manual.logLines out d r) else ""
      match r.failure with
      | none => .done r.disk (said ++ conclusion out r) log
      | some failure =>
        if failure.isReported then .failed r.disk said log failure.message
        else .crashed r.disk said log (.manual failure)

/-! ## The program -/

/-- Runs a command, once its arguments have been read.  The help page comes before
everything else; an output that is given as an option is looked at before the
descriptor, and one of the environment after it. -/
def runCommand (s : Setting) (verbose : Bool) (t : Topic) (given : Given) : Outcome :=
  if given.has .help then .done s.disk t.help ""
  else
    let outcome : Except Refusal Outcome := do
      match t with
      | .generate =>
        let outputFirst := given.has .output
        let output := outputPath s.disk (given.value? .output <|> s.output?)
        if outputFirst then let _ ← output
        let path ← descriptorPath s.disk given
        let out ← output
        noMore given
        let title := (given.value? .title <|> s.title?).getD Manual.defaultTitle
        return generate s verbose path out title
      | _ =>
        let path ← descriptorPath s.disk given
        noMore given
        return validate s.disk path
    match outcome with
    | .ok o => o
    | .error r => .refused s.disk t r

/-- Refuses arguments that cannot be read. -/
def unreadable (s : Setting) (t : Topic) (fault : ReadFault) : Outcome :=
  .refused s.disk t (.usage (.unreadable fault))

/-- Runs the command that a name stands for.  A name that starts with a dash is read
as an option once more before it is refused. -/
def runNamed (s : Setting) (verbose : Bool) (name : String) (args : List String) : Outcome :=
  let unknown : Outcome := .refused s.disk .program (.usage (.unknownCommand name))
  match Topic.commands.lookup name with
  | some t => match t.grammar.read args with
    | .ok given => runCommand s verbose t given
    | .error fault => unreadable s t fault
  | none =>
    if name.toList.head? = some '-' then
      match Topic.program.grammar.read (name :: args) with
      | .ok given => if given.has .help then .done s.disk Topic.program.help "" else unknown
      | .error fault => unreadable s .program fault
    else unknown

/-- The paths that a run may look at, as they are written. -/
def paths (environment : List (String × String)) (args : List String) : List String :=
  let s : Setting := ⟨environment, FileSystem.empty, ""⟩
  match Topic.program.grammar.read args with
  | .error _ => []
  | .ok given => match given.arguments with
    | [] => []
    | name :: rest => match Topic.commands.lookup name with
      | none => []
      | some t => match t.grammar.read rest with
        | .error _ => []
        | .ok given => given.arguments ++ (given.value? .output).toList ++ s.output?.toList

/-- Runs the program. -/
def run (s : Setting) (args : List String) : Outcome :=
  if args.isEmpty then ⟨2, "", Topic.program.help, none, s.disk⟩
  else match Topic.program.grammar.read args with
    | .error fault => unreadable s .program fault
    | .ok given =>
      if given.has .help then .done s.disk Topic.program.help ""
      else match given.arguments with
        | [] => .refused s.disk .program (.usage .commandMissing)
        | name :: rest => runNamed s (given.has .verbose) name rest

end CommandLine
end ApiManual
