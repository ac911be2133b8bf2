import ApiManual.CommandLine.Grammar
import ApiManual.Text.Similarity
import ApiManual.Text.Order
import ApiManual.Text.Quoted

/-!
# Commands and how they are used

The commands with their options, the pages that describe them, and what is said
about arguments that make no sense.
-/

namespace ApiManual
namespace CommandLine

/-- What can be described: the program as a whole, and each of its commands. -/
inductive Topic where
  | program
  | generate
  | validate
  deriving DecidableEq

namespace Topic

/-- The commands of the program by their names. -/
def commands : List (String × Topic) := [("generate", generate), ("validate", validate)]

def helpSwitch : Switch := ⟨.help, none, "--help", false⟩

/-- How the arguments are read. -/
def grammar : Topic → Grammar
  | program => ⟨[⟨.verbose, some 'v', "--verbose", false⟩, helpSwitch], false⟩
  | generate =>
    ⟨[⟨.output, some 'o', "--output", true⟩, ⟨.title, none, "--title", true⟩, helpSwitch], true⟩
  | validate => ⟨[helpSwitch], true⟩

/-- How it is called. -/
def name : Topic → String
  | program => "main"
  | generate => "main generate"
  | validate => "main validate"

/-- The line that shows how it is used. -/
def usage (t : Topic) : String :=
  "Usage: " ++ t.name ++ " [OPTIONS] " ++
    (match t with
      | program => "COMMAND [ARGS]..."
      | _ => "DESCRIPTOR_PATH") ++ "\n"

/-- The page that describes it. -/
def help (t : Topic) : String :=
  t.usage ++ "\n" ++ match t with
  | program => "  API Descriptor Docs: generate AsciiDoc documentation from API descriptors.\n\n" ++
    "Options:\n" ++
    "  -v, --verbose  Enable debug logging.\n" ++
    "  --help         Show this message and exit.\n\n" ++
    "Commands:\n" ++
    "  generate  Generate AsciiDoc documentation from an API descriptor.\n" ++
    "  validate  Check an API descriptor and print a summary.\n"
  | generate => "  Generate AsciiDoc documentation from an API descriptor.\n\n" ++
    "Options:\n" ++
    "  -o, --output DIRECTORY  Output directory for AsciiDoc files.  [required]\n" ++
    "  --title TEXT            Title of the root document.  [default: API Descriptor]\n" ++
    "  --help                  Show this message and exit.\n"
  | validate => "  Check an API descriptor and print a summary.\n\n" ++
    "Options:\n" ++
    "  --help  Show this message and exit.\n"

end Topic

/-- What is wrong with the arguments of a command. -/
inductive UsageFault where
  /-- They cannot be read. -/
  | unreadable (fault : ReadFault)
  | commandMissing
  | unknownCommand (name : String)
  | descriptorMissing
  | outputMissing
  /-- The descriptor is not there. -/
  | noDescriptor (path : String)
  /-- The descriptor is a directory. -/
  | descriptorIsDirectory (path : String)
  /-- The place for the output is a file. -/
  | outputIsFile (path : String)
  /-- More arguments than the command takes. -/
  | tooMany (arguments : List String)
  deriving DecidableEq

namespace UsageFault

/-- A hint at the names that a wrong one is like. -/
def suggestion (name : String) (names : List String) : String :=
  match Text.sortNames (names.filter (Text.isLike name)) with
  | [] => ""
  | [n] => " Did you mean " ++ Text.quoted n ++ "?"
  | ns => " (Did you mean one of: " ++ ", ".intercalate (ns.map Text.quoted) ++ "?)"

/-- How a fault in the arguments of a command is worded. -/
def message (t : Topic) : UsageFault → String
  | unreadable (.unknown name long) => "No such option " ++ Text.quoted name ++ "." ++
    (if long then suggestion name t.grammar.longNames else "")
  | unreadable (.valueMissing name) => "Option " ++ Text.quoted name ++ " requires an argument."
  | unreadable (.valueGiven name) => "Option " ++ Text.quoted name ++ " does not take a value."
  | commandMissing => "Missing command."
  | unknownCommand name => "No such command " ++ Text.quoted name ++ "." ++
    suggestion name (Topic.commands.map Prod.fst)
  | descriptorMissing => "Missing argument 'DESCRIPTOR_PATH'."
  | outputMissing => "Missing option '-o' / '--output'."
  | noDescriptor path =>
    "Invalid value for 'DESCRIPTOR_PATH': File " ++ Text.quoted path ++ " does not exist."
  | descriptorIsDirectory path =>
    "Invalid value for 'DESCRIPTOR_PATH': File " ++ Text.quoted path ++ " is a directory."
  | outputIsFile path =>
    "Invalid value for '-o' / '--output': Directory " ++ Text.quoted path ++ " is a file."
  | tooMany arguments => "Got unexpected extra argument" ++
    (if arguments.length = 1 then "" else "s") ++ " (" ++ " ".intercalate arguments ++ ")"

/-- Whether the message comes without a hint at the right use. -/
def isBare : UsageFault → Bool
  | unreadable (.valueMissing _) => true
  | unreadable (.valueGiven _) => true
  | _ => false

/-- What is said about a fault, the hint at the right use in front. -/
def report (t : Topic) (f : UsageFault) : String :=
  (if f.isBare then "" else t.usage ++ "Try '" ++ t.name ++ " --help' for help.\n\n") ++
    "Error: " ++ f.message t ++ "\n"

end UsageFault
end CommandLine
end ApiManual
