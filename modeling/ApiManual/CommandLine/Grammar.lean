/-!
# Options and arguments

How a row of arguments is read.  An argument that starts with a dash holds options:
a long one after two dashes, perhaps with its value after an equals sign, or several
short ones in a row, of which the last one may have its value behind it.  Otherwise
the value of an option is the next argument.  Two dashes alone end the options.
-/

namespace ApiManual
namespace CommandLine

/-- What an option means. -/
inductive Meaning where
  | verbose
  | help
  | output
  | title
  deriving DecidableEq

/-- An option as it is written. -/
structure Switch where
  meaning : Meaning
  short : Option Char
  long : String
  takesValue : Bool

/-- How the arguments of a command are read. -/
structure Grammar where
  switches : List Switch
  /-- Whether options may stand behind arguments. -/
  mixed : Bool

/-- What is wrong with a row of arguments. -/
inductive ReadFault where
  /-- An option that the command does not have; a long one may be like some of
  those that it has. -/
  | unknown (name : String) (long : Bool)
  /-- An option without the value that it takes. -/
  | valueMissing (name : String)
  /-- An option with a value that it does not take. -/
  | valueGiven (name : String)
  deriving DecidableEq

/-- Arguments as they were read: the options with their values, and the rest. -/
structure Given where
  options : List (Meaning × String)
  arguments : List String
  deriving DecidableEq

/-- Options of one argument, and perhaps one that waits for its value, under the name
that it has there. -/
abbrev Taken := List (Meaning × String) × Option (Meaning × String)

namespace Grammar

/-- A short option by its letter. -/
def short? (g : Grammar) (c : Char) : Option Switch := g.switches.find? fun s => s.short = some c

/-- A long option by its name. -/
def long? (g : Grammar) (name : String) : Option Switch := g.switches.find? fun s => s.long = name

/-- The names of the long options. -/
def longNames (g : Grammar) : List String := g.switches.map Switch.long

/-- The name of a short option. -/
def shortName (c : Char) : String := String.ofList ['-', c]

/-- Reads short options in a row. -/
def shorts (g : Grammar) : List Char → Except ReadFault Taken
  | [] => .ok ([], none)
  | c :: rest =>
    match g.short? c with
    | none => .error (.unknown (shortName c) false)
    | some s =>
      if s.takesValue then
        if rest.isEmpty then .ok ([], some (s.meaning, shortName c))
        else .ok ([(s.meaning, String.ofList rest)], none)
      else do
        let (options, waiting) ← shorts g rest
        return ((s.meaning, "") :: options, waiting)

/-- Reads an argument that starts with a dash. -/
def option (g : Grammar) (arg : List Char) : Except ReadFault Taken :=
  let name := String.ofList (arg.takeWhile (· ≠ '='))
  let value? := match arg.dropWhile (· ≠ '=') with
    | [] => none
    | _ :: value => some (String.ofList value)
  match g.long? name with
  | some s =>
    match s.takesValue, value? with
    | true, some value => .ok ([(s.meaning, value)], none)
    | true, none => .ok ([], some (s.meaning, name))
    | false, some _ => .error (.valueGiven name)
    | false, none => .ok ([(s.meaning, "")], none)
  | none =>
    match arg with
    | '-' :: '-' :: _ => .error (.unknown name true)
    | _ => g.shorts (arg.drop 1)

/-- Whether an argument holds options. -/
def isOption (arg : List Char) : Bool := arg.head? = some '-' && 1 < arg.length

/-- Reads arguments. -/
def read (g : Grammar) : List String → Except ReadFault Given
  | [] => .ok ⟨[], []⟩
  | arg :: rest =>
    if arg = "--" then .ok ⟨[], rest⟩
    else if isOption arg.toList then
      match g.option arg.toList, rest with
      | .error fault, _ => .error fault
      | .ok (options, none), rest => do
        let given ← g.read rest
        return { given with options := options ++ given.options }
      | .ok (_, some (_, name)), [] => .error (.valueMissing name)
      | .ok (options, some (meaning, _)), value :: rest => do
        let given ← g.read rest
        return { given with options := options ++ (meaning, value) :: given.options }
    else if g.mixed then do
      let given ← g.read rest
      return { given with arguments := arg :: given.arguments }
    else .ok ⟨[], arg :: rest⟩

end Grammar

namespace Given

/-- The value of an option; of several the last one. -/
def value? (g : Given) (m : Meaning) : Option String :=
  (g.options.reverse.find? fun o => o.1 = m).map Prod.snd

/-- Whether an option was given. -/
def has (g : Given) (m : Meaning) : Bool := g.options.any fun o => o.1 = m

end Given
end CommandLine
end ApiManual
