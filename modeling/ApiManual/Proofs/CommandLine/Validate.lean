import ApiManual.CommandLine.Run
import ApiManual.Proofs.Descriptor.Faults
import ApiManual.Proofs.FileSystem

/-!
# What becomes of a descriptor that is checked

A descriptor is either summed up, or its writer is told what is wrong with it, or the program
breaks down (`CommandLine.validate_ends`).  The last of these happens only to a text with a flaw
that nothing looks for (`Descriptor.Flaw`).  Such texts are easy to write, as the day that February
does not have (`CommandLine.validate_breaks_down`).
-/

namespace ApiManual

open Yaml

namespace CommandLine

variable {s : Setting} {name text : String}

/-- What is given to the command `validate` is read by its own grammar. -/
theorem run_validate_eq (s : Setting) (name : String) : run s ["validate", name] =
    match (Topic.grammar .validate).read [name] with
    | .ok given => runCommand s false .validate given
    | .error fault => unreadable s .validate fault := rfl

/-- With an argument and nothing else, a command needs the path that it is given. -/
theorem runCommand_validate_eq (s : Setting) (name : String) :
    runCommand s false .validate ⟨[], [name]⟩ =
      match (descriptorPath s.disk ⟨[], [name]⟩ >>= fun path => .ok (validate s.disk path)) with
      | .ok o => o
      | .error r => .refused s.disk .validate r := rfl

/-- The command `validate` checks the file that it is given. -/
theorem run_validate (there : s.disk.look name = .ok (.file text))
    (argument : Grammar.isOption name.toList = false) :
    run s ["validate", name] = validate s.disk (Path.parse name) := by
  have dashes : name ≠ "--" := by
    rintro rfl
    cases argument
  have given : (Topic.grammar .validate).read [name] = .ok ⟨[], [name]⟩ := by
    unfold Grammar.read
    rw [if_neg dashes, argument, if_neg Bool.false_ne_true]
    rfl
  have path : descriptorPath s.disk ⟨[], [name]⟩ = .ok (Path.parse name) := by
    rw [descriptorPath]
    dsimp only
    rw [there]
  rw [run_validate_eq, given]
  dsimp only
  rw [runCommand_validate_eq, path]
  rfl

/-- It breaks down at an escape for no character, and at a sequence that is inside itself. -/
example : ∀ text ∈ ["\"\\UFFFFFFFF\"", "x: &a [*a]"],
    (run ⟨[], ⟨[(["api.yaml"], .file text)]⟩, ""⟩ ["validate", "api.yaml"]).crash.isSome := by
  decide +kernel

/-- A descriptor with a day that February does not have. -/
def datedText : String := "id: api\ndescription: 2024-02-30\n"

/-- A working directory with such a descriptor. -/
def datedSetting : Setting := ⟨[], ⟨[(["api.yaml"], .file datedText)]⟩, ""⟩

theorem crash_dated : (run datedSetting ["validate", "api.yaml"]).crash.isSome = true := by
  decide +kernel

end CommandLine
end ApiManual
