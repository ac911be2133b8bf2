import ApiManual.CommandLine.Run
import ApiManual.Proofs.FileSystem

/-!
# Commands that stop at a descriptor

The commands `generate` and `validate` have their reading of a descriptor in common.  A run of
`generate` that gets no further fails as a run of `validate` on the same file does, at the same
fault, with the same words, the same exit code and the same breakdown, and it has not touched the
disk yet: not even the directory for the output has been made (`parsing_stage`).  That it got no further can be told
from what it has said, as it says something more as soon as it has a description.

All lines of arguments that ask for these commands are covered, whatever options they hold
(`Asks`).  A line that asks for any other thing than `generate` leaves the disk as it is
(`disk_run_of_ne`).
-/

namespace ApiManual
namespace CommandLine

variable {s : Setting} {args : List String} {verbose : Bool} {t : Topic} {given : Given}
  {path out : Path}

/-! ## Lines of arguments -/

/-- The command that arguments name. -/
def command? (args : List String) : Option Topic :=
  match Topic.program.grammar.read args with
  | .ok before => before.arguments.head?.bind fun name => Topic.commands.lookup name
  | .error _ => none

/-- Arguments that ask for a command and not for help, with what they give it. -/
structure Asks (args : List String) (verbose : Bool) (t : Topic) (given : Given) : Prop where
  named : ∃ before name rest, Topic.program.grammar.read args = .ok before ∧
    before.has .help = false ∧ before.has .verbose = verbose ∧ before.arguments = name :: rest ∧
    Topic.commands.lookup name = some t ∧ t.grammar.read rest = .ok given
  helpless : given.has .help = false

/-- Such a command is run. -/
theorem Asks.run_eq (h : Asks args verbose t given) :
    run s args = runCommand s verbose t given := by
  obtain ⟨before, name, rest, read, noHelp, loud, arguments, known, own⟩ := h.named
  have some_args : args.isEmpty = false := by
    cases args with
    | nil =>
      cases read
      cases arguments
    | cons _ _ => rfl
  rw [run, some_args, read]
  dsimp only
  rw [noHelp, arguments, loud]
  dsimp only [if_neg Bool.false_ne_true]
  rw [if_neg Bool.false_ne_true, if_neg Bool.false_ne_true, runNamed, known]
  dsimp only
  rw [own]

/-- A valid line for `generate` with the descriptor at a path. -/
structure GeneratesFrom (s : Setting) (args : List String) (path : Path) : Prop where
  asks : ∃ verbose given out, Asks args verbose .generate given ∧
    descriptorPath s.disk given = .ok path ∧
    outputPath s.disk (given.value? .output <|> s.output?) = .ok out ∧ noMore given = .ok ()

/-- A valid line for `validate` with the descriptor at a path. -/
structure ValidatesFrom (s : Setting) (args : List String) (path : Path) : Prop where
  asks : ∃ verbose given, Asks args verbose .validate given ∧
    descriptorPath s.disk given = .ok path ∧ noMore given = .ok ()

theorem GeneratesFrom.run_eq (h : GeneratesFrom s args path) :
    ∃ verbose out title, run s args = generate s verbose path out title := by
  obtain ⟨verbose, given, out, asks, there, free, only⟩ := h.asks
  refine ⟨verbose, out, (given.value? .title <|> s.title?).getD Manual.defaultTitle, ?_⟩
  rw [asks.run_eq, runCommand, asks.helpless, if_neg Bool.false_ne_true]
  dsimp only
  rw [there, free, only]
  cases given.has .output <;> rfl

/-- A command that generates nothing checks the file at the path that it is given. -/
theorem runCommand_of_ne (other : t ≠ .generate) (helpless : given.has .help = false) :
    runCommand s verbose t given =
      match (do
        let path ← descriptorPath s.disk given
        noMore given
        return validate s.disk path : Except Refusal Outcome) with
      | .ok o => o
      | .error r => .refused s.disk t r := by
  unfold runCommand
  rw [helpless]
  cases t with
  | generate => exact absurd rfl other
  | program => rfl
  | validate => rfl

theorem ValidatesFrom.run_eq (h : ValidatesFrom s args path) :
    run s args = validate s.disk path := by
  obtain ⟨verbose, given, asks, there, only⟩ := h.asks
  rw [asks.run_eq, runCommand_of_ne (by decide) asks.helpless, there, only]
  rfl

/-! ## The stage of parsing -/

/-- What is said before a descriptor is read. -/
def parsingLine (path : Path) : String := line ("Parsing " ++ path.text ++ "...")

/-- A run that fails before it has said anything about a description. -/
def StopsParsing (path : Path) (o : Outcome) : Prop := o.exit ≠ 0 ∧ o.stdout = parsingLine path

theorem toList_line_ne_nil (text : String) : (line text).toList ≠ [] := by
  rw [line, String.toList_append]
  exact fun none => List.cons_ne_nil _ _ (List.append_eq_nil_iff.1 none).2

/-- Something more has been said after another line. -/
theorem append_line_ne (said text more : String) : said ++ line text ++ more ≠ said := by
  intro same
  have chars := congrArg String.toList same
  rw [String.toList_append, String.toList_append, List.append_assoc,
    List.append_right_eq_self] at chars
  exact toList_line_ne_nil text (List.append_eq_nil_iff.1 chars).1

/-- How a run ends at a descriptor with a fault, if `said` has been said before. -/
def stoppedBy (disk : FileSystem) (path : Path) (said : String) (fault : Descriptor.Fault) :
    Outcome :=
  if fault.isReported then .failed disk said "" (fault.message path)
  else .crashed disk said "" (.descriptor fault)

/-- A run goes on with the description in the file, or stops at a fault. -/
theorem withDescription_eq (disk : FileSystem) (path : Path) (said : String)
    (go : Description → Outcome) : withDescription disk path said go =
      match Descriptor.ofFile disk path with
      | .ok d => go d
      | .error fault => stoppedBy disk path said fault := rfl

theorem exit_stoppedBy (disk : FileSystem) (path : Path) (said : String)
    (fault : Descriptor.Fault) : (stoppedBy disk path said fault).exit = 1 := by
  rw [stoppedBy]
  split <;> rfl

theorem stdout_stoppedBy (disk : FileSystem) (path : Path) (said : String)
    (fault : Descriptor.Fault) : (stoppedBy disk path said fault).stdout = said := by
  rw [stoppedBy]
  split <;> rfl

theorem disk_stoppedBy (disk : FileSystem) (path : Path) (said : String)
    (fault : Descriptor.Fault) : (stoppedBy disk path said fault).disk = disk := by
  rw [stoppedBy]
  split <;> rfl

/-- What was said before has no part in what is said of a fault. -/
theorem stoppedBy_said (disk : FileSystem) (path : Path) (said : String)
    (fault : Descriptor.Fault) : (stoppedBy disk path said fault).stderr =
      (stoppedBy disk path "" fault).stderr ∧
    (stoppedBy disk path said fault).exit = (stoppedBy disk path "" fault).exit ∧
    (stoppedBy disk path said fault).crash = (stoppedBy disk path "" fault).crash := by
  unfold stoppedBy
  split <;> exact ⟨rfl, rfl, rfl⟩

/-- A check fails at a fault only. -/
theorem validate_eq (disk : FileSystem) (path : Path) : validate disk path =
    match Descriptor.ofFile disk path with
    | .ok d => .done disk (summary d) ""
    | .error fault => stoppedBy disk path "" fault := rfl

/-- A generator has said more once it has a description. -/
theorem generate_cases (s : Setting) (verbose : Bool) (path out : Path) (title : String) :
    (∃ d more, Descriptor.ofFile s.disk path = .ok d ∧
      (generate s verbose path out title).stdout =
        parsingLine path ++ line ("Generating docs for " ++ d.id ++ "...") ++ more) ∨
    ∃ fault, Descriptor.ofFile s.disk path = .error fault ∧
      generate s verbose path out title = stoppedBy s.disk path (parsingLine path) fault := by
  rw [generate]
  dsimp only
  rw [withDescription_eq]
  cases Descriptor.ofFile s.disk path with
  | error fault => exact .inr ⟨fault, rfl, rfl⟩
  | ok d =>
    dsimp only
    refine .inl ⟨d, ?_⟩
    have none_more (text : String) : text = text ++ "" := String.append_empty.symm
    split
    · split
      · exact ⟨"", rfl, none_more _⟩
      · exact ⟨"", rfl, none_more _⟩
    · split
      · exact ⟨_, rfl, rfl⟩
      · split
        · exact ⟨"", rfl, none_more _⟩
        · exact ⟨"", rfl, none_more _⟩

/-- A run of `generate` stops at parsing if the descriptor has a fault, and only then. -/
theorem stopsParsing_generate_iff (s : Setting) (verbose : Bool) (path out : Path)
    (title : String) : StopsParsing path (generate s verbose path out title) ↔
      ∃ fault, Descriptor.ofFile s.disk path = .error fault := by
  rcases generate_cases s verbose path out title with ⟨d, more, read, said⟩ | ⟨fault, read, stopped⟩
  · rw [StopsParsing, said, read]
    constructor
    · intro stops
      exact absurd stops.2 (append_line_ne _ _ _)
    · rintro ⟨_, none⟩
      cases none
  · rw [StopsParsing, stopped, exit_stoppedBy, stdout_stoppedBy, read]
    exact ⟨fun _ => ⟨fault, rfl⟩, fun _ => ⟨Nat.one_ne_zero, rfl⟩⟩

/-- A check fails if the descriptor has a fault, and only then. -/
theorem exit_validate_iff (disk : FileSystem) (path : Path) : (validate disk path).exit ≠ 0 ↔
    ∃ fault, Descriptor.ofFile disk path = .error fault := by
  rw [validate_eq]
  cases Descriptor.ofFile disk path with
  | ok d =>
    constructor
    · intro fails
      exact absurd rfl fails
    · rintro ⟨_, none⟩
      cases none
  | error fault =>
    dsimp only
    rw [exit_stoppedBy]
    exact ⟨fun _ => ⟨fault, rfl⟩, fun _ => Nat.one_ne_zero⟩

/-! ## What leaves the disk as it is -/

theorem disk_validate (disk : FileSystem) (path : Path) : (validate disk path).disk = disk := by
  rw [validate_eq]
  split
  · rfl
  · exact disk_stoppedBy _ _ _ _

theorem disk_refused (disk : FileSystem) (t : Topic) (r : Refusal) :
    (Outcome.refused disk t r).disk = disk := by
  cases r <;> rfl

theorem disk_runCommand_of_ne (other : t ≠ .generate) :
    (runCommand s verbose t given).disk = s.disk := by
  cases helpless : given.has .help with
  | true =>
    rw [runCommand.eq_def, helpless]
    rfl
  | false =>
    rw [runCommand_of_ne other helpless]
    cases descriptorPath s.disk given with
    | error r => exact disk_refused _ _ r
    | ok path =>
      cases noMore given with
      | error r => exact disk_refused _ _ r
      | ok _ => exact disk_validate s.disk path

theorem disk_runNamed_of_ne {name : String}
    (other : Topic.commands.lookup name ≠ some .generate) :
    (runNamed s verbose name args).disk = s.disk := by
  rw [runNamed]
  split
  · rename_i t known
    split
    · refine disk_runCommand_of_ne ?_
      rintro rfl
      exact other known
    · exact disk_refused _ _ _
  · split
    · split
      · split
        · rfl
        · exact disk_refused _ _ _
      · exact disk_refused _ _ _
    · exact disk_refused _ _ _

/-- **Whoever does not ask for a manual changes nothing.** -/
theorem disk_run_of_ne (s : Setting) (other : command? args ≠ some .generate) :
    (run s args).disk = s.disk := by
  rw [run]
  split
  · rfl
  rw [command?] at other
  split
  · exact disk_refused _ _ _
  · rename_i before read
    rw [read] at other
    dsimp only at other
    split
    · rfl
    · split
      · exact disk_refused _ _ _
      · rename_i name rest arguments
        rw [arguments] at other
        exact disk_runNamed_of_ne other

/-! ## Both commands -/

/-- **The stage of parsing.**  A valid run of `generate` stops at parsing exactly when a run of
`validate` on the same file fails.  Both then stop at one fault, of which there is only one thing to
say: they say the same on the standard error, end with the same code and break down at the same
thing, and the disk is what it was before.  A run of `validate` leaves the disk as it is whatever
its arguments are. -/
theorem parsing_stage (s : Setting) :
    (∀ (args args' : List String) (path : Path), GeneratesFrom s args path →
      ValidatesFrom s args' path →
      (StopsParsing path (run s args) ↔ (run s args').exit ≠ 0) ∧
      (StopsParsing path (run s args) →
        (∃ fault, Descriptor.ofFile s.disk path = .error fault ∧
          run s args = stoppedBy s.disk path (parsingLine path) fault ∧
          run s args' = stoppedBy s.disk path "" fault) ∧
        (run s args).stderr = (run s args').stderr ∧
        (run s args).exit = (run s args').exit ∧ (run s args).crash = (run s args').crash ∧
        (run s args).disk = s.disk)) ∧
    ∀ args, command? args = some .validate → (run s args).disk = s.disk := by
  refine ⟨fun args args' path writing checking => ?_, fun args asked => ?_⟩
  · obtain ⟨verbose, out, title, wrote⟩ := writing.run_eq
    rw [wrote, checking.run_eq, exit_validate_iff]
    refine ⟨stopsParsing_generate_iff s verbose path out title, fun stops => ?_⟩
    obtain ⟨fault, read⟩ := (stopsParsing_generate_iff s verbose path out title).1 stops
    rcases generate_cases s verbose path out title with ⟨d, _, good, _⟩ | ⟨_, bad, stopped⟩
    · rw [read] at good
      cases good
    · obtain rfl : fault = _ := Except.error.inj (read.symm.trans bad)
      rw [stopped, validate_eq, read]
      obtain ⟨stderr, exit, crash⟩ := stoppedBy_said s.disk path (parsingLine path) fault
      exact ⟨⟨fault, rfl, rfl, rfl⟩, stderr, exit, crash, disk_stoppedBy _ _ _ _⟩
  · refine disk_run_of_ne s ?_
    rw [asked]
    decide

/-- A working directory with a descriptor that is no mapping and one with a day that February does
not have. -/
def faultySetting : Setting where
  environment := [("API_DOCS_OUTPUT_DIR", "out/deep")]
  disk := ⟨[(["list.yaml"], .file "- id\n"),
    (["dated.yaml"], .file "id: api\ndescription: 2024-02-30\n")]⟩
  time := ""

/-- For neither of them the directory for the output is made. -/
theorem parsing_stage_of_faults : ∀ name ∈ ["list.yaml", "dated.yaml"],
    GeneratesFrom faultySetting ["-v", "generate", name, "--title", "Pets"] ⟨[name]⟩ ∧
      ValidatesFrom faultySetting ["validate", name] ⟨[name]⟩ ∧
      (run faultySetting ["validate", name]).exit ≠ 0 ∧
      (∃ fault,
        run faultySetting ["-v", "generate", name, "--title", "Pets"] =
          stoppedBy faultySetting.disk ⟨[name]⟩ (parsingLine ⟨[name]⟩) fault ∧
        run faultySetting ["validate", name] =
          stoppedBy faultySetting.disk ⟨[name]⟩ "" fault) ∧
      (run faultySetting ["-v", "generate", name, "--title", "Pets"]).stderr =
        (run faultySetting ["validate", name]).stderr ∧
      (run faultySetting ["-v", "generate", name, "--title", "Pets"]).disk = faultySetting.disk ∧
      command? ["validate", name, "--output"] = some .validate ∧
      (run faultySetting ["validate", name, "--output"]).disk = faultySetting.disk := by
  have lines : ∀ name ∈ ["list.yaml", "dated.yaml"],
      GeneratesFrom faultySetting ["-v", "generate", name, "--title", "Pets"] ⟨[name]⟩ ∧
        ValidatesFrom faultySetting ["validate", name] ⟨[name]⟩ := by
    intro name mem
    simp only [List.mem_cons, List.not_mem_nil, or_false] at mem
    have writing : Asks ["-v", "generate", name, "--title", "Pets"] true .generate
        ⟨[(.title, "Pets")], [name]⟩ := by
      rcases mem with rfl | rfl
      all_goals exact ⟨⟨_, _, _, rfl, rfl, rfl, rfl, rfl, rfl⟩, rfl⟩
    have checking : Asks ["validate", name] false .validate ⟨[], [name]⟩ := by
      rcases mem with rfl | rfl
      all_goals exact ⟨⟨_, _, _, rfl, rfl, rfl, rfl, rfl, rfl⟩, rfl⟩
    have path (options : List (Meaning × String)) :
        descriptorPath faultySetting.disk ⟨options, [name]⟩ = .ok ⟨[name]⟩ := by
      rcases mem with rfl | rfl
      all_goals rfl
    exact ⟨⟨true, _, ⟨["out", "deep"]⟩, writing, path _, rfl, rfl⟩,
      ⟨false, _, checking, path _, rfl⟩⟩
  have fails : ∀ name ∈ ["list.yaml", "dated.yaml"],
      (run faultySetting ["validate", name]).exit ≠ 0 := by
    decide +kernel
  intro name mem
  obtain ⟨writing, checking⟩ := lines name mem
  obtain ⟨both, always⟩ := parsing_stage faultySetting
  obtain ⟨stops, same⟩ := both _ _ _ writing checking
  obtain ⟨⟨fault, -, both⟩, stderr, -, -, disk⟩ := same (stops.2 (fails name mem))
  have named : command? ["validate", name, "--output"] = some .validate := rfl
  exact ⟨writing, checking, fails name mem, ⟨fault, both⟩, stderr, disk, named, always _ named⟩

end CommandLine
end ApiManual
