import LoxScript.CommandLine.Similarity
import LoxScript.Session.Prompt

namespace LoxScript.CommandLine

/-!
# The command line

The program runs the script it is given, or a prompt when it is given none.
What it writes and the code it exits with follow from its arguments, the files
and its standard input alone.
-/

/-- The name of the program. -/
def programName : String :=
  "embedlox"

/-- The flags of the program, in the order in which usage lines list them. -/
inductive Flag where
  | help
  | noNatives
  | version
  | verbose
deriving Repr, DecidableEq

namespace Flag

/-- How messages write a flag. -/
def spelling : Flag → String
  | .help => "--help"
  | .noNatives => "--no-natives"
  | .version => "--version"
  | .verbose => "-v"

/-- The flag with a long name. -/
def ofLong? (name : String) : Option Flag :=
  match name with
  | "no-natives" => some .noNatives
  | "help" => some .help
  | "version" => some .version
  | _ => none

/-- The long names of flags. -/
def longNames : List String :=
  ["no-natives", "help", "version"]

/-- The flag with a letter. -/
def ofLetter? (letter : Char) : Option Flag :=
  match letter with
  | 'h' => some .help
  | 'V' => some .version
  | 'v' => some .verbose
  | _ => none

end Flag

/-- What the arguments read so far ask for. -/
structure Options where
  verbosity : Nat := 0
  /-- How often natives were switched off. -/
  noNatives : Nat := 0
  script : Option String := none
  /-- All further arguments are positional. -/
  positionalOnly : Bool := false
deriving Repr, DecidableEq

/-- What the program is to do. -/
inductive Command where
  | showHelp
  | showVersion
  | refuse (message : String)
  | start (options : Options)
deriving Repr, DecidableEq

/-- The usage line for arguments that are wrong in themselves. -/
def generalUsage : String :=
  programName ++ " [FLAGS] [script]"

/-- The usage line after some flags were understood. -/
def usageAfter (flags : List Flag) : String :=
  if flags.isEmpty then generalUsage
  else String.intercalate " " (programName :: flags.map Flag.spelling)

/-- The flags understood so far, one of which may only have been suggested. -/
def Options.flags (options : Options) (suggested : Option Flag) : List Flag :=
  [.help, .noNatives, .version, .verbose].filter fun flag =>
    suggested = some flag
      || (flag = .noNatives && 0 < options.noNatives)
      || (flag = .verbose && 0 < options.verbosity)

/-- The refusal of the arguments for a reason. -/
def refusal (reason usage : String) : Command :=
  .refuse ("error: " ++ reason ++ "\n\nUSAGE:\n    " ++ usage
    ++ "\n\nFor more information try --help")

/-- A piece of text in green, as suggestions are shown. -/
def green (text : String) : String :=
  "\x1b[32m" ++ text ++ "\x1b[0m"

/-- The refusal of an argument that is not understood. -/
def unexpected (options : Options) (argument : String)
    (suggested : Option String) : Command :=
  let suggestion := match suggested with
    | some name => "\n\tDid you mean " ++ green "--" ++ green name ++ "?"
    | none => ""
  refusal
    ("Found argument '" ++ argument
      ++ "' which wasn't expected, or isn't valid in this context"
      ++ suggestion)
    (usageAfter (options.flags (suggested.bind Flag.ofLong?)))

/-- The refusal of a flag that may be given once only. -/
def repeated (options : Options) (flag : Flag) : Command :=
  refusal
    ("The argument '" ++ flag.spelling
      ++ "' was provided more than once, but cannot be used multiple times")
    (usageAfter (options.flags none))

/-- Takes in a flag; some flags settle at once what is to be done. -/
def takeFlag (options : Options) : Flag → Except Command Options
  | .help => .error .showHelp
  | .version => .error .showVersion
  | .noNatives => .ok { options with noNatives := options.noNatives + 1 }
  | .verbose => .ok { options with verbosity := options.verbosity + 1 }

/-- Takes in a flag by its long name; a value after an equals sign is
ignored. -/
def takeLong (options : Options) (argument : List Char) :
    Except Command Options :=
  let name := String.ofList ((argument.dropWhile (· = '-')).takeWhile (· ≠ '='))
  match Flag.ofLong? name with
  | some flag => takeFlag options flag
  | none =>
      .error (unexpected options ("--" ++ name)
        (Similarity.closest? name Flag.longNames))

/-- Takes in flags by their letters. -/
def takeLetters : Options → List Char → Except Command Options
  | options, [] => .ok options
  | options, letter :: rest =>
      match Flag.ofLetter? letter with
      | some flag => do
          let taken ← takeFlag options flag
          takeLetters taken rest
      | none => .error (unexpected options (String.ofList ['-', letter]) none)

/-- Takes in an argument that is not a flag. -/
def takePositional (options : Options) (argument : String) :
    Except Command Options :=
  match options.script with
  | none => .ok { options with script := some argument }
  | some _ => .error (unexpected options argument none)

/-- Takes in one argument. -/
def takeArgument (options : Options) (argument : String) :
    Except Command Options :=
  if options.positionalOnly then takePositional options argument
  else
    match argument.toList with
    | ['-', '-'] => .ok { options with positionalOnly := true }
    | '-' :: '-' :: rest => takeLong options ('-' :: '-' :: rest)
    | '-' :: letter :: rest => takeLetters options (letter :: rest)
    | _ => takePositional options argument

/-- What the arguments ask for. -/
def Command.ofArguments (arguments : List String) : Command :=
  match arguments.foldlM takeArgument {} with
  | .error command => command
  | .ok options =>
      if 1 < options.noNatives then repeated options .noNatives
      else .start options

/-- The answer to a question for the version. -/
def versionText : String :=
  programName ++ " \n"

/-- The lines of the answer to a question for help. -/
def helpLines : List String :=
  [programName ++ " ",
    "Runs Lox scripts, or an interactive prompt when no script is given",
    "",
    "USAGE:",
    "    " ++ generalUsage,
    "",
    "FLAGS:",
    "    -h, --help          Prints help information",
    "        --no-natives    Starts without clock, sleep and randN",
    "    -V, --version       Prints version information",
    "    -v                  Raises log verbosity, overriding RUST_LOG",
    "",
    "ARGS:",
    "    <script>    Script to run"]

/-- The answer to a question for help. -/
def helpText : String :=
  String.join (helpLines.map (· ++ "\n"))

/-- The exit code for arguments that are not understood. -/
def usageExit : Nat :=
  64

/-- The exit code for a source that is rejected. -/
def dataExit : Nat :=
  65

/-- The exit code for a script that fails. -/
def softwareExit : Nat :=
  70

/-- The exit code for a file or stream that cannot be read. -/
def inputExit : Nat :=
  74

/-- The exit code of a failed run. -/
def exitCode (error : RunError) : Nat :=
  match error with
  | .rejected _ => dataExit
  | .unreadable _ _ => inputExit
  | _ => softwareExit

/-- What a run of the program leaves behind. -/
structure Report where
  exit : Nat
  stdout : ByteArray
  stderr : String

/-- The session that the options ask for. -/
def Options.session (options : Options) (disk : Disk) (world : World) :
    Session :=
  if options.noNatives = 0 then .standard disk {} world else .bare disk {} world

/-- What a script's run leaves behind, given how it ended and the session after
it. -/
def scriptReport (outcome : Outcome) (after : Session) : Report :=
  let stdout := after.machine.output.written
  match outcome with
  | .finished => ⟨0, stdout, ""⟩
  | .failed error => ⟨exitCode error, stdout, error.message ++ "\n"⟩
  | .exhausted => ⟨softwareExit, stdout, "out of steps\n"⟩

/-- Runs a script. -/
def runScript (session : Session) (steps : Nat) (script : String) : Report :=
  let (outcome, after) := session.runFile steps script
  scriptReport outcome after

/-- Runs a prompt that replies where scripts print. -/
def runPrompt (session : Session) (steps : Nat) (stdin : ByteArray) : Report :=
  let (result, after) := Dialogue.run ⟨session, none⟩ steps stdin
  let stdout := after.session.machine.output.written
  match result with
  | .ok _ => ⟨0, stdout, ""⟩
  | .error error => ⟨inputExit, stdout, error.message ++ "\n"⟩

/-- What the program does with its arguments, files and standard input. -/
def execute
    (disk : Disk)
    (world : World)
    (steps : Nat)
    (arguments : List String)
    (stdin : ByteArray) : Report :=
  match Command.ofArguments arguments with
  | .showHelp => ⟨0, helpText.toUTF8, ""⟩
  | .showVersion => ⟨0, versionText.toUTF8, ""⟩
  | .refuse message => ⟨usageExit, .empty, message ++ "\n"⟩
  | .start options =>
      let session := options.session disk world
      match options.script with
      | some script => runScript session steps script
      | none => runPrompt session steps stdin

end LoxScript.CommandLine
