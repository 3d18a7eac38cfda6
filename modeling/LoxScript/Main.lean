import Std.Time.DateTime.Timestamp
import LoxScript.CommandLine
import LoxScript.Tree.Requirements

/-!
# The program

Scripts run in a pure machine, so the files they may ask for are read
beforehand: `require` paths are fixed texts, and the sources they lead to are
searched for further ones.  What is left to do here is to read, to call the
command line, and to write.
-/

namespace LoxScript.Terminal

/-- What was found at the paths read so far. -/
abbrev Fetched := NameMap (Except ReadFailure ByteArray)

/-- The failure that an error of the operating system stands for. -/
def failureOf (error : IO.Error) : ReadFailure :=
  match error with
  | .noFileOrDirectory .. => .missing
  | .inappropriateType _ code _ =>
      if code = 21 then .isADirectory else .notADirectory
  | other => .other other.toString

/-- Reads the file at a path. -/
def readPath (path : String) : IO (Except ReadFailure ByteArray) := do
  try
    return .ok (← IO.FS.readBinFile path)
  catch error =>
    return .error (failureOf error)

/-- The places at which the paths that a source requires are looked for. -/
def placesFor (base : String) (source : ByteArray) : List String :=
  (Program.requirements source).flatMap fun path =>
    let full := Path.within base path
    [full, Path.addExtension full scriptExtension]

/-- Reads the files at all places, and at the places that those lead to. -/
partial def fetch (base : String) (known : Fetched) : List String → IO Fetched
  | [] => return known
  | place :: rest => do
      if known.contains place then fetch base known rest
      else
        let found ← readPath place
        let further := match found with
          | .ok source => placesFor base source
          | .error _ => []
        fetch base (known.insert place found) (rest ++ further)

/-- The files read so far as a disk. -/
def Fetched.disk (known : Fetched) : Disk := fun path =>
  (known.find? path).getD (.error .missing)

/-- More steps than a script takes in a lifetime. -/
def unlimited : Nat :=
  1000000000000000000

/-- The seconds since the start of 1970. -/
def presentTime : IO Float := do
  let now ← Std.Time.Timestamp.now
  return Float.ofInt now.toMillisecondsSinceUnixEpoch.val / 1000.0

/-- The world at this moment. -/
def presentWorld : IO World := do
  let seed ← IO.rand 0 1000000000000000000
  return {
    clock := ← presentTime
    entropy := fun index => (mixHash seed.toUInt64 index.toUInt64).toNat }

/-- The session with its clock set to this moment. -/
def atPresent (session : Session) : IO Session := do
  let now ← presentTime
  return session.updateWorld fun world => { world with clock := now }

/-- Waits as long as a run took by its own clock. -/
def catchUp (before after : Session) : IO Unit :=
  let seconds := after.machine.world.clock - before.machine.world.clock
  IO.sleep (seconds * 1000.0).toUInt32

/-- Reads one line with its line feed, byte by byte; nothing is left at the end
of the input. -/
partial def readLine (input : IO.FS.Stream) (line : ByteArray) :
    IO ByteArray := do
  let byte ← input.read 1
  if byte.isEmpty then return line
  else if byte.data[0]? = some Text.lineFeed then return line ++ byte
  else readLine input (line ++ byte)

/-- Writes what scripts and the prompt have printed since the last time. -/
def emit (output : IO.FS.Stream) (dialogue : Dialogue) : IO Dialogue := do
  output.write dialogue.replySink.written
  output.flush
  return dialogue.withReplySink {}

/-- Ends with a prompt's failure. -/
def endPrompt (error : PromptError) : IO UInt32 := do
  (← IO.getStderr).putStr (error.message ++ "\n")
  return CommandLine.inputExit.toUInt32

/-- Runs lines from the standard input as they come. -/
partial def converse (input output : IO.FS.Stream) (known : Fetched)
    (dialogue : Dialogue) : IO UInt32 := do
  let line ← readLine input .empty
  match Text.lines line with
  | [] => return 0
  | text :: _ =>
      if text.isEmpty then return 0
      else if !Dialogue.isText text then endPrompt .undecodable
      else
        let known ← fetch "" known (placesFor "" text)
        let session ← atPresent
          { dialogue.session with library := .ofDisk known.disk "" }
        let (result, after) := Dialogue.answer ⟨session, none⟩ unlimited text
        catchUp session after.session
        let shown ← emit output after
        match result with
        | .ok _ => converse input output known shown
        | .error error => endPrompt error

/-- Runs a prompt on the standard input and output. -/
def prompt (session : Session) : IO UInt32 := do
  let output ← IO.getStdout
  let (result, asked) := Dialogue.ask ⟨session, none⟩
  let shown ← emit output asked
  match result with
  | .ok _ => converse (← IO.getStdin) output NameMap.empty shown
  | .error error => endPrompt error

/-- Writes what a run of the program leaves behind. -/
def deliver (report : CommandLine.Report) : IO UInt32 := do
  let output ← IO.getStdout
  output.write report.stdout
  output.flush
  (← IO.getStderr).putStr report.stderr
  return report.exit.toUInt32

/-- Runs the program with the files it needs. -/
def start (arguments : List String) : IO UInt32 := do
  let world ← presentWorld
  match CommandLine.Command.ofArguments arguments with
  | .start options =>
      match options.script with
      | some script =>
          let known ← fetch (Path.parent script) NameMap.empty [script]
          let session := options.session known.disk world
          let (outcome, after) := session.runFile unlimited script
          catchUp session after
          deliver (CommandLine.scriptReport outcome after)
      | none => prompt (options.session (fun _ => .error .missing) world)
  | _ =>
      deliver (CommandLine.execute (fun _ => .error .missing) world 0
        arguments .empty)

end LoxScript.Terminal

/-- Runs the script given on the command line, or a prompt. -/
def main (arguments : List String) : IO UInt32 :=
  LoxScript.Terminal.start arguments
