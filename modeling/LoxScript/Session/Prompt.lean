import LoxScript.Session
import LoxScript.Text.Lines

namespace LoxScript

/-!
# The prompt

A prompt reads lines and runs each as a source of its own, until an empty line
or the end of the input.  An error in a line is shown on the console and does
not end the prompt; a line that is not text, or a console that fails, does.
-/

/-- Why a prompt ends before its input. -/
inductive PromptError where
  | undecodable
  | console (fault : SinkFault)
  | exhausted
deriving Repr, DecidableEq

/-- The wording of a prompt's failure. -/
def PromptError.message : PromptError → String
  | .undecodable => "stream did not contain valid UTF-8"
  | .console fault => fault.message
  | .exhausted => "out of steps"

/-- A prompt part way through its input.  Without a console of its own, it
replies where scripts print. -/
structure Dialogue where
  session : Session
  console : Option Sink

namespace Dialogue

/-- The sink that replies go to. -/
def replySink (dialogue : Dialogue) : Sink :=
  dialogue.console.getD dialogue.session.machine.output

/-- The dialogue with another state of the sink that replies go to. -/
def withReplySink (dialogue : Dialogue) (sink : Sink) : Dialogue :=
  match dialogue.console with
  | some _ => { dialogue with console := some sink }
  | none => { dialogue with session := dialogue.session.withOutput sink }

/-- Writes a text on the console. -/
def reply (dialogue : Dialogue) (text : String) :
    Except PromptError Unit × Dialogue :=
  let bytes := text.toUTF8
  let sink := dialogue.replySink
  let after := dialogue.withReplySink (sink.append bytes)
  match sink.writeFault? bytes.size with
  | some fault => (.error (.console fault), after)
  | none => (.ok (), after)

/-- The mark that asks for a line. -/
def mark : String :=
  "> "

/-- Asks for a line. -/
def ask (dialogue : Dialogue) : Except PromptError Unit × Dialogue :=
  match dialogue.reply mark with
  | (.error error, after) => (.error error, after)
  | (.ok (), after) =>
      match after.replySink.flushFault? with
      | some fault => (.error (.console fault), after)
      | none => (.ok (), after)

/-- Runs one line, shows its error if it has one, and asks for the next. -/
def answer (dialogue : Dialogue) (steps : Nat) (line : ByteArray) :
    Except PromptError Unit × Dialogue :=
  let (outcome, session) := dialogue.session.run .unheeding steps line
  let after := { dialogue with session := session }
  match outcome with
  | .finished => after.ask
  | .exhausted => (.error .exhausted, after)
  | .failed error =>
      match after.reply (error.message ++ "\n") with
      | (.error failure, shown) => (.error failure, shown)
      | (.ok (), shown) => shown.ask

/-- Whether the bytes of a line are text. -/
def isText (line : ByteArray) : Bool :=
  match Text.Utf8.decode line with
  | .ok _ => true
  | .error _ => false

/-- Runs lines until one is empty. -/
def answerAll (steps : Nat) :
    List ByteArray → Dialogue → Except PromptError Unit × Dialogue
  | [], dialogue => (.ok (), dialogue)
  | line :: rest, dialogue =>
      if !isText line then (.error .undecodable, dialogue)
      else if line.isEmpty then (.ok (), dialogue)
      else
        match dialogue.answer steps line with
        | (.error error, after) => (.error error, after)
        | (.ok (), after) => answerAll steps rest after

/-- Runs a prompt on a whole input. -/
def run (dialogue : Dialogue) (steps : Nat) (input : ByteArray) :
    Except PromptError Unit × Dialogue :=
  match dialogue.ask with
  | (.error error, after) => (.error error, after)
  | (.ok (), after) => answerAll steps (Text.lines input) after

end Dialogue

end LoxScript
