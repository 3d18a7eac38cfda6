import LoxScript.Machine.Evaluation
import LoxScript.Host.Standard

namespace LoxScript

/-!
# Sessions

A session runs one source after another on the same machine: variables,
functions and classes of earlier runs are there for later ones.  The natives
that the host registered are defined anew before each run.
-/

/-- How a run ends. -/
inductive Outcome where
  | finished
  | failed (error : RunError)
  | exhausted

/-- Whether a run stops when the host or a native asks for it. -/
inductive Stopping where
  | heeding
  | unheeding
deriving Repr, DecidableEq

/-- Whether a run stops before its next statement. -/
def Stopping.stops (stopping : Stopping) (world : World) : Bool :=
  match stopping with
  | .heeding => world.cancelled
  | .unheeding => false

/-- Runs the top-level statements of a program, looking before each whether to
stop. -/
def runStatements
    (context : Context)
    (stopping : Stopping)
    (steps : Nat) : List Stmt → Machine → Outcome × Machine
  | [], machine => (.finished, machine)
  | first :: rest, machine =>
      if stopping.stops machine.world then (.failed .cancelled, machine)
      else
        match exec context steps first machine with
        | .ok .normal after => runStatements context stopping steps rest after
        | .ok (.returned _) after => (.finished, after)
        | .error (.failed error) after => (.failed (.runtime error), after)
        | .error .exhausted after => (.exhausted, after)

/-- The outcome of a run after its output is flushed: a failing flush counts
before the run's own failure. -/
def flushed (outcome : Outcome) (output : Sink) : Outcome :=
  match outcome, output.flushFault? with
  | .exhausted, _ => .exhausted
  | _, some fault => .failed (.runtime (.output fault))
  | other, none => other

/-- A session with its machine and what the host lends it. -/
structure Session where
  machine : Machine
  /-- The natives of the host, by slot. -/
  natives : List HostNative
  /-- The natives to define before each run, by the key they were registered
  under. -/
  registered : NameMap Native
  library : Library
  /-- The library was chosen by the host, and scripts run from files keep it. -/
  ownLibrary : Bool
  disk : Disk

namespace Session

/-- A session without natives, which looks for required sources on the disk. -/
def bare (disk : Disk) (output : Sink) (world : World) : Session :=
  { machine := .initial output world
    natives := []
    registered := NameMap.empty
    library := .ofDisk disk ""
    ownLibrary := false
    disk := disk }

/-- What the session's programs run with. -/
def context (session : Session) : Context :=
  ⟨session.natives, session.library⟩

/-- Gives a native a slot of its own. -/
def addNative (session : Session) (native : HostNative) : Native × Session :=
  let slot := session.natives.length
  (native.value slot, { session with natives := session.natives ++ [native] })

/-- Registers a native under a key, in place of one that was there before. -/
def register (session : Session) (key : String) (native : HostNative) :
    Session :=
  let (value, extended) := session.addNative native
  { extended with registered := session.registered.insert key value }

/-- Registers natives under their keys, one after another. -/
def registerAll (session : Session) (natives : List (String × HostNative)) :
    Session :=
  natives.foldl (fun session entry => session.register entry.1 entry.2) session

/-- A session with the standard natives. -/
def standard (disk : Disk) (output : Sink) (world : World) : Session :=
  (bare disk output world).registerAll Standard.natives

/-- Makes required sources come from a library of the host. -/
def withLibrary (session : Session) (library : Library) : Session :=
  { session with library := library, ownLibrary := true }

/-- Defines natives under their names. -/
def defineNatives (natives : List Native) (machine : Machine) : Machine :=
  natives.foldl
    (fun machine native => machine.defineGlobal native.name (.native native))
    machine

/-- Runs a program that is ready. -/
def runProgram
    (session : Session)
    (stopping : Stopping)
    (steps : Nat)
    (program : Program) : Outcome × Session :=
  let ready :=
    defineNatives session.registered.values
      (session.machine.learn program.distances)
  let (outcome, after) :=
    runStatements session.context stopping steps program.statements ready
  (flushed outcome after.output, { session with machine := after })

/-- Runs a source. -/
def run
    (session : Session)
    (stopping : Stopping)
    (steps : Nat)
    (source : ByteArray) : Outcome × Session :=
  match session.machine.compile source with
  | (.error error, machine) =>
      (.failed (.rejected error), { session with machine := machine })
  | (.ok program, machine) =>
      runProgram { session with machine := machine } stopping steps program

/-- Runs the script at a path.  Unless the host chose a library, required
sources are then looked for beside the script. -/
def runFile (session : Session) (steps : Nat) (path : String) :
    Outcome × Session :=
  match session.disk path with
  | .error failure => (.failed (.unreadable path failure), session)
  | .ok source =>
      let placed :=
        if session.ownLibrary then session
        else { session with library := .ofDisk session.disk (Path.parent path) }
      placed.run .unheeding steps source

/-- The value of a global variable. -/
def global? (session : Session) (name : String) : Option Value :=
  session.machine.global? name

/-- The session with another sink for its output. -/
def withOutput (session : Session) (output : Sink) : Session :=
  { session with machine := { session.machine with output := output } }

/-- The session with the world changed. -/
def updateWorld (session : Session) (change : World → World) : Session :=
  { session with
    machine := { session.machine with world := change session.machine.world } }

end Session

end LoxScript
