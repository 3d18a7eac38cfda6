import LoxScript.Proofs.Counterpart.Sessions
import LoxScript.Proofs.Direct.Runs
import LoxScript.Proofs.Session.Course

namespace LoxScript

/-!
# Sessions with frames for iterations and without

Sessions are run here by any interpreter: by what compiles their sources and
what executes their statements.  Whatever its host does, a session that is run
directly has the outcomes of one that is run as ever, writes the same, and holds
the same variables and fields.
-/

open Run

/-- What compiles sources, and executes statements within a number of steps. -/
structure Interpreter where
  compile : Machine → ByteArray → Except StaticError Program × Machine
  exec : Context → Nat → Stmt → Run Flow

/-- The interpreter of programs. -/
def Interpreter.usual : Interpreter :=
  ⟨Machine.compile, LoxScript.exec⟩

/-- The interpreter in which iterations have neither scopes nor frames of their
own. -/
def Interpreter.direct (iterations : Iterations) : Interpreter :=
  ⟨Machine.compileDirectly iterations, fun context steps =>
    (Evaluator.direct iterations context steps).exec⟩

/-- Runs top-level statements, looking before each whether to stop. -/
def runStatementsBy
    (exec : Stmt → Run Flow)
    (stopping : Stopping) : List Stmt → Machine → Outcome × Machine
  | [], machine => (.finished, machine)
  | first :: rest, machine =>
      if stopping.stops machine.world then (.failed .cancelled, machine)
      else
        match exec first machine with
        | .ok .normal after => runStatementsBy exec stopping rest after
        | .ok (.returned _) after => (.finished, after)
        | .error (.failed error) after => (.failed (.runtime error), after)
        | .error .exhausted after => (.exhausted, after)

/-- Executed as ever, statements are run as ever. -/
theorem runStatementsBy_exec
    (context : Context)
    (stopping : Stopping)
    (steps : Nat)
    (statements : List Stmt)
    (machine : Machine) :
    runStatementsBy (exec context steps) stopping statements machine =
      runStatements context stopping steps statements machine := by
  induction statements generalizing machine with
  | nil => rfl
  | cons first rest inductionHypothesis =>
      unfold runStatementsBy runStatements
      split
      · rfl
      · cases exec context steps first machine with
        | ok flow after =>
            cases flow with
            | normal => exact inductionHypothesis after
            | returned value => rfl
        | error halt after => cases halt <;> rfl

namespace Session

section By

variable (interpreter : Interpreter) (session : Session)

/-- Runs a source by an interpreter. -/
def runBy (stopping : Stopping) (steps : Nat) (source : ByteArray) :
    Outcome × Session :=
  match interpreter.compile session.machine source with
  | (.error error, machine) =>
      (.failed (.rejected error), { session with machine := machine })
  | (.ok program, machine) =>
      let (outcome, after) :=
        runStatementsBy (interpreter.exec session.context steps) stopping
        program.statements
          (prepared { session with machine := machine } program)
      (flushed outcome after.output, { session with machine := after })

/-- Runs the script at a path by an interpreter. -/
def runFileBy (steps : Nat) (path : String) : Outcome × Session :=
  match session.disk path with
  | .error failure => (.failed (.unreadable path failure), session)
  | .ok source =>
      (session.beside path).runBy interpreter .unheeding steps source

/-- The session after an action of its host, where an interpreter runs what is
run. -/
def performBy : HostAction → Session
  | .run stopping steps source =>
      (session.runBy interpreter stopping steps source).2
  | .runFile steps path => (session.runFileBy interpreter steps path).2
  | action => session.perform action

/-- How a run by an interpreter ends, if the action runs something. -/
def outcomeBy? : HostAction → Option Outcome
  | .run stopping steps source =>
      some (session.runBy interpreter stopping steps source).1
  | .runFile steps path => some (session.runFileBy interpreter steps path).1
  | _ => none

/-- The session after actions of its host, one after another. -/
def performAllBy (actions : List HostAction) : Session :=
  actions.foldl (performBy interpreter) session

end By

section Usual

variable (session : Session)

/-- The interpreter of programs runs sources as ever. -/
theorem runBy_usual
    (stopping : Stopping)
    (steps : Nat)
    (source : ByteArray) :
    session.runBy .usual stopping steps source =
      session.run stopping steps source := by
  simp only [runBy, Interpreter.usual, runStatementsBy_exec]
  rfl

/-- It runs scripts as ever. -/
theorem runFileBy_usual
    (steps : Nat)
    (path : String) :
    session.runFileBy .usual steps path = session.runFile steps path := by
  simp only [runFileBy, runBy_usual]
  rfl

/-- So all that a host does is as ever. -/
theorem performBy_usual
    (action : HostAction) :
    session.performBy .usual action = session.perform action := by
  cases action with
  | run stopping steps source =>
      exact congrArg Prod.snd (runBy_usual session stopping steps source)
  | runFile steps path =>
      exact congrArg Prod.snd (runFileBy_usual session steps path)
  | _ => rfl

/-- The outcomes are as ever. -/
theorem outcomeBy?_usual
    (action : HostAction) :
    session.outcomeBy? .usual action = session.outcome? action := by
  cases action with
  | run stopping steps source =>
      exact congrArg (fun result => some result.1)
        (runBy_usual session stopping steps source)
  | runFile steps path =>
      exact congrArg (fun result => some result.1)
        (runFileBy_usual session steps path)
  | _ => rfl

/-- After whatever its host has done, the session is as ever. -/
theorem performAllBy_usual
    (actions : List HostAction) :
    session.performAllBy .usual actions = session.performAll actions := by
  unfold performAllBy performAll
  rw [funext fun session => funext (performBy_usual session)]

end Usual

end Session

section Runs

variable {iterations : Iterations} {offered : ByteArray → Prop}
  {context : Context}
variable {machine image : Machine}

/-- Defining a global variable keeps frames and nodes. -/
theorem Machine.retains_defineGlobal
    (machine : Machine)
    (name : String)
    (value : Value) :
    machine.Retains (machine.defineGlobal name value) :=
  Machine.respected_retains.inFrame globalFrame
    (Machine.respected_retains.change
      (.define { machine with active := globalFrame } name value))

/-- Natives are defined alike. -/
theorem Machine.Folded.defineNatives
    {host : List HostNative}
    (folded : machine.Folded iterations image host)
    (natives : List Native) :
    Machine.Passes iterations host machine image
      (Session.defineNatives natives machine)
      (Session.defineNatives natives image) := by
  induction natives generalizing machine image with
  | nil => exact folded.stay
  | cons native rest inductionHypothesis =>
      have isNative : (Value.native native).Hosted iterations machine image :=
        trivial
      have defines :=
        folded.pass (machine.retains_defineGlobal native.name (.native native))
        (image.retains_defineGlobal native.name (.native native))
        (folded.store.define (.inl rfl) native.name (.native native))
          folded.output folded.world
        folded.requiring folded.nextNode folded.filed
        (folded.holds.define isNative globalFrame native.name)
      exact defines.trans (inductionHypothesis defines.folded)

/-- Located statements that are hosted run alike. -/
theorem runStatements_folds
    {statements : List Stmt}
    (stopping : Stopping)
    (steps : Nat)
    (sound : machine.Sound offered context)
    (located : machine.Located offered (.stmts statements))
    (folded : machine.Folded iterations image context.natives)
    (hosted : (Part.stmts statements).Hosted iterations machine image) :
    (runStatementsBy (Evaluator.direct iterations context steps).exec stopping
      statements image).1 =
        (runStatements context stopping steps statements machine).1 ∧
      Machine.Passes iterations context.natives machine image
        (runStatements context stopping steps statements machine).2
        (runStatementsBy (Evaluator.direct iterations context steps).exec
          stopping statements image).2 := by
  induction statements generalizing machine image with
  | nil => exact ⟨rfl, folded.stay⟩
  | cons first rest inductionHypothesis =>
      have isFirst := located.included .firstStmt
      obtain ⟨hostedFirst, hostedRest⟩ := hosted.stmts
      have coincide := (concurs_always offered iterations context steps).task
        (.exec first) sound isFirst folded hostedFirst
      simp only [runStatements, runStatementsBy, folded.world]
      split
      · exact ⟨rfl, folded.stay⟩
      · cases outcome : exec context steps first machine with
        | ok flow after =>
            obtain ⟨flowImage, afterImage, outcomeImage, same, passes, -⟩ :=
              Mirrors.ok coincide outcome
            cases same
            have outcomeHere : (Evaluator.direct iterations context steps).exec
                first image =
                .ok flow afterImage := outcomeImage
            rw [outcomeHere]
            cases flow with
            | normal =>
                obtain ⟨advances, -, declares⟩ :=
                  (works_always offered context steps).exec_ok sound
                    isFirst outcome
                obtain ⟨outcomes, further⟩ := inductionHypothesis advances.sound
                  (located_rest located advances.precedes (declares rfl))
                  passes.folded
                  (hostedRest.later folded passes)
                exact ⟨outcomes, passes.trans further⟩
            | returned value => exact ⟨rfl, passes⟩
        | error halt after =>
            obtain ⟨haltImage, afterImage, outcomeImage, same, passes⟩ :=
              Mirrors.error coincide outcome
            cases same
            have outcomeHere : (Evaluator.direct iterations context steps).exec
                first image =
                .error halt afterImage := outcomeImage
            rw [outcomeHere]
            cases halt <;> exact ⟨rfl, passes⟩

end Runs

/-- Sessions of one host whose machines hold the same. -/
structure Session.Folded (iterations : Iterations) (session image : Session) :
    Prop where
  machine : session.machine.Folded iterations image.machine session.natives
  active : image.machine.active = session.machine.active
  natives : image.natives = session.natives
  registered : image.registered = session.registered
  library : image.library = session.library
  ownLibrary : image.ownLibrary = session.ownLibrary
  disk : image.disk = session.disk

namespace Session

variable {iterations : Iterations} {offered : ByteArray → Prop}
  {session image : Session}

/-- A session and its image differ in their machines only. -/
theorem Folded.image_eq
    (folded : session.Folded iterations image) :
    image = { session with machine := image.machine } := by
  obtain ⟨machine, natives, registered, library, ownLibrary, disk⟩ := image
  obtain ⟨-, -, rfl, rfl, rfl, rfl, rfl⟩ := folded
  rfl

/-- The image with another machine after the session's machine has changed. -/
theorem Folded.passed
    {after afterImage : Machine}
    (folded : session.Folded iterations image)
    (passes :
      Machine.Passes iterations session.natives session.machine image.machine
        after afterImage) :
    Session.Folded iterations { session with machine := after }
      { image with machine := afterImage } := by
  refine { folded with machine := passes.folded, active := ?_ }
  exact passes.retainsImage.extend.active.trans
    (folded.active.trans passes.retains.extend.active.symm)

/-- A source is run alike. -/
theorem Folded.run
    (folded : session.Folded iterations image)
    (sound : session.Sound offered)
    {source : ByteArray}
    (isOffered : offered source)
    (stopping : Stopping)
    (steps : Nat) :
    (image.runBy (.direct iterations) stopping steps source).1 =
        (session.run stopping steps source).1 ∧
      (session.run stopping steps source).2.Folded iterations
        (image.runBy (.direct iterations) stopping steps source).2 := by
  obtain ⟨other, rfl⟩ : ∃ other, image = { session with machine := other } :=
    ⟨_, folded.image_eq⟩
  have machines : session.machine.Folded iterations other session.natives :=
    folded.machine
  have rises := Program.compile_rises source session.machine.nextNode
  rcases Program.folds_compile iterations source session.machine.nextNode with
    ⟨error, next, rejected, rejectedImage⟩ |
      ⟨program, direct, next, accepted, acceptedImage, programs⟩
  · rw [rejected] at rises
    have compiles : session.machine.compile source =
        (.error error, { session.machine with nextNode := next }) := by
      simp only [Machine.compile, rejected]
    have compilesImage : other.compileDirectly iterations source =
        (.error error, { other with nextNode := next }) := by
      simp only [Machine.compileDirectly, machines.nextNode, rejectedImage]
    simp only [runBy, Interpreter.direct, Session.run, compiles, compilesImage]
    exact ⟨trivial, folded.passed (machines.reject rises)⟩
  · have compiles : session.machine.compile source =
        (.ok program, { session.machine with nextNode := next }) := by
      simp only [Machine.compile, accepted]
    have compilesImage : other.compileDirectly iterations source =
        (.ok direct, { other with nextNode := next }) := by
      simp only [Machine.compileDirectly, machines.nextNode, acceptedImage]
    obtain ⟨soundStart, -, located⟩ := sound.prepared isOffered compiles
    obtain ⟨loads, guides⟩ :=
      machines.load sound.machine.unfiled accepted programs
    have defines := loads.folded.defineNatives session.registered.values
    have starts := loads.trans defines
    have hosted : (Part.stmts program.statements).Hosted iterations
        (defineNatives session.registered.values
          (session.machine.load program next))
        (defineNatives session.registered.values (other.load direct next)) := by
      have nothing : Marks.here [] = true →
          (Part.stmts program.statements).declared = [] :=
        fun isHere => by cases isHere
      refine ⟨[], ?_, fun use member => defines.guides loads.folded
        (guides use member), nothing⟩
      unfold Machine.Stationed
      rw [starts.retains.extend.active.trans sound.active,
        starts.retainsImage.extend.active.trans
          (folded.active.trans sound.active)]
      exact .global
    obtain ⟨outcomes, further⟩ :=
      runStatements_folds stopping steps soundStart located starts.folded hosted
    simp only [runBy, Interpreter.direct, Session.run, compiles, compilesImage,
      programs.statements]
    refine ⟨?_, folded.passed (starts.trans further)⟩
    exact congrArg₂ flushed outcomes further.folded.output

/-- A script is run alike. -/
theorem Folded.runFile
    (folded : session.Folded iterations image)
    (sound : session.Sound offered)
    (steps : Nat)
    (path : String) :
    (image.runFileBy (.direct iterations) steps path).1 =
      (session.runFile steps path).1 ∧
      (session.runFile steps path).2.Folded iterations
        (image.runFileBy (.direct iterations) steps path).2 := by
  obtain ⟨other, rfl⟩ : ∃ other, image = { session with machine := other } :=
    ⟨_, folded.image_eq⟩
  unfold Session.runFile runFileBy
  dsimp only
  cases onDisk : session.disk path with
  | error failure => exact ⟨rfl, folded⟩
  | ok source =>
      have isOffered := sound.disk path source onDisk
      dsimp only [beside]
      split
      · exact folded.run sound isOffered .unheeding steps
      · let beside : Library := .ofDisk session.disk (Path.parent path)
        have placed : Session.Folded iterations
            { session with library := beside }
            { session with machine := other, library := beside } :=
          { folded with library := rfl }
        have soundBeside :
            Session.Sound offered { session with library := beside } :=
          ⟨sound.machine.inContext (fun other required found =>
            sound.disk _ required found)
            fun _ => .inl, sound.active, sound.disk⟩
        exact placed.run soundBeside isOffered .unheeding steps

/-- What an action of the host runs ends alike. -/
theorem Folded.outcome
    (folded : session.Folded iterations image)
    (sound : session.Sound fun _ => True)
    (action : HostAction) :
    image.outcomeBy? (.direct iterations) action = session.outcome? action := by
  cases action with
  | run stopping steps source =>
      exact congrArg some (folded.run sound trivial stopping steps).1
  | runFile steps path =>
      exact congrArg some (folded.runFile sound steps path).1
  | _ => rfl

/-- Whatever the host does, the sessions hold the same afterwards. -/
theorem Folded.perform
    {action : HostAction}
    (folded : session.Folded iterations image)
    (sound : session.Sound fun _ => True)
    (lends : ∀ key native, action = .register key native →
      native.Lends session.machine) :
    (session.perform action).Folded iterations
      (image.performBy (.direct iterations) action) := by
  cases action with
  | run stopping steps source =>
      exact (folded.run sound trivial stopping steps).2
  | runFile steps path => exact (folded.runFile sound steps path).2
  | register key native =>
      obtain ⟨other, rfl⟩ : ∃ other,
          image = { session with machine := other } :=
        ⟨_, folded.image_eq⟩
      refine ⟨{ folded.machine with natives := ?_ }, folded.active, rfl, rfl,
        rfl, rfl, rfl⟩
      intro host member arguments world value after yields
      rcases List.mem_append.mp member with earlier | added
      · exact folded.machine.natives host earlier arguments world
          value after yields
      · rw [List.mem_singleton.mp added] at yields
        rcases lends key native rfl arguments world value after yields with
          isAtom | passed | ⟨frame, name, found⟩
        · exact .inl isAtom
        · exact .inr (.inl passed)
        · exact .inr (.inr (folded.machine.holds.values frame name value found))
  | withLibrary library =>
      exact { folded with library := rfl, ownLibrary := rfl }
  | withOutput output =>
      exact { folded with machine := { folded.machine with output := rfl } }
  | updateWorld change =>
      have worlds := congrArg change folded.machine.world
      exact { folded with machine := { folded.machine with world := worlds } }

/-- A session that lives goes on to live whatever its host does. -/
theorem Lives.perform
    {action : HostAction}
    (lives : session.Lives fun _ => True)
    (lends : ∀ key native, action = .register key native →
      native.Lends session.machine) :
    (session.perform action).Lives fun _ => True := by
  cases action with
  | register key native => exact lives.register (lends key native rfl)
  | withLibrary library => exact lives.withLibrary fun _ _ _ => trivial
  | withOutput output => exact lives.withOutput
  | updateWorld change => exact lives.updateWorld
  | run stopping steps source => exact lives.run trivial
  | runFile steps path => exact lives.runFile

/-- After whatever the host has done, the sessions hold the same. -/
theorem Folded.performAll
    {actions : List HostAction}
    (folded : session.Folded iterations image)
    (lives : session.Lives fun _ => True)
    (lends : session.Lends actions) :
    (session.performAll actions).Folded iterations
        (image.performAllBy (.direct iterations) actions) ∧
      (session.performAll actions).Lives fun _ => True := by
  induction actions generalizing session image with
  | nil => exact ⟨folded, lives⟩
  | cons action rest inductionHypothesis =>
      exact inductionHypothesis (folded.perform lives.sound lends.1)
        (lives.perform lends.1) lends.2

/-- At first they hold nothing. -/
theorem folded_bare
    (iterations : Iterations)
    (disk : Disk)
    (output : Sink)
    (world : World) :
    (bare disk output world).Folded iterations (bare disk output world) := by
  have store : Store.initial.Folded Store.initial :=
    ⟨Nat.zero_lt_one, rfl, fun _ _ => rfl, rfl, rfl,
      fun frame _ _ name => Store.lookup?_initial frame name⟩
  exact ⟨⟨store, rfl, rfl, rfl, rfl, fun _ => Iff.rfl, .initial _, nofun⟩, rfl,
    rfl, rfl, rfl, rfl, rfl⟩

end Session

end LoxScript
