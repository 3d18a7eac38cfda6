import LoxScript.Proofs.Counterpart.Runs
import LoxScript.Proofs.Session.Restoration
import LoxScript.Proofs.Session.Life

namespace LoxScript

/-!
# Running sources in counterparts

A machine of a session that has lived is its own counterpart, and stays one when
only one side hands out more identities or loads another program.  Sessions with
counterparts as machines run every source alike, and whatever their host does
they stay counterparts.
-/

variable {lines : Int} {kept : Function → Prop} {machine image base : Machine}

/-- All nodes of the function have been handed out. -/
def Machine.Numbered (machine : Machine) (function : Function) : Prop :=
  ∀ node ∈ function.declaration.references, node.id < machine.nextNode

section SelfCounterparts

variable {offered : ByteArray → Prop} {context : Context}

/-- The nodes of every part of a program are handed out with the program. -/
theorem Program.Compiled.handed_of_places
    {program : Program}
    {first next : NodeId}
    {part : Part}
    {scopes : List Scope}
    (compiled : program.Compiled first next)
    (places : program.Places part scopes) :
    ∀ node ∈ part.references, first ≤ node.id ∧ node.id < next := by
  obtain ⟨analysis, visits, -⟩ := places
  obtain ⟨final, -, reached⟩ := compiled.reached visits
  exact fun node member =>
    compiled.handed.within node (reached.references.subset member)

/-- The nodes of every part of a program that the machine knows have been handed
out. -/
theorem Machine.Knows.numbered
    {program : Program}
    {part : Part}
    {scopes : List Scope}
    (knows : machine.Knows offered program)
    (places : program.Places part scopes) :
    ∀ node ∈ part.references, node.id < machine.nextNode := by
  obtain ⟨source, first, next, -, accepted, handed, -⟩ := knows
  intro node member
  obtain ⟨-, below⟩ :=
    (Program.compiled_of_compile accepted).handed_of_places places node member
  exact Nat.lt_of_lt_of_le below handed

/-- All nodes of sound functions have been handed out. -/
theorem Function.Sound.numbered
    {function : Function}
    (sound : function.Sound offered machine) :
    machine.Numbered function := by
  obtain ⟨program, scopes, knows, places, -⟩ := sound
  exact knows.numbered places

/-- All nodes of sound methods have been handed out. -/
theorem Function.SoundMethod.numbered
    {method : Function}
    (sound : method.SoundMethod offered machine) :
    machine.Numbered method := by
  obtain ⟨program, outer, knows, places, -⟩ := sound
  exact knows.numbered places

/-- A function whose nodes have been handed out is its own counterpart. -/
theorem Machine.Numbered.counterpart_self
    {function : Function}
    (numbered : machine.Numbered function)
    (lines : Int) :
    Function.Counterpart (machine.linked lines machine) function function := by
  refine ⟨rfl, rfl, rfl, function.declaration.alike_self ⟨fun _ => .same, ?_⟩⟩
  exact fun node member => ⟨numbered node member, numbered node member, rfl⟩

/-- A sound class is its own twin. -/
theorem Class.Sound.counterpart_self
    {blueprint : Class}
    (sound : blueprint.Sound offered machine)
    (lines : Int) :
    (machine.linked lines machine).Classes blueprint blueprint :=
  ⟨rfl, fun name => relSelf _ fun method found =>
    (sound name method found).numbered.counterpart_self lines⟩

/-- A sound value is its own twin. -/
theorem Value.Sound.counterpart_self
    {value : Value}
    (sound : value.Sound offered machine)
    (lines : Int) :
    (machine.linked lines machine).Values value value := by
  cases value with
  | nil => exact .nil
  | boolean value => exact .boolean
  | number value => exact .number
  | string value => exact .string
  | function function =>
      exact .function ((Function.Sound.numbered sound).counterpart_self lines)
  | native native => exact .native
  | blueprint blueprint =>
      exact .blueprint (Class.Sound.counterpart_self sound lines)
  | object object => exact .object (Class.Sound.counterpart_self sound lines)

/-- A sound machine is its own counterpart. -/
theorem Machine.Sound.counterpart_self
    (sound : machine.Sound offered context)
    (lines : Int) :
    machine.Counterpart lines machine.Numbered machine where
  store := by
    refine ⟨rfl, fun _ => rfl, ?_, rfl, ?_, rfl⟩
    · intro frame name
      exact relSelf _ fun value found =>
        (sound.values frame name value found).counterpart_self lines
    · intro object name
      exact relSelf _ fun value found =>
        (sound.fields object name value found).counterpart_self lines
  active := rfl
  output := rfl
  world := rfl
  requiring := rfl
  kept _ numbered := numbered.counterpart_self lines
  unfiled := sound.unfiled
  unfiledImage := sound.unfiled

end SelfCounterparts

/-- Natives are defined alike in counterparts. -/
theorem Machine.Follow.defineNatives
    (counterpart : machine.Counterpart lines kept image)
    (natives : List Native) :
    Machine.Follow lines kept machine image
      (Session.defineNatives natives machine)
      (Session.defineNatives natives image) := by
  induction natives generalizing machine image with
  | nil => exact .refl counterpart
  | cons native rest inductionHypothesis =>
      have same : (machine.linked lines image).Values (.native native)
          (.native native) := .native
      have defines := Machine.Follow.ofStores counterpart
        (counterpart.store.define same globalFrame native.name)
      exact defines.trans (inductionHypothesis defines.counterpart)

/-- The same outcome, or errors of which one may be a number of lines further
down. -/
inductive Outcome.Shifted (lines : Int) : Outcome → Outcome → Prop where
  | same {outcome} :
      Shifted lines outcome outcome
  | failed {error image} :
      RuntimeError.Shifted lines error image →
      Shifted lines (.failed (.runtime error)) (.failed (.runtime image))

/-- A flush leaves outcomes alike. -/
theorem Outcome.Shifted.flushed
    {outcome outcomeImage : Outcome}
    {output outputImage : Sink}
    (outcomes : outcome.Shifted lines outcomeImage)
    (outputs : outputImage = output) :
    (LoxScript.flushed outcome output).Shifted lines
      (LoxScript.flushed outcomeImage outputImage) := by
  subst outputs
  cases outcomes with
  | same => exact .same
  | failed errors =>
      unfold LoxScript.flushed
      cases outputImage.flushFault? with
      | some fault => exact .same
      | none => exact .failed errors

/-- Statements that are alike run in step. -/
theorem runStatements_inStep
    {context : Context}
    {steps : Nat}
    {statements statementsImage : List Stmt}
    (accompanies : Accompanies lines kept context steps)
    (stopping : Stopping)
    (counterpart : machine.Counterpart lines kept image)
    (codes :
      List.Forall₂ (Stmt.Alike (machine.linked lines image)) statements
        statementsImage) :
    (runStatements context stopping steps statements machine).1.Shifted lines
        (runStatements context stopping steps statementsImage image).1 ∧
      Machine.Follow lines kept machine image
        (runStatements context stopping steps statements machine).2
        (runStatements context stopping steps statementsImage image).2 := by
  induction statements generalizing machine image statementsImage with
  | nil =>
      cases codes
      exact ⟨.same, .refl counterpart⟩
  | cons first rest inductionHypothesis =>
      cases codes with
      | cons firsts rests =>
          have inStep := accompanies.exec counterpart firsts
          simp only [runStatements, counterpart.world]
          split
          · exact ⟨.same, .refl counterpart⟩
          · cases outcome : exec context steps first machine with
            | ok flow after =>
                obtain ⟨flowImage, afterImage, outcomeImage, follow, flows⟩ :=
                  Mirrors.ok inStep outcome
                rw [outcomeImage]
                cases flows with
                | normal =>
                    obtain ⟨outcomes, followRest⟩ :=
                      inductionHypothesis follow.counterpart
                        (follow.within.stmts rests)
                    exact ⟨outcomes, follow.trans followRest⟩
                | returned _ => exact ⟨.same, follow⟩
            | error halt after =>
                obtain ⟨haltImage, afterImage, outcomeImage, halts, follow⟩ :=
                  Mirrors.error inStep outcome
                rw [outcomeImage]
                cases halts with
                | failed errors => exact ⟨.failed errors, follow⟩
                | exhausted => exact ⟨.same, follow⟩

/-- Sessions of one host with counterparts as machines. -/
structure Session.Counterpart
    (lines : Int)
    (kept : Function → Prop)
    (session image : Session) : Prop where
  machine : session.machine.Counterpart lines kept image.machine
  natives : image.natives = session.natives
  registered : image.registered = session.registered
  library : image.library = session.library
  ownLibrary : image.ownLibrary = session.ownLibrary
  disk : image.disk = session.disk

/-- Neither the session's natives nor those that the action registers look into
functions. -/
def HostAction.BlindBut (kept : Function → Prop) : HostAction → Prop
  | .register _ native => native.BlindBut kept
  | _ => True

namespace Session

variable {session image : Session}

/-- How a run ends, if the action runs something. -/
def outcome? (session : Session) : HostAction → Option Outcome
  | .run stopping steps source => some (session.run stopping steps source).1
  | .runFile steps path => some (session.runFile steps path).1
  | _ => none

namespace Counterpart

/-- The session with a counterpart of its machine. -/
theorem ofMachine
    (counterpart : session.machine.Counterpart lines kept machine) :
    session.Counterpart lines kept { session with machine := machine } :=
  ⟨counterpart, rfl, rfl, rfl, rfl, rfl⟩

/-- A counterpart of a session differs from it in its machine only. -/
theorem image_eq
    (counterpart : session.Counterpart lines kept image) :
    image = { session with machine := image.machine } := by
  obtain ⟨machine, natives, registered, library, ownLibrary, disk⟩ := image
  obtain ⟨-, rfl, rfl, rfl, rfl, rfl⟩ := counterpart
  rfl

/-- Counterparts run every source alike. -/
theorem run
    (counterpart : session.Counterpart lines kept image)
    (blind : ∀ native ∈ session.natives, native.BlindBut kept)
    (stopping : Stopping)
    (steps : Nat)
    (source : ByteArray) :
    (session.run stopping steps source).1.Shifted lines
      (image.run stopping steps source).1 ∧
      (session.run stopping steps source).2.Counterpart lines kept
        (image.run stopping steps source).2 := by
  have machines := counterpart.machine
  rw [counterpart.image_eq]
  generalize image.machine = other at machines
  unfold Session.run Machine.compile
  cases machines.compiles source with
  | rejected outcome outcomeImage follow =>
      rw [outcome, outcomeImage]
      exact ⟨.same, ⟨follow.counterpart, rfl, rfl, rfl, rfl, rfl⟩⟩
  | accepted outcome outcomeImage follow programs =>
      rw [outcome, outcomeImage]
      have defines :=
        Machine.Follow.defineNatives follow.counterpart
        session.registered.values
      have accompanies : Accompanies lines kept session.context steps :=
        accompanies_always blind steps
      obtain ⟨outcomes, followRun⟩ := runStatements_inStep accompanies stopping
        defines.counterpart (defines.within.stmts programs)
      exact ⟨outcomes.flushed followRun.counterpart.output,
        ⟨followRun.counterpart, rfl, rfl, rfl, rfl, rfl⟩⟩

/-- Counterparts run the script at every path alike. -/
theorem runFile
    (counterpart : session.Counterpart lines kept image)
    (blind : ∀ native ∈ session.natives, native.BlindBut kept)
    (steps : Nat)
    (path : String) :
    (session.runFile steps path).1.Shifted lines (image.runFile steps path).1 ∧
      (session.runFile steps path).2.Counterpart lines kept
        (image.runFile steps path).2 := by
  have machines := counterpart.machine
  rw [counterpart.image_eq]
  generalize image.machine = other at machines
  unfold Session.runFile
  dsimp only
  cases session.disk path with
  | error failure => exact ⟨.same, .ofMachine machines⟩
  | ok source =>
      let beside : Library := .ofDisk session.disk (Path.parent path)
      have placed : Session.Counterpart lines kept
          { session with library := beside }
          { session with machine := other, library := beside } :=
        ⟨machines, rfl, rfl, rfl, rfl, rfl⟩
      dsimp only
      split
      · exact Counterpart.run (.ofMachine machines) blind .unheeding
          steps source
      · exact placed.run blind .unheeding steps source

/-- Whatever the host does, counterparts stay counterparts, and what is run ends
alike. -/
theorem perform
    (counterpart : session.Counterpart lines kept image)
    (blind : ∀ native ∈ session.natives, native.BlindBut kept)
    (action : HostAction) :
    Option.Rel (Outcome.Shifted lines) (session.outcome? action)
      (image.outcome? action) ∧
      (session.perform action).Counterpart lines kept
        (image.perform action) := by
  cases action with
  | register key native =>
      rw [counterpart.image_eq]
      exact ⟨.none, ⟨counterpart.machine, rfl, rfl, rfl, rfl, rfl⟩⟩
  | withLibrary library =>
      exact ⟨.none, { counterpart with library := rfl, ownLibrary := rfl }⟩
  | withOutput output =>
      exact ⟨.none,
        { counterpart with
          machine := { counterpart.machine with output := rfl } }⟩
  | updateWorld change =>
      have worlds := congrArg change counterpart.machine.world
      exact ⟨.none,
        { counterpart with
          machine := { counterpart.machine with world := worlds } }⟩
  | run stopping steps source =>
      obtain ⟨outcomes, after⟩ := counterpart.run blind stopping steps source
      exact ⟨.some outcomes, after⟩
  | runFile steps path =>
      obtain ⟨outcomes, after⟩ := counterpart.runFile blind steps path
      exact ⟨.some outcomes, after⟩

end Counterpart

/-- The natives of a session after an action are those that it had and the one
of the action. -/
theorem blind_perform
    {action : HostAction}
    (blind : ∀ native ∈ session.natives, native.BlindBut kept)
    (blindAction : action.BlindBut kept) :
    ∀ native ∈ (session.perform action).natives, native.BlindBut kept := by
  cases action with
  | register key native =>
      intro other member
      rcases List.mem_append.mp member with earlier | added
      · exact blind other earlier
      · rw [List.mem_singleton.mp added]
        exact blindAction
  | run stopping steps source =>
      simpa only [perform, natives_run] using blind
  | runFile steps path =>
      simp only [perform, runFile]
      split
      · exact blind
      · split <;> simpa only [natives_run] using blind
  | _ => exact blind

end Session

end LoxScript
