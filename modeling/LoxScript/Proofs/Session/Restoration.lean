import LoxScript.Proofs.Machine.Changes
import LoxScript.Session

namespace LoxScript

/-!
# Every run comes back to where it was

Whatever a statement or an expression does and however it ends, the machine is
afterwards in the frame it was in, and the same required sources are being
executed.  So a session is at rest between runs: in the global frame, with no
source required.
-/

open Run

/-- The machine is in the same frame, and the same required sources are being
executed. -/
structure Machine.SameContext (before after : Machine) : Prop where
  active : after.active = before.active
  requiring : after.requiring = before.requiring

/-- No elementary change moves the machine, and whoever enters a frame or a
source leaves it: a source is taken off a stack that its own statements have
left as they found it. -/
theorem Machine.respected_sameContext :
    Machine.Respected Machine.SameContext where
  refl _ := ⟨rfl, rfl⟩
  trans first second :=
    ⟨second.active.trans first.active, second.requiring.trans first.requiring⟩
  change changes := by
    cases changes <;> exact ⟨rfl, rfl⟩
  inFrame _ entered := ⟨rfl, entered.requiring⟩
  whileRequiring _ entered :=
    ⟨entered.active, congrArg List.tail entered.requiring⟩

/-- Running statements comes back to where the machine was, whatever the
outcome. -/
theorem sameContext_runStatements
    (context : Context)
    (stopping : Stopping)
    (steps : Nat)
    (statements : List Stmt)
    (machine : Machine) :
    machine.SameContext
      (runStatements context stopping steps statements machine).2 := by
  have keeps (statement : Stmt) : Keeps Machine.SameContext
      (exec context steps statement) :=
    Machine.respected_sameContext.keeps_task context steps (.exec statement)
  induction statements generalizing machine with
  | nil =>
      exact ⟨rfl, rfl⟩
  | cons first rest inductionHypothesis =>
      unfold runStatements
      split
      · exact ⟨rfl, rfl⟩
      · split
        · rename_i after yields
          exact Machine.respected_sameContext.trans ((keeps first).ok yields)
            (inductionHypothesis after)
        · rename_i yields
          exact (keeps first).ok yields
        · rename_i fails
          exact (keeps first).error fails
        · rename_i fails
          exact (keeps first).error fails

/-- Natives are defined without leaving the frame at hand. -/
theorem sameContext_defineNatives
    (natives : List Native)
    (machine : Machine) :
    machine.SameContext (Session.defineNatives natives machine) := by
  induction natives generalizing machine with
  | nil =>
      exact ⟨rfl, rfl⟩
  | cons native rest inductionHypothesis =>
      have further :=
        inductionHypothesis (machine.defineGlobal native.name (.native native))
      exact ⟨further.active, further.requiring⟩

/-- What a host can do with a session. -/
inductive HostAction where
  | register (key : String) (native : HostNative)
  | withLibrary (library : Library)
  | withOutput (output : Sink)
  | updateWorld (change : World → World)
  | run (stopping : Stopping) (steps : Nat) (source : ByteArray)
  | runFile (steps : Nat) (path : String)

namespace Session

/-- The session after an action of its host. -/
def perform (session : Session) : HostAction → Session
  | .register key native => session.register key native
  | .withLibrary library => session.withLibrary library
  | .withOutput output => session.withOutput output
  | .updateWorld change => session.updateWorld change
  | .run stopping steps source => (session.run stopping steps source).2
  | .runFile steps path => (session.runFile steps path).2

/-- The session after actions of its host, one after another. -/
def performAll (session : Session) (actions : List HostAction) : Session :=
  actions.foldl perform session

/-- The machine is in the global frame, and no required source is being
executed. -/
structure AtRest (session : Session) : Prop where
  active : session.machine.active = globalFrame
  requiring : session.machine.requiring = []

/-- A session stays at rest where its machine comes back to where it was. -/
theorem AtRest.keep
    {session after : Session}
    (rests : session.AtRest)
    (same : session.machine.SameContext after.machine) :
    after.AtRest :=
  ⟨same.active.trans rests.active, same.requiring.trans rests.requiring⟩

/-- A run comes back to where the machine was, whether its source is accepted or
not. -/
theorem sameContext_run
    (session : Session)
    (stopping : Stopping)
    (steps : Nat)
    (source : ByteArray) :
    session.machine.SameContext
      (session.run stopping steps source).2.machine := by
  have compiles : session.machine.SameContext
      (session.machine.compile source).2 :=
    Machine.respected_sameContext.change (.compile session.machine source)
  unfold Session.run
  split
  · rename_i error machine rejected
    rw [rejected] at compiles
    exact compiles
  · rename_i program machine accepted
    rw [accepted] at compiles
    have learns : machine.SameContext (machine.learn program.distances) :=
      ⟨rfl, rfl⟩
    have defines := sameContext_defineNatives session.registered.values
      (machine.learn program.distances)
    have runs := sameContext_runStatements session.context stopping steps
      program.statements
      (defineNatives session.registered.values
        (machine.learn program.distances))
    exact Machine.respected_sameContext.trans compiles
      (Machine.respected_sameContext.trans learns
        (Machine.respected_sameContext.trans defines runs))

/-- A run keeps the natives. -/
@[simp] theorem natives_run
    (session : Session)
    (stopping : Stopping)
    (steps : Nat)
    (source : ByteArray) :
    (session.run stopping steps source).2.natives = session.natives := by
  unfold Session.run
  split <;> rfl

/-- Whatever its host does, a session that is at rest is so afterwards. -/
theorem AtRest.perform
    {session : Session}
    (rests : session.AtRest)
    (action : HostAction) :
    (session.perform action).AtRest := by
  cases action with
  | register key native => exact ⟨rests.active, rests.requiring⟩
  | withLibrary library => exact ⟨rests.active, rests.requiring⟩
  | withOutput output => exact ⟨rests.active, rests.requiring⟩
  | updateWorld change => exact ⟨rests.active, rests.requiring⟩
  | run stopping steps source =>
      exact rests.keep (sameContext_run session stopping steps source)
  | runFile steps path =>
      simp only [Session.perform, runFile]
      split
      · exact rests
      · split
        · exact rests.keep (sameContext_run _ _ _ _)
        · have placed :
              AtRest
                { session with
                  library := .ofDisk session.disk (Path.parent path) } :=
            ⟨rests.active, rests.requiring⟩
          exact placed.keep (sameContext_run _ _ _ _)

/-- A session is at rest after everything that its host has ever done. -/
theorem AtRest.performAll
    {session : Session}
    (rests : session.AtRest)
    (actions : List HostAction) :
    (session.performAll actions).AtRest := by
  induction actions generalizing session with
  | nil => exact rests
  | cons action rest inductionHypothesis =>
      exact inductionHypothesis (rests.perform action)

/-- Expressions and statements, whatever their outcome and whatever machine they
are executed in, leave the machine in the frame it was in and with the same
required sources being executed.  So does every run of every session; and a
session that has come about by actions of its host, runs among them, is in the
global frame with no required source being executed. -/
theorem context_is_restored :
    (∀ context steps expr, Keeps Machine.SameContext
      (eval context steps expr)) ∧
      (∀ context steps statement, Keeps Machine.SameContext
        (exec context steps statement)) ∧
      (∀ (session : Session) (stopping : Stopping) (steps : Nat)
        (source : ByteArray),
        session.machine.SameContext
          (session.run stopping steps source).2.machine) ∧
      ∀ disk output world actions,
        ((bare disk output world).performAll actions).AtRest := by
  have keeps := Machine.respected_sameContext.keeps_task
  exact ⟨fun context steps expr => keeps context steps (.eval expr),
    fun context steps statement => keeps context steps (.exec statement),
    sameContext_run, fun disk output world actions =>
      AtRest.performAll ⟨rfl, rfl⟩ actions⟩

end Session

end LoxScript
