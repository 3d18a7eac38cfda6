import Mathlib
import LoxScript.Proofs.Machine.Reaching
import LoxScript.Proofs.Machine.Tracing
import LoxScript.Proofs.Session.Locals
import LoxScript.Proofs.Session.Restoration

namespace LoxScript

/-!
# Distances are never confused

A session merges the distances of all its sources in one table.  Since no two
nodes of its trees share an identity, a source that is merged later leaves the
nodes of earlier ones alone: at every later moment they have the distances that
they were resolved with.
-/

open Run

/-- What happens while statements are run one after another. -/
def statementsTrace
    (context : Context)
    (stopping : Stopping)
    (steps : Nat) : List Stmt → Machine → List Event
  | [], _ => []
  | first :: rest, machine =>
      if stopping.stops machine.world then []
      else
        (Task.exec first).trace context steps machine ++
          (exec context steps first).onwards machine fun flow after =>
            match flow with
            | .normal => statementsTrace context stopping steps rest after
            | .returned _ => []

namespace Session

/-- What happens while a session runs a source. -/
def runTrace
    (session : Session)
    (stopping : Stopping)
    (steps : Nat)
    (source : ByteArray) : List Event :=
  session.machine.parsed source ++
    match session.machine.compile source with
    | (.error _, _) => []
    | (.ok program, machine) =>
        statementsTrace session.context stopping steps program.statements
          (defineNatives session.registered.values
            (machine.learn program.distances))

/-- What happens during an action of the host. -/
def actionTrace (session : Session) : HostAction → List Event
  | .run stopping steps source => session.runTrace stopping steps source
  | .runFile steps path =>
      match session.disk path with
      | .error _ => []
      | .ok source =>
          let placed :=
            if session.ownLibrary then session
            else
              { session with
                library := .ofDisk session.disk (Path.parent path) }
          placed.runTrace .unheeding steps source
  | .register _ _ | .withLibrary _ | .withOutput _ | .updateWorld _ => []

/-- What happens during actions of the host, one after another. -/
def trace (session : Session) : List HostAction → List Event
  | [] => []
  | action :: rest =>
      session.actionTrace action ++ (session.perform action).trace rest

end Session

/-- Statements that are run are traced, whatever the outcome. -/
theorem traces_runStatements
    (context : Context)
    (stopping : Stopping)
    (steps : Nat)
    (statements : List Stmt)
    {machine : Machine}
    (unfiled : machine.Unfiled) :
    machine.Traces (statementsTrace context stopping steps statements machine)
      (runStatements context stopping steps statements machine).2 := by
  induction statements generalizing machine with
  | nil => exact .nil (.refl machine)
  | cons first rest inductionHypothesis =>
      have traced := traced_always context steps (.exec first) machine unfiled
      unfold Leads Task.run at traced
      unfold statementsTrace runStatements onwards
      cases stopping.stops machine.world with
      | true => exact .nil (.refl machine)
      | false =>
          cases outcome : exec context steps first machine with
          | error halt after =>
              simp only [outcome] at traced
              cases halt <;> simpa [outcome] using traced
          | ok flow after =>
              simp only [outcome] at traced
              cases flow with
              | returned value => simpa [outcome] using traced
              | normal =>
                  simpa [outcome] using
                    traced.append
                      (inductionHypothesis (traced.recalls.unfiled unfiled))

namespace Session

/-- Defining natives does not touch nodes. -/
theorem recalls_defineNatives
    (natives : List Native)
    (machine : Machine) :
    machine.Recalls (defineNatives natives machine) := by
  induction natives generalizing machine with
  | nil => exact .refl machine
  | cons native rest inductionHypothesis =>
      have defines :
          machine.Recalls (machine.defineGlobal native.name (.native native)) :=
        .ofSame rfl rfl
      exact defines.trans (inductionHypothesis _)

/-- A run is traced, whether its source is accepted or not. -/
theorem traces_run
    (session : Session)
    (unfiled : session.machine.Unfiled)
    (stopping : Stopping)
    (steps : Nat)
    (source : ByteArray) :
    session.machine.Traces (session.runTrace stopping steps source)
      (session.run stopping steps source).2.machine := by
  unfold runTrace Session.run Machine.compile
  rcases compiled : Program.compile source session.machine.nextNode with
    ⟨error | program, next⟩
  · exact (Machine.traces_rejected unfiled compiled).append
      (.nil (.refl _))
  · have loaded := Machine.traces_load unfiled compiled
    have defined := recalls_defineNatives session.registered.values
      (session.machine.load program next)
    have ready := defined.unfiled (loaded.recalls.unfiled unfiled)
    have run := traces_runStatements session.context stopping steps
      program.statements ready
    exact loaded.append (Machine.Traces.append (.nil defined) run)

/-- An action of the host is traced. -/
theorem traces_perform
    {session : Session}
    (unfiled : session.machine.Unfiled)
    (action : HostAction) :
    session.machine.Traces (session.actionTrace action)
      (session.perform action).machine := by
  cases action with
  | register key native => exact .nil (.ofSame rfl rfl)
  | withLibrary library => exact .nil (.ofSame rfl rfl)
  | withOutput output => exact .nil (.ofSame rfl rfl)
  | updateWorld change => exact .nil (.ofSame rfl rfl)
  | run stopping steps source =>
      exact traces_run session unfiled stopping steps source
  | runFile steps path =>
      cases readable : session.disk path with
      | error failure =>
          simp only [actionTrace, perform, runFile, readable]
          exact .nil (.ofSame rfl rfl)
      | ok source =>
          simp only [actionTrace, perform, runFile, readable]
          split
          · exact traces_run session unfiled .unheeding steps source
          · let placed :=
              { session with
                library := .ofDisk session.disk (Path.parent path) }
            exact traces_run placed unfiled .unheeding steps source

/-- Actions of the host, one after another, are traced. -/
theorem traces_performAll
    {session : Session}
    (unfiled : session.machine.Unfiled)
    (actions : List HostAction) :
    session.machine.Traces (session.trace actions)
      (session.performAll actions).machine := by
  induction actions generalizing session with
  | nil => exact .nil (.refl session.machine)
  | cons action rest inductionHypothesis =>
      have traces := traces_perform unfiled action
      exact traces.append (inductionHypothesis (traces.recalls.unfiled unfiled))

/-- In every session, no two nodes of all the trees that it has parsed share an
identity, be they of one tree or of several.  So the table of a tree that is
parsed later does not have the nodes of an earlier one, whether it is accepted
or not: at every later moment, before that table is merged as well as
afterwards, each of them has the distance that its own tree was resolved with,
or none where it was resolved as a global.  It still has when all is done.
Nothing that is parsed on the way is left out: the trace of a task has all tasks
that the evaluator comes to from it, and all that these parse. -/
theorem tables_never_collide
    (disk : Disk)
    (output : Sink)
    (world : World)
    (actions : List HostAction) :
    let session := bare disk output world
    let events := session.trace actions
    (events.flatMap Event.ids).Nodup ∧
      (events.Pairwise fun earlier later => ∀ id ∈ earlier.ids,
        later.machine.distances[id]? = earlier.table[id]? ∧
          (later.machine.learn later.table).distances[id]? =
            earlier.table[id]?) ∧
      (∀ event ∈ events, ∀ id ∈ event.ids,
        (session.performAll actions).machine.distances[id]? =
          event.table[id]?) ∧
      ∀ (context : Context) (task : Task) (machine : Machine) (event : Event),
        (∃ steps, event ∈ task.trace context steps machine) ↔
          ∃ other start, LoxScript.Reaches context task machine other start ∧
            (event = .task other start ∨
              event ∈ other.parsing context start) := by
  intro session events
  have unfiled : session.machine.Unfiled := fun _ _ =>
    Std.TreeMap.getElem?_emptyc
  have traces := traces_performAll unfiled actions
  refine ⟨traces.distinct, traces.ordered.imp fun keeps id isNode => ?_,
    traces.kept,
    fun context task machine event => Task.mem_trace_iff⟩
  obtain ⟨distance, unknown⟩ := keeps id isNode
  refine ⟨distance, ?_⟩
  calc (Machine.learn _ _).distances[id]?
      = (Event.table _)[id]?.or (Event.machine _).distances[id]? :=
        Std.TreeMap.getElem?_union
    _ = _ := by rw [unknown, Option.none_or, distance]

-- The target of an assignment is parsed as a variable first, whose identity is
-- then given up.
example :
    (quiet.trace
      [.run .heeding 9 "a = a;".toUTF8, .run .heeding 9 "a;".toUTF8]).flatMap
      Event.ids =
      [2, 1, 3] := by
  cbv

end Session

end LoxScript
