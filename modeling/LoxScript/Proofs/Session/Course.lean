import LoxScript.Proofs.Machine.Lineage
import LoxScript.Proofs.Session.Life
import LoxScript.Proofs.Session.Restoration

namespace LoxScript

/-!
# The course of a session

The stages of a session are those of its runs, one after another.  Whatever the
host does in between, they obey the regime under which methods are bound: what
is passed early is kept by all that is passed later, and by the session at its
end.
-/

open Run

/-- The stages of statements that are run one after another. -/
def statementStages
    (context : Context)
    (stopping : Stopping)
    (steps : Nat) : List Stmt → Machine → List Stage
  | [], _ => []
  | first :: rest, machine =>
      if stopping.stops machine.world then []
      else
        (Task.exec first).stages context steps machine ++
          (exec context steps first).onwards machine fun flow after =>
            match flow with
            | .normal => statementStages context stopping steps rest after
            | .returned _ => []

/-- One stage is passed before the other. -/
def Stage.Before (stages : List Stage) (earlier later : Stage) : Prop :=
  [earlier, later].Sublist stages

namespace Session

/-- The stages of a run. -/
def runStages
    (session : Session)
    (stopping : Stopping)
    (steps : Nat)
    (source : ByteArray) : List Stage :=
  match session.machine.compile source with
  | (.error _, _) => []
  | (.ok program, machine) =>
      statementStages session.context stopping steps program.statements
        (prepared { session with machine := machine } program)

/-- The session that looks for required sources beside a script, unless the host
chose where. -/
def beside (session : Session) (path : String) : Session :=
  if session.ownLibrary then session
  else { session with library := .ofDisk session.disk (Path.parent path) }

/-- The stages of an action of the host. -/
def actionStages (session : Session) : HostAction → List Stage
  | .run stopping steps source => session.runStages stopping steps source
  | .runFile steps path =>
      match session.disk path with
      | .error _ => []
      | .ok source => (session.beside path).runStages .unheeding steps source
  | .register _ _ | .withLibrary _ | .withOutput _ | .updateWorld _ => []

/-- The stages of actions of the host, one after another. -/
def stages (session : Session) : List HostAction → List Stage
  | [] => []
  | action :: rest =>
      session.actionStages action ++ (session.perform action).stages rest

/-- Whatever natives are registered lend scripts only what the session has
then. -/
def Lends (session : Session) : List HostAction → Prop
  | [] => True
  | action :: rest =>
      (∀ key native, action = .register key native →
        native.Lends session.machine) ∧
        (session.perform action).Lends rest

end Session

namespace Regime

variable {regime : Regime} {context : Context} {allowed : Stage → Prop}

/-- Statements that are run one after another obey the regime. -/
theorem Lawful.passes_runStatements
    (lawful : regime.Lawful context allowed)
    {stopping : Stopping}
    {steps : Nat}
    {statements : List Stmt}
    {machine : Machine}
    (seats : regime.Seats machine (.stmts statements))
    (allows :
      ∀ stage ∈ statementStages context stopping steps statements machine,
      allowed stage) :
    regime.Passes machine
      (statementStages context stopping steps statements machine)
      (runStatements context stopping steps statements machine).2 := by
  induction statements generalizing machine with
  | nil => exact .nil (lawful.stay seats.intact)
  | cons first rest inductionHypothesis =>
      have here := seats.covered lawful (.included .firstStmt)
      cases stops : stopping.stops machine.world with
      | true =>
          simp only [statementStages, runStatements, stops, if_true]
          exact .nil (lawful.stay seats.intact)
      | false =>
          simp only [statementStages, runStatements, stops, Bool.false_eq_true,
            if_false, onwards, List.mem_append] at allows ⊢
          have obeys := lawful.rules steps (.exec first) machine
            ⟨here.intact, here.hosts, fun stage member =>
              allows stage (.inl member)⟩
          unfold Obeys Leads Task.run at obeys
          cases outcome : exec context steps first machine with
          | error halt after =>
              simp only [outcome] at obeys
              cases halt <;> simpa using obeys
          | ok flow after =>
              simp only [outcome] at obeys allows
              cases flow with
              | returned value => simpa using obeys.1
              | normal =>
                  have same :=
                    (Machine.respected_sameContext.keeps_task context steps
                      (.exec first)).ok outcome
                  have next :=
                    (seats.covered lawful .rest).later lawful obeys.1.moves same
                  exact obeys.1.append lawful
                    (inductionHypothesis next fun stage member =>
                      allows stage (.inr member))

end Regime

variable {noted : Stage → Prop} {natives : List HostNative} {session : Session}
variable {before after machine : Machine} {stages : List Stage}

/-- What is passed is passed whatever natives there are. -/
theorem Machine.lineage_forget
    (passes : (Machine.lineage noted natives).Passes before stages after) :
    (Machine.lineage noted []).Passes before stages after := by
  have forget {start last : Machine}
      (moves : (Machine.lineage noted natives).Moves start last) :
      (Machine.lineage noted []).Moves start last :=
    ⟨moves.keeps, moves.intact.rooted, moves.intact.unfiled, moves.intact.holds,
      nofun⟩
  exact
    { moves := forget passes.moves
      reached := fun stage member => forget (passes.reached stage member)
      within := fun stage member => forget (passes.within stage member)
      kept := passes.kept
      ordered := passes.ordered
      meets := fun stage member => by
        have holds := passes.meets stage member
        cases stage <;> exact holds }

/-- Natives are defined in the global frame. -/
theorem Machine.Lineal.defineNatives
    (lineal : machine.Lineal noted natives)
    (values : List Native) :
    (Machine.lineage noted natives).Moves machine
      (Session.defineNatives values machine) := by
  induction values generalizing machine with
  | nil => exact ⟨.refl _, lineal⟩
  | cons native rest inductionHypothesis =>
      have moves : (Machine.lineage noted natives).Moves machine
          (machine.defineGlobal native.name (.native native)) :=
        lineal.define lineal.rooted.opens (.inl lineal.rooted.top) trivial
      have further := inductionHypothesis moves.intact
      exact ⟨moves.keeps.trans further.keeps, further.intact⟩

namespace Session

/-- The session is at rest, and its machine is lineal. -/
structure Lineal (noted : Stage → Prop) (session : Session) : Prop where
  machine : session.machine.Lineal noted session.natives
  rests : session.AtRest

/-- Where required sources come from does not count for the machine. -/
theorem machine_beside
    (session : Session)
    (path : String) :
    (session.beside path).machine = session.machine := by
  unfold beside
  split <;> rfl

/-- Nor does it count for the natives. -/
theorem natives_beside
    (session : Session)
    (path : String) :
    (session.beside path).natives = session.natives := by
  unfold beside
  split <;> rfl

/-- So neither does running a script. -/
theorem natives_runFile
    (session : Session)
    (steps : Nat)
    (path : String) :
    (session.runFile steps path).2.natives = session.natives := by
  unfold runFile
  split
  · rfl
  · exact (natives_run ..).trans (natives_beside session path)

/-- The first statement of a program is executed in the global frame. -/
theorem AtRest.active_prepared
    (rests : session.AtRest)
    (next : NodeId)
    (program : Program) :
    (prepared
      { session with machine := { session.machine with nextNode := next } }
      program).active = globalFrame :=
  (sameContext_defineNatives session.registered.values
    (session.machine.load program next)).active.trans rests.active

/-- Once the natives are defined, the statements of a program may be
executed. -/
theorem seats_prepared
    {regime : Regime}
    {context : Context}
    {allowed : Stage → Prop}
    {next : NodeId}
    {program : Program}
    (lawful : regime.Lawful context allowed)
    (rests : session.AtRest)
    (defines : regime.Moves (session.machine.load program next)
      (prepared
        { session with machine := { session.machine with nextNode := next } }
        program))
    (hosts : regime.hosts (session.machine.load program next) globalFrame
      (.stmts program.statements)) :
    regime.Seats
      (prepared
        { session with machine := { session.machine with nextNode := next } }
        program)
      (.stmts program.statements) := by
  refine ⟨defines.intact, ?_⟩
  rw [rests.active_prepared]
  exact lawful.laterCode defines.keeps hosts

namespace Lineal

variable (lineal : session.Lineal noted)

include lineal

/-- A run obeys the regime. -/
theorem passes_run
    {stopping : Stopping}
    {steps : Nat}
    {source : ByteArray}
    (notes : ∀ stage ∈ session.runStages stopping steps source, noted stage) :
    (Machine.lineage noted session.natives).Passes session.machine
      (session.runStages stopping steps source)
      (session.run stopping steps source).2.machine := by
  have lawful := Machine.lawful_lineage noted session.context
  unfold runStages Session.run Machine.compile at *
  rcases compiled : Program.compile source session.machine.nextNode with
    ⟨error | program, next⟩
  · exact .nil (lawful.rejected lineal.machine compiled)
  · simp only [compiled] at notes ⊢
    obtain ⟨loads, hosts⟩ := lawful.loaded lineal.machine compiled
    have defines := loads.intact.defineNatives session.registered.values
    have moves := lawful.andMoves loads defines
    have seats := seats_prepared lawful lineal.rests defines hosts
    have runs := lawful.passes_runStatements seats notes
    exact runs.between lawful moves (lawful.stay runs.moves.intact)

/-- Where required sources come from does not count. -/
theorem beside
    (path : String) :
    (session.beside path).Lineal noted := by
  refine ⟨?_, ?_, ?_⟩ <;> simp only [machine_beside, natives_beside]
  · exact lineal.machine
  · exact lineal.rests.active
  · exact lineal.rests.requiring

/-- What the host does obeys the regime. -/
theorem passes_perform
    {action : HostAction}
    (notes : ∀ stage ∈ session.actionStages action, noted stage) :
    (Machine.lineage noted session.natives).Passes session.machine
      (session.actionStages action) (session.perform action).machine := by
  have aside {after : Machine} (store : after.store = session.machine.store)
      (recalls : session.machine.Recalls after) :
      (Machine.lineage noted session.natives).Passes session.machine [] after :=
    .nil (lineal.machine.renumber store recalls)
  cases action with
  | register key native => exact aside rfl (.refl _)
  | withLibrary library => exact aside rfl (.refl _)
  | withOutput output => exact aside rfl (.ofSame rfl rfl)
  | updateWorld change => exact aside rfl (.ofSame rfl rfl)
  | run stopping steps source => exact lineal.passes_run notes
  | runFile steps path =>
      simp only [actionStages, perform, runFile] at notes ⊢
      cases readable : session.disk path with
      | error failure => exact aside rfl (.refl _)
      | ok source =>
          simp only [readable] at notes ⊢
          have passes := (lineal.beside path).passes_run notes
          rwa [natives_beside, machine_beside] at passes

/-- Afterwards, the session is lineal. -/
theorem perform
    {action : HostAction}
    (lends : ∀ key native, action = .register key native →
      native.Lends session.machine)
    (notes : ∀ stage ∈ session.actionStages action, noted stage) :
    (session.perform action).Lineal noted := by
  have passes := lineal.passes_perform notes
  refine ⟨?_, lineal.rests.perform action⟩
  cases action with
  | register key native =>
      obtain ⟨rooted, unfiled, holds, natives⟩ := lineal.machine
      refine ⟨rooted, unfiled, holds,
        fun other member arguments world value after yields => ?_⟩
      rcases List.mem_append.mp member with earlier | added
      · exact natives other earlier arguments world value after yields
      · rw [List.mem_singleton.mp added] at yields
        rcases lends key native rfl arguments world value after yields with
          isAtom | passed | ⟨frame, name, found⟩
        · exact .inl isAtom
        · exact .inr (.inl passed)
        · exact .inr (.inr (holds.values frame name value found))
  | withLibrary library => exact passes.moves.intact
  | withOutput output => exact passes.moves.intact
  | updateWorld change => exact passes.moves.intact
  | run stopping steps source =>
      have intact := passes.moves.intact
      rwa [← natives_run session stopping steps source] at intact
  | runFile steps path =>
      have intact := passes.moves.intact
      rwa [← natives_runFile session steps path] at intact

/-- So do actions of the host, one after another. -/
theorem passes_performAll
    {actions : List HostAction}
    (lends : session.Lends actions)
    (notes : ∀ stage ∈ session.stages actions, noted stage) :
    (Machine.lineage noted []).Passes session.machine (session.stages actions)
      (session.performAll actions).machine := by
  induction actions generalizing session with
  | nil =>
      have stays : (Machine.lineage noted session.natives).Moves session.machine
          session.machine :=
        ⟨.refl _, lineal.machine⟩
      exact Machine.lineage_forget (.nil stays)
  | cons action rest inductionHypothesis =>
      have notesFirst := fun stage member =>
        notes stage (List.mem_append_left _ member)
      have notesRest := fun stage member =>
        notes stage (List.mem_append_right _ member)
      have passes := Machine.lineage_forget (lineal.passes_perform notesFirst)
      exact passes.append (Machine.lawful_lineage noted ⟨[], session.library⟩)
        (inductionHypothesis (lineal.perform lends.1 notesFirst)
          lends.2 notesRest)

end Lineal

/-- A session that has run nothing yet is lineal. -/
theorem lineal_bare
    (noted : Stage → Prop)
    (disk : Disk)
    (output : Sink)
    (world : World) :
    (bare disk output world).Lineal noted :=
  ⟨⟨⟨Nat.zero_lt_one, rfl⟩, fun _ _ => Std.TreeMap.getElem?_emptyc, .initial _,
    nofun⟩, rfl, rfl⟩

end Session

/-- At this stage the frame is there with these contents; so it is at all later
stages and when all is done. -/
structure Stage.Seals
    (stage : Stage)
    (stages : List Stage)
    (last : Machine)
    (frame : FrameId)
    (held : Frame) : Prop where
  now : stage.machine.store.frames[frame]? = some held
  later : ∀ later, stage.Before stages later →
    later.machine.store.frames[frame]? = some held
  last : last.store.frames[frame]? = some held

/-- Of two stages, one is passed before the other. -/
theorem Stage.before_or_before
    {stages : List Stage}
    {stage other : Stage}
    (member : stage ∈ stages)
    (memberOther : other ∈ stages)
    (different : stage ≠ other) :
    stage.Before stages other ∨ other.Before stages stage := by
  obtain ⟨earlier, later, rfl⟩ := List.append_of_mem member
  rcases List.mem_append.mp memberOther with isEarlier | isLater
  · right
    exact (List.singleton_sublist.mpr isEarlier).append
      (List.singleton_sublist.mpr List.mem_cons_self)
  · left
    have isLater := (List.mem_cons.mp isLater).resolve_left different.symm
    exact ((List.singleton_sublist.mpr isLater).cons_cons stage).trans
      (List.sublist_append_right earlier (stage :: later))

section Passes

variable {first last : Machine}
variable (passes : (Machine.lineage (· ∈ stages) []).Passes first stages last)

include passes

/-- What a stage has is had at all later stages. -/
theorem Regime.Passes.upholds
    {stage later : Stage}
    (before : stage.Before stages later) :
    stage.machine.Upholds later.machine := by
  have ordered := passes.ordered.sublist before
  have starts : stage.machine.Upholds later.start :=
    (List.pairwise_cons.mp ordered).1 later (List.mem_singleton_self later)
  have isLater : later ∈ stages := before.mem (by simp)
  exact starts.trans (passes.within later isLater).keeps

/-- A sealed frame stays as it is. -/
theorem Regime.Passes.seals
    {stage : Stage}
    {frame : FrameId}
    {held : Frame}
    (member : stage ∈ stages)
    (isSealed : held.Sealed)
    (now : stage.machine.store.frames[frame]? = some held) :
    stage.Seals stages last frame held where
  now := now
  later _ before := (passes.upholds before).store.seals _ _ isSealed now
  last := (passes.kept stage member).store.seals _ _ isSealed now

/-- A stage that starts with fewer frames than another has is passed before
it. -/
theorem Regime.Passes.isBefore
    {stage other : Stage}
    (member : stage ∈ stages)
    (memberOther : other ∈ stages)
    (different : stage ≠ other)
    (fewer : stage.start.store.nextFrame < other.machine.store.nextFrame) :
    stage.Before stages other := by
  refine (Stage.before_or_before member memberOther different).resolve_right
    fun before => ?_
  have ordered := passes.ordered.sublist before
  have starts : other.machine.Upholds stage.start :=
    (List.pairwise_cons.mp ordered).1 stage (List.mem_singleton_self stage)
  exact Nat.not_lt.mpr starts.store.size fewer

end Passes

end LoxScript
