import LoxScript.Proofs.Machine.Addressing
import LoxScript.Session

namespace LoxScript

/-!
# The life of a session

A session lives by what its host does with it: it registers natives, chooses a
library, an output or a world, and runs one source after another, successfully
or not.  However it has lived, its machine is sound and in the global frame.
-/

open Run

/-- What the native yields refers to nothing, was passed to it, or is the value
of a variable of the machine: natives cannot make functions, classes or
instances of their own. -/
def HostNative.Lends (native : HostNative) (machine : Machine) : Prop :=
  ∀ arguments world value after,
    native.body arguments world = (.ok value, after) →
    value.IsAtom ∨ value ∈ arguments ∨
      ∃ frame name, machine.store.lookup? frame name = some value

/-- The session comes about by what a host may do; all sources that it ever runs
or may require are offered. -/
inductive Session.Lives (offered : ByteArray → Prop) : Session → Prop where
  | bare {disk : Disk} {output : Sink} {world : World} :
      (∀ path source, disk path = .ok source → offered source) →
      Lives offered (Session.bare disk output world)
  | register {session : Session} {key : String} {native : HostNative} :
      Lives offered session → native.Lends session.machine →
      Lives offered (session.register key native)
  | withLibrary {session : Session} {library : Library} :
      Lives offered session →
      (∀ path source, library path = .ok source → offered source) →
      Lives offered (session.withLibrary library)
  | withOutput {session : Session} {output : Sink} :
      Lives offered session → Lives offered (session.withOutput output)
  | updateWorld {session : Session} {change : World → World} :
      Lives offered session → Lives offered (session.updateWorld change)
  | run {session : Session} {stopping : Stopping} {steps : Nat}
    {source : ByteArray} :
      Lives offered session → offered source →
      Lives offered (session.run stopping steps source).2
  | runFile {session : Session} {steps : Nat} {path : String} :
      Lives offered session → Lives offered (session.runFile steps path).2

/-- Running the statements from a machine on, the session comes to execute one
of them in another machine. -/
inductive Proceeds (context : Context) (stopping : Stopping) (steps : Nat) :
    List Stmt → Machine → Stmt → Machine → Prop where
  | here {first rest m} :
      stopping.stops m.world = false →
      Proceeds context stopping steps (first :: rest) m first m
  | next {first rest m after statement n} :
      stopping.stops m.world = false →
      exec context steps first m = .ok .normal after →
      Proceeds context stopping steps rest after statement n →
      Proceeds context stopping steps (first :: rest) m statement n

namespace Session

/-- The machine in which the first statement of a program is executed. -/
def prepared (session : Session) (program : Program) : Machine :=
  defineNatives session.registered.values
    (session.machine.learn program.distances)

/-- Running a source, the session comes to a task in a machine. -/
def Reaches
    (session : Session)
    (stopping : Stopping)
    (steps : Nat)
    (source : ByteArray)
    (task : Task)
    (machine : Machine) : Prop :=
  ∃ program compiled statement start,
    session.machine.compile source = (.ok program, compiled) ∧
      Proceeds session.context stopping steps program.statements
        (prepared { session with machine := compiled } program)
        statement start ∧
      LoxScript.Reaches session.context (.exec statement) start task machine

variable {offered : ByteArray → Prop} {session : Session}

/-- What holds of every session, however it has lived. -/
structure Sound (offered : ByteArray → Prop) (session : Session) : Prop where
  machine : session.machine.Sound offered session.context
  active : session.machine.active = globalFrame
  disk : ∀ path source, session.disk path = .ok source → offered source

end Session

section Context

variable {offered : ByteArray → Prop} {context other : Context}
  {machine : Machine}

/-- Another context does not count for what the machine holds. -/
theorem Machine.Sound.inContext
    (sound : machine.Sound offered context)
    (sources : ∀ path source, other.library path = .ok source → offered source)
    (natives :
      ∀ native ∈ other.natives, native ∈ context.natives ∨
        native.Lends machine) :
    machine.Sound offered other where
  rooted := sound.rooted
  values := sound.values
  fields := sound.fields
  unfiled := sound.unfiled
  sources := sources
  natives native member arguments world value after yields := by
    rcases natives native member with earlier | lends
    · exact sound.natives native earlier arguments world value after yields
    · rcases lends arguments world value after yields with
        isAtom | passed | ⟨frame, name, found⟩
      · exact .inl isAtom
      · exact .inr (.inl passed)
      · exact .inr (.inr (sound.values frame name value found))

/-- Defining natives as globals. -/
theorem Machine.advances_defineNatives
    (sound : machine.Sound offered context)
    (natives : List Native) :
    machine.Advances offered context none
      (Session.defineNatives natives machine) := by
  induction natives generalizing machine with
  | nil =>
      exact .refl sound none
  | cons native rest inductionHypothesis =>
      have defines : machine.Advances offered context none
          (machine.defineGlobal native.name (.native native)) :=
        machine.advances_define sound (.inl rfl)
          (.define (.inl rfl) _ _ _) trivial
      exact defines.trans (inductionHypothesis defines.sound)

/-- Statements that are located one after another are each executed where they
are located. -/
theorem Proceeds.ready
    {stopping : Stopping}
    {steps : Nat}
    {statements : List Stmt}
    {statement : Stmt}
    {start : Machine}
    (proceeds :
      Proceeds context stopping steps statements machine statement start)
    (sound : machine.Sound offered context)
    (located : machine.Located offered (.stmts statements)) :
    start.Sound offered context ∧ start.Located offered (.stmt statement) := by
  induction proceeds with
  | here _ =>
      exact ⟨sound, located.included .firstStmt⟩
  | next _ yields _ inductionHypothesis =>
      obtain ⟨advances, -, declares⟩ :=
        (works_always offered context steps).exec_ok sound
        (located.included .firstStmt) yields
      exact inductionHypothesis advances.sound
        (located_rest located advances.precedes (declares rfl))

/-- Running located statements advances the machine. -/
theorem advances_runStatements
    (stopping : Stopping)
    (steps : Nat)
    {statements : List Stmt}
    (sound : machine.Sound offered context)
    (located : machine.Located offered (.stmts statements)) :
    machine.Advances offered context (some machine.active)
      (runStatements context stopping steps statements machine).2 := by
  induction statements generalizing machine with
  | nil =>
      exact .refl sound _
  | cons first rest inductionHypothesis =>
      have behaves :=
        works_always offered context steps (.exec first) machine sound
        (located.included .firstStmt)
      unfold runStatements
      split
      · exact .refl sound _
      · split
        · rename_i after yields
          obtain ⟨advances, -, declares⟩ := Leads.ok behaves yields
          have further := inductionHypothesis advances.sound
            (located_rest located advances.precedes (declares rfl))
          rw [advances.active] at further
          exact Machine.Advances.trans advances further
        · rename_i yields
          exact (Leads.ok behaves yields).1
        · rename_i fails
          exact Leads.error behaves fails
        · rename_i fails
          exact Leads.error behaves fails

end Context

namespace Session

variable {offered : ByteArray → Prop} {session : Session} {source : ByteArray}
variable {program : Program} {compiled : Machine}

/-- An accepted source is loaded. -/
theorem Sound.prepared
    (sound : session.Sound offered)
    (isOffered : offered source)
    (accepted : session.machine.compile source = (.ok program, compiled)) :
    (Session.prepared { session with machine := compiled } program).Sound
      offered
        session.context ∧
      (Session.prepared { session with machine := compiled } program).active =
        globalFrame ∧
      (Session.prepared { session with machine := compiled } program).Located
        offered (.stmts program.statements) := by
  obtain ⟨verdict, next, outcome⟩ :
      ∃ verdict next,
        Program.compile source session.machine.nextNode = (verdict, next) :=
    ⟨_, _, rfl⟩
  simp only [Machine.compile, outcome, Prod.mk.injEq] at accepted
  obtain ⟨rfl, rfl⟩ := accepted
  obtain ⟨loads, knows⟩ :=
    session.machine.advances_load sound.machine isOffered outcome
  have defines :=
    Machine.advances_defineNatives loads.sound session.registered.values
  have isGlobal := defines.active.trans (loads.active.trans sound.active)
  exact ⟨defines.sound, isGlobal, located_program
    (knows.later defines.precedes) isGlobal⟩

/-- A run leaves the session sound. -/
theorem Sound.run
    (sound : session.Sound offered)
    (isOffered : offered source)
    (stopping : Stopping)
    (steps : Nat) :
    (session.run stopping steps source).2.Sound offered := by
  unfold Session.run
  split
  · rename_i error rejected compiles
    obtain ⟨verdict, next, outcome⟩ :
        ∃ verdict next,
          Program.compile source session.machine.nextNode = (verdict, next) :=
      ⟨_, _, rfl⟩
    simp only [Machine.compile, outcome, Prod.mk.injEq] at compiles
    obtain ⟨rfl, rfl⟩ := compiles
    have advances := session.machine.advances_rejected sound.machine outcome
    exact ⟨advances.sound, sound.active, sound.disk⟩
  · rename_i program compiled accepted
    obtain ⟨soundStart, isGlobal, located⟩ := sound.prepared isOffered accepted
    have advances := advances_runStatements stopping steps soundStart located
    exact ⟨advances.sound, advances.active.trans isGlobal, sound.disk⟩

/-- However a session has lived, it is sound. -/
theorem Lives.sound
    (lives : session.Lives offered) :
    session.Sound offered := by
  induction lives with
  | bare onDisk =>
      refine ⟨⟨⟨Nat.zero_lt_one, rfl⟩, ?_, ?_, ?_, ?_, nofun⟩, rfl, onDisk⟩
      · exact fun frame name value found =>
          nomatch (Store.lookup?_initial frame name).symm.trans found
      · exact fun object name value found =>
          nomatch (Store.field?_initial object name).symm.trans found
      · intro id _
        exact Std.TreeMap.getElem?_emptyc
      · intro path source found
        exact onDisk _ source found
  | @register session key native _ lends inductionHypothesis =>
      refine ⟨inductionHypothesis.machine.inContext
        inductionHypothesis.machine.sources ?_,
        inductionHypothesis.active, inductionHypothesis.disk⟩
      intro other member
      rcases List.mem_append.mp member with earlier | added
      · exact .inl earlier
      · rw [List.mem_singleton.mp added]
        exact .inr lends
  | withLibrary _ sources inductionHypothesis =>
      exact ⟨inductionHypothesis.machine.inContext sources fun _ => .inl,
        inductionHypothesis.active, inductionHypothesis.disk⟩
  | withOutput _ inductionHypothesis =>
      exact ⟨(Machine.advances_aside inductionHypothesis.machine none).sound,
        inductionHypothesis.active, inductionHypothesis.disk⟩
  | updateWorld _ inductionHypothesis =>
      exact ⟨(Machine.advances_aside inductionHypothesis.machine none).sound,
        inductionHypothesis.active, inductionHypothesis.disk⟩
  | run _ isOffered inductionHypothesis =>
      exact inductionHypothesis.run isOffered _ _
  | @runFile session steps path _ inductionHypothesis =>
      unfold Session.runFile
      split
      · exact inductionHypothesis
      · rename_i source found
        refine Sound.run ?_ (inductionHypothesis.disk path source found) _ _
        split
        · exact inductionHypothesis
        · refine ⟨inductionHypothesis.machine.inContext ?_ fun _ => .inl,
            inductionHypothesis.active, inductionHypothesis.disk⟩
          intro other required onDisk
          exact inductionHypothesis.disk _ required onDisk

/-- Whatever a session comes to when it runs an offered source is ready. -/
theorem Reaches.ready
    {stopping : Stopping}
    {steps : Nat}
    {task : Task}
    {machine : Machine}
    (reaches : session.Reaches stopping steps source task machine)
    (lives : session.Lives offered)
    (isOffered : offered source) :
    machine.Sound offered session.context ∧ task.Ready offered machine := by
  obtain ⟨program, compiled, statement, start, accepted, proceeds,
    reachesTask⟩ := reaches
  obtain ⟨soundStart, -, located⟩ := lives.sound.prepared isOffered accepted
  obtain ⟨soundHere, locatedHere⟩ := proceeds.ready soundStart located
  exact LoxScript.Reaches.ready reachesTask soundHere locatedHere

/-- Registering natives changes nothing but the natives. -/
theorem registerAll_eq
    (session : Session)
    (natives : List (String × HostNative)) :
    (session.registerAll natives).machine = session.machine ∧
      (session.registerAll natives).natives =
        session.natives ++ natives.map Prod.snd := by
  induction natives generalizing session with
  | nil =>
      exact ⟨rfl, (List.append_nil _).symm⟩
  | cons entry rest inductionHypothesis =>
      obtain ⟨sameMachine, sameNatives⟩ :=
        inductionHypothesis (session.register entry.1 entry.2)
      refine ⟨sameMachine, sameNatives.trans ?_⟩
      simp [register, addNative]

/-- Natives may be registered one after another. -/
theorem Lives.registerAll
    {natives : List (String × HostNative)}
    (lives : session.Lives offered)
    (lends : ∀ entry ∈ natives, entry.2.Lends session.machine) :
    (session.registerAll natives).Lives offered := by
  induction natives generalizing session with
  | nil =>
      exact lives
  | cons entry rest inductionHypothesis =>
      exact inductionHypothesis (lives.register (lends entry (by simp)))
        fun other member => lends other (by simp [member])

end Session

/-- The standard natives yield nothing that refers to something. -/
theorem Standard.lends_natives
    (machine : Machine) :
    ∀ entry ∈ Standard.natives, entry.2.Lends machine := by
  intro entry member arguments world value after yields
  refine .inl ?_
  simp only [Standard.natives, List.mem_cons, List.not_mem_nil,
    or_false] at member
  rcases member with rfl | rfl | rfl
  · cases yields
    trivial
  · simp only [Standard.sleep] at yields
    split at yields
    · -- The first split is on the sign of the duration, the second on its
      -- limit.
      split at yields <;> split at yields <;> cases yields <;> trivial
    · cases yields
  · simp only [Standard.randN] at yields
    split at yields
    · split at yields
      · cases yields
      · split at yields <;> cases yields
        trivial
    · cases yields

/-- A session with the standard natives lives. -/
theorem Session.lives_standard
    {offered : ByteArray → Prop}
    {disk : Disk}
    (onDisk : ∀ path source, disk path = .ok source → offered source)
    (output : Sink)
    (world : World) :
    (Session.standard disk output world).Lives offered :=
  Session.Lives.registerAll (.bare onDisk) (Standard.lends_natives _)

end LoxScript
