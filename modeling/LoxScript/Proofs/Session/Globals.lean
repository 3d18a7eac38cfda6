import Mathlib
import LoxScript.Proofs.Machine.Landing
import LoxScript.Proofs.Session.Course
import LoxScript.Proofs.Session.Locals

namespace LoxScript

/-!
# Names of frames and globals

The deeds of a session are those of its runs, one after another.  They tell
which names its frames have: a declaration gives its name to the frame it is
executed in and to no other, so the globals are the natives that were merged and
what was declared at the top level of sources.
-/

open Run

/-- What is done by statements that are run one after another. -/
def statementDeeds
    (context : Context)
    (stopping : Stopping)
    (steps : Nat) : List Stmt → Machine → List Deed
  | [], _ => []
  | first :: rest, machine =>
      if stopping.stops machine.world then []
      else
        (Task.exec first).deeds context steps machine ++
          (exec context steps first).onwards machine fun flow after =>
            match flow with
            | .normal => statementDeeds context stopping steps rest after
            | .returned _ => []

namespace Session

/-- Natives become globals, one after another. -/
def mergingDeeds : List Native → Machine → List Deed
  | [], _ => []
  | native :: rest, machine =>
      let merged := machine.defineGlobal native.name (.native native)
      .merged native merged :: mergingDeeds rest merged

/-- What a run does. -/
def runDeeds
    (session : Session)
    (stopping : Stopping)
    (steps : Nat)
    (source : ByteArray) : List Deed :=
  match session.machine.compile source with
  | (.error _, _) => []
  | (.ok program, machine) =>
      let ready := prepared { session with machine := machine } program
      mergingDeeds session.registered.values
        (machine.learn program.distances) ++ .included program ready ::
          statementDeeds session.context stopping steps program.statements ready

/-- What is done in an action of the host. -/
def actionDeeds (session : Session) : HostAction → List Deed
  | .run stopping steps source => session.runDeeds stopping steps source
  | .runFile steps path =>
      match session.disk path with
      | .error _ => []
      | .ok source => (session.beside path).runDeeds .unheeding steps source
  | .register _ _ | .withLibrary _ | .withOutput _ | .updateWorld _ => []

/-- What is done in actions of the host, one after another. -/
def deeds (session : Session) : List HostAction → List Deed
  | [] => []
  | action :: rest =>
      session.actionDeeds action ++ (session.perform action).deeds rest

end Session

section Records

variable {session : Session}

/-- The deeds of statements that are run one after another. -/
theorem records_runStatements
    (context : Context)
    (stopping : Stopping)
    (steps : Nat)
    (statements : List Stmt)
    (machine : Machine) :
    machine.store.Records
      (statementDeeds context stopping steps statements machine)
      (runStatements context stopping steps statements machine).2.store := by
  induction statements generalizing machine with
  | nil => exact .still (.refl _)
  | cons first rest inductionHypothesis =>
      have records := records_task context steps (.exec first) machine
      unfold Leads Task.run at records
      unfold statementDeeds runStatements onwards
      cases stopping.stops machine.world with
      | true => exact .still (.refl _)
      | false =>
          cases outcome : exec context steps first machine with
          | error halt after =>
              simp only [outcome] at records
              cases halt <;> simpa [outcome] using records
          | ok flow after =>
              simp only [outcome] at records
              cases flow with
              | returned value => simpa [outcome] using records
              | normal =>
                  simpa [outcome] using records.append
                    (inductionHypothesis after)

namespace Session

/-- Natives become globals and change nothing else. -/
theorem records_defineNatives
    (natives : List Native)
    (machine : Machine) :
    machine.store.Records (mergingDeeds natives machine)
      (defineNatives natives machine).store := by
  induction natives generalizing machine with
  | nil => exact .still (.refl _)
  | cons native rest inductionHypothesis =>
      exact .deed (.refl _)
        ⟨rfl, .define machine.store globalFrame native.name (.native native)⟩
        (inductionHypothesis _)

/-- The deeds of a run. -/
theorem records_run
    (session : Session)
    (stopping : Stopping)
    (steps : Nat)
    (source : ByteArray) :
    session.machine.store.Records (session.runDeeds stopping steps source)
      (session.run stopping steps source).2.machine.store := by
  unfold runDeeds Session.run Machine.compile
  rcases Program.compile source session.machine.nextNode with
    ⟨error | program, next⟩
  · exact .still (.refl _)
  · have merges := records_defineNatives session.registered.values
      (session.machine.load program next)
    have runs :=
      records_runStatements session.context stopping steps program.statements
      (prepared
        { session with machine := { session.machine with nextNode := next } }
        program)
    exact merges.append (.deed (.refl _) ⟨rfl, rfl⟩ runs)

/-- The deeds of an action of the host. -/
theorem records_perform
    (session : Session)
    (action : HostAction) :
    session.machine.store.Records (session.actionDeeds action)
      (session.perform action).machine.store := by
  cases action with
  | register _ _ | withLibrary _ | withOutput _ | updateWorld _ =>
      exact .still (.refl _)
  | run stopping steps source => exact records_run session stopping steps source
  | runFile steps path =>
      cases readable : session.disk path with
      | error failure =>
          simp only [actionDeeds, perform, runFile, readable]
          exact .still (.refl _)
      | ok source =>
          have records :=
            records_run (session.beside path) .unheeding steps source
          rw [machine_beside] at records
          simp only [actionDeeds, perform, runFile, readable]
          exact records

/-- The deeds of actions of the host, one after another. -/
theorem records_performAll
    (session : Session)
    (actions : List HostAction) :
    session.machine.store.Records (session.deeds actions)
      (session.performAll actions).machine.store := by
  induction actions generalizing session with
  | nil => exact .still (.refl _)
  | cons action rest inductionHypothesis =>
      exact (records_perform session action).append
        (inductionHypothesis (session.perform action))

end Session

end Records

/-- Of the deeds, this declaration was executed in a frame that was added after
the store, or in the global frame at the top level of an included source. -/
def Deed.Settles
    (deeds : List Deed)
    (store : Store)
    (statement : Stmt)
    (start : Machine) : Prop :=
  store.nextFrame ≤ start.active ∨
    (start.active = globalFrame ∧
      ∃ program loaded, .included program loaded ∈ deeds ∧
        statement ∈ program.statements)

section Settles

variable {context : Context} {stopping : Stopping} {steps : Nat}
  {statements : List Stmt}
variable {deeds more : List Deed} {store later : Store}
  {machine start ended : Machine}
variable {statement : Stmt} {session : Session}

/-- More deeds since an earlier store. -/
theorem Deed.Settles.mono
    (settles : Deed.Settles deeds later statement start)
    (frames : store.nextFrame ≤ later.nextFrame)
    (subset : ∀ deed ∈ deeds, deed ∈ more) :
    Deed.Settles more store statement start := by
  rcases settles with isLater | ⟨isGlobal, program, loaded, isIncluded, isTop⟩
  · exact .inl (Nat.le_trans frames isLater)
  · exact .inr ⟨isGlobal, program, loaded, subset _ isIncluded, isTop⟩

/-- What is declared by statements that are run one after another in the global
frame. -/
theorem lands_runStatements
    (isGlobal : machine.active = globalFrame)
    (orderly : Stmt.OrderlyAll statements)
    (member :
      .declared statement start ended ∈ statementDeeds context stopping steps
        statements machine) :
    Deed.Settles (statementDeeds context stopping steps statements machine)
      machine.store
        statement start ∨
      (start.active = globalFrame ∧ statement ∈ statements) := by
  induction statements generalizing machine with
  | nil => cases member
  | cons first rest inductionHypothesis =>
      simp only [Stmt.OrderlyAll] at orderly
      unfold statementDeeds at member ⊢
      split at member
      · cases member
      · rename_i goesOn
        rw [if_neg goesOn]
        rcases List.mem_append.mp member with isFirst | isLater
        · obtain ⟨-, later | ⟨same, isOwn⟩ | ⟨top, program, loaded, isIncluded,
              isTop⟩⟩ :=
            Task.lands isFirst
          · exact .inl (.inl later)
          · exact .inr ⟨same.trans isGlobal,
              List.mem_cons.mpr
                (.inl (List.mem_singleton.mp (isOwn orderly.1)))⟩
          · exact .inl (.inr
              ⟨top, program, loaded, List.mem_append_left _ isIncluded, isTop⟩)
        · obtain ⟨flow, after, yields, isThere⟩ := mem_onwards_iff.mp isLater
          cases flow with
          | returned value => cases isThere
          | normal =>
              have extend := (Machine.respected_extends.keeps_task context steps
                (.exec first)).ok yields
              rcases inductionHypothesis (extend.active.trans isGlobal)
                  orderly.2 isThere with
                settles | ⟨top, isOwn⟩
              · exact .inl (settles.mono extend.size fun deed isDeed =>
                  List.mem_append_right _
                    (mem_onwards_iff.mpr ⟨_, _, yields, isDeed⟩))
              · exact .inr ⟨top, .tail _ isOwn⟩

namespace Session

/-- Merging natives declares nothing. -/
theorem declared_notMem_mergingDeeds
    (natives : List Native)
    (machine : Machine) :
    .declared statement start ended ∉ mergingDeeds natives machine := by
  induction natives generalizing machine with
  | nil => simp [mergingDeeds]
  | cons native rest inductionHypothesis =>
      simp [mergingDeeds, inductionHypothesis]

/-- What a run declares. -/
theorem lands_run
    (rests : session.AtRest)
    {source : ByteArray}
    (member : .declared statement start ended ∈ session.runDeeds stopping
      steps source) :
    Deed.Settles (session.runDeeds stopping steps source) session.machine.store
      statement start := by
  unfold runDeeds Machine.compile at *
  rcases accepted : Program.compile source session.machine.nextNode with
    ⟨error | program, next⟩
  · simp [accepted] at member
  · simp only [accepted] at member ⊢
    have merges := records_defineNatives session.registered.values
      (session.machine.load program next)
    have isGlobal := rests.active_prepared next program
    rcases List.mem_append.mp member with isMerged | isRun
    · exact absurd isMerged (declared_notMem_mergingDeeds _ _)
    · rcases List.mem_cons.mp isRun with same | isDone
      · cases same
      · rcases lands_runStatements isGlobal (Program.compile_made accepted).1.2
            isDone with
          settles | ⟨top, isOwn⟩
        · exact settles.mono merges.retains.frames fun deed isDeed =>
            List.mem_append_right _ (.tail _ isDeed)
        · exact .inr ⟨top, program, _, List.mem_append_right _ (.head _), isOwn⟩

/-- What an action of the host declares. -/
theorem lands_perform
    (rests : session.AtRest)
    {action : HostAction}
    (member : .declared statement start ended ∈ session.actionDeeds action) :
    Deed.Settles (session.actionDeeds action) session.machine.store
      statement start := by
  cases action with
  | register _ _ | withLibrary _ | withOutput _ | updateWorld _ => cases member
  | run stopping steps source => exact lands_run rests member
  | runFile steps path =>
      cases readable : session.disk path with
      | error failure => simp [actionDeeds, readable] at member
      | ok source =>
          simp only [actionDeeds, readable] at member ⊢
          have restsBeside : (session.beside path).AtRest :=
            ⟨by rw [machine_beside, rests.active], by
              rw [machine_beside, rests.requiring]⟩
          have settles := lands_run restsBeside member
          rwa [machine_beside] at settles

/-- What actions of the host declare, one after another. -/
theorem lands_performAll
    (rests : session.AtRest)
    {actions : List HostAction}
    (member : .declared statement start ended ∈ session.deeds actions) :
    Deed.Settles (session.deeds actions) session.machine.store
      statement start := by
  induction actions generalizing session with
  | nil => cases member
  | cons action rest inductionHypothesis =>
      rcases List.mem_append.mp member with isFirst | isLater
      · exact (lands_perform rests isFirst).mono (Nat.le_refl _) fun _ =>
          List.mem_append_left _
      · exact (inductionHypothesis (rests.perform action) isLater).mono
          (records_perform session action).retains.frames fun _ =>
            List.mem_append_right _

/-- The globals of a session are the natives that were merged and what was
declared at the top level of sources. -/
theorem isSome_global?_iff
    (disk : Disk)
    (output : Sink)
    (world : World)
    (actions : List HostAction)
    (name : String) :
    let session := bare disk output world
    ((session.performAll actions).global? name).isSome ↔
      (∃ native merged, .merged native merged ∈ session.deeds actions ∧
        name = native.name) ∨
        Deed.Publishes (session.deeds actions) name := by
  intro session
  have records := records_performAll session actions
  have named := records.holds_iff
    (show globalFrame < session.machine.store.nextFrame from Nat.zero_lt_one)
    name
  have empty : session.machine.store.holds globalFrame name = false := by
    rw [Store.holds, show session.machine.store = Store.initial from rfl,
      Store.lookup?_initial]
    rfl
  rw [empty] at named
  simp only [Bool.false_eq_true, false_or] at named
  refine named.trans ⟨?_, ?_⟩
  · rintro ⟨deed, member, names⟩
    cases deed with
    | task _ _ => exact names.elim
    | included _ _ => exact names.elim
    | yielded _ _ _ => exact names.elim
    | set _ _ _ _ => exact names.elim
    | merged native merged => exact .inl ⟨native, merged, member, names.2⟩
    | declared statement start ended =>
        obtain ⟨isGlobal, declares⟩ := names
        rcases lands_performAll ⟨rfl, rfl⟩ member with
          later | ⟨-, program, loaded, isIncluded, isTop⟩
        · rw [← isGlobal] at later
          exact absurd later (Nat.not_succ_le_zero 0)
        · exact .inr ⟨program, loaded, statement, start, ended, isIncluded,
            isTop, member, isGlobal.symm, declares⟩
  · rintro (⟨native, merged, member, same⟩ | publishes)
    · exact ⟨.merged native merged, member, rfl, same⟩
    · exact publishes.names

/-- Wherever a statement of an accepted source is executed and however that
ends, every frame that there was keeps the names that it has.  The frame that is
active gets the name that the statement declares, if it declares one and ends
without an error; the global frame gets the names of declarations that were
completed meanwhile at the top level of required sources; and that is all.
Expressions, assignments among them, give a name to no frame but the global one
in that way.  So in every session, a name is that of a global if a native of the
name was merged, or a declaration of the name was completed at the top level of
a source, and only then. -/
theorem declarations_land_in_the_active_frame :
    (∀ {source : ByteArray} {program : Program} {first next : NodeId}
        {statement : Stmt} {analysis : Analysis},
      Program.compile source first = (.ok program, next) →
      program.Visits (.stmt statement) analysis →
      ∀ (context : Context) (steps : Nat) (machine : Machine),
        let published (frame : FrameId) (name : String) :=
          frame = globalFrame ∧
            Deed.Publishes
              ((Task.exec statement).deeds context steps machine) name
        Leads (exec context steps statement) machine
          (fun _ after =>
            machine.store.NamesGrow
              (fun frame name =>
                (frame = machine.active ∧ statement.Declares name) ∨
                  published frame name)
              after.store)
          (fun _ after => machine.store.NamesGrow published after.store)) ∧
    (∀ (context : Context) (steps : Nat) (expr : Expr) (machine : Machine),
      let published (frame : FrameId) (name : String) :=
        frame = globalFrame ∧
          Deed.Publishes ((Task.eval expr).deeds context steps machine) name
      Leads (eval context steps expr) machine
        (fun _ after => machine.store.NamesGrow published after.store)
        (fun _ after => machine.store.NamesGrow published after.store)) ∧
    ∀ (disk : Disk) (output : Sink) (world : World) (actions : List HostAction)
      (name : String),
      let session := bare disk output world
      ((session.performAll actions).global? name).isSome ↔
        (∃ native merged, .merged native merged ∈ session.deeds actions ∧
          name = native.name) ∨
          Deed.Publishes (session.deeds actions) name := by
  refine ⟨?_, names_eval, isSome_global?_iff⟩
  intro source program first next statement analysis accepted visits context
    steps machine
  exact names_exec context steps
    ((Program.compiled_of_compile accepted).part_orderly visits) machine

/-- A function outlives the block that it is declared in, and with it the frame
of the block. -/
def outliving : List HostAction :=
  [.run .heeding 9
    "var kept; \x7b var a; fun f() \x7b print a; \x7d kept = f; \x7d".toUTF8]

/-- The variable of another block lands in the frame of that block, the third
one.  The second frame, which the function holds on to, and the global one stay
without it. -/
theorem declaration_spares_frame_of_function :
    let declaration := Stmt.varDecl ⟨.identifier "b", "b", 1⟩ none
    let machine := (quiet.performAll outliving).machine
    let entered : Machine :=
      { machine with
        store := machine.store.allocate ⟨NameMap.empty, some machine.active⟩
        active := machine.store.nextFrame }
    Program.compile "\x7b var b; \x7d".toUTF8 0 =
      (.ok ⟨[.block [declaration]], {}⟩, 0) ∧
      ∃ after, exec quiet.context 1 declaration entered = .ok .normal after ∧
        after.store.holds 2 "b" = true ∧ after.store.holds 1 "b" = false ∧
        after.store.holds 1 "a" = true ∧
        after.store.holds globalFrame "kept" = true := by
  intro declaration machine entered
  have scanned : Program.tokens "\x7b var b; \x7d".toUTF8 =
      .ok [⟨.symbol .leftBrace, "\x7b", 1⟩, ⟨.keyword .varWord, "var", 1⟩,
        ⟨.identifier "b", "b", 1⟩, ⟨.symbol .semicolon, ";", 1⟩,
        ⟨.symbol .rightBrace, "\x7d", 1⟩, ⟨.endOfInput, "", 1⟩] := by
    cbv
  have accepted :
      Program.compile "\x7b var b; \x7d".toUTF8 0 =
        (.ok ⟨[.block [declaration]], {}⟩, 0) :=
    Program.compile_of_parsed scanned (by cbv) rfl
  have visits : Program.Visits ⟨[.block [declaration]], {}⟩ (.stmt declaration)
      { scopes := [NameMap.empty] } :=
    .enter (.enter (.enter .here .firstStmt) .block) .firstStmt
  have isThird : machine.store.nextFrame = 2 := by decide +kernel
  have there : 2 < entered.store.nextFrame ∧ 1 < entered.store.nextFrame ∧
      globalFrame < entered.store.nextFrame := by
    decide +kernel
  have without : entered.store.holds 1 "b" = false := by decide +kernel
  have others : entered.store.holds 1 "a" = true ∧
      entered.store.holds globalFrame "kept" = true :=
    by decide +kernel
  clear_value machine
  obtain ⟨lands, -⟩ := declarations_land_in_the_active_frame
  have grows := (lands accepted visits quiet.context 1 entered).ok rfl
  refine ⟨accepted, _, rfl, ?_, ?_, ?_, ?_⟩
  · exact (grows.names 2 there.1 "b").mpr
      (.inr (.inl ⟨isThird.symm, _, rfl, rfl⟩))
  · rw [Bool.eq_false_iff, ne_eq, grows.names 1 there.2.1 "b"]
    rintro (holds | ⟨isActive, -⟩ | ⟨isGlobal, -⟩)
    · rw [without] at holds
      cases holds
    · cases isActive.trans isThird
    · cases isGlobal
  · exact (grows.names 1 there.2.1 "a").mpr (.inl others.1)
  · exact (grows.names globalFrame there.2.2 "kept").mpr (.inl others.2)

end Session

end Settles

end LoxScript
