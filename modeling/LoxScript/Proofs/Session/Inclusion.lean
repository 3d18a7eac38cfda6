import Mathlib
import LoxScript.Proofs.Compilation
import LoxScript.Proofs.Seclusion.Runs
import LoxScript.Proofs.Session.Restoration
import LoxScript.Proofs.Session.Sequence

namespace LoxScript

/-!
# To require a source is to run it

A required source is executed in the global frame, whatever the frame of the
code that requires it.  As long as the source does not come back to its own
path, its statements do what they do when the source is run itself: to the
output, to the globals and in how they end.  Frames of the code that requires it
get no names from it, and are not looked at from it.
-/

open Run

variable {context : Context} {machine compiled after : Machine}
  {program : Program}
variable {source : ByteArray} {keyword : Token} {path : String} {steps : Nat}

/-- The machine in which the statements of a program start as those of a
required source. -/
def Machine.included (machine : Machine) (program : Program) : Machine :=
  { machine.learn program.distances with active := globalFrame }

/-- The machine back in the frame it was in and with the sources it had. -/
def Machine.backTo (before after : Machine) : Machine :=
  { after with active := before.active, requiring := before.requiring }

/-- How a step ends that required a source whose statements ended in this
way. -/
def Machine.leaving (before : Machine) :
    EStateM.Result Halt Machine Flow → EStateM.Result Halt Machine Flow
  | .ok _ last => .ok .normal (before.backTo last)
  | .error halt last => .error halt (before.backTo last)

/-- Executing a step as a required source: since the step leaves the stack as it
was, it is the path of the source that is taken off. -/
theorem Run.whileRequiring_eq
    {step : Run Flow}
    (keeps : Keeps Machine.SameContext step)
    (path : String)
    (machine : Machine) :
    (do let _ ← whileRequiring path (inFrame globalFrame step); return .normal :
      Run Flow) machine =
      machine.leaving
        (step
          { machine with
            active := globalFrame
            requiring := path :: machine.requiring }) := by
  have entered : whileRequiring path (inFrame globalFrame step) machine =
      match step
        { machine with
          active := globalFrame, requiring := path :: machine.requiring } with
      | .ok flow last => .ok flow (machine.backTo last)
      | .error halt last => .error halt (machine.backTo last) := by
    simp only [whileRequiring, inFrame]
    cases outcome :
        step
          { machine with
            requiring := path :: machine.requiring, active := globalFrame } with
    | ok flow last =>
        have same : last.requiring = path :: machine.requiring :=
          (keeps.ok outcome).requiring
        simp only [Machine.backTo, same, List.tail_cons]
    | error halt last =>
        have same : last.requiring = path :: machine.requiring :=
          (keeps.error outcome).requiring
        simp only [Machine.backTo, same, List.tail_cons]
  cases outcome :
      step
        { machine with
          active := globalFrame, requiring := path :: machine.requiring } with
  | ok flow last =>
      rw [outcome] at entered
      rw [bind_of_ok entered]
      rfl
  | error halt last =>
      rw [outcome] at entered
      rw [bind_of_error entered]
      rfl

section Required

variable (fresh : path ∉ machine.requiring)
  (found : context.library path = .ok source)
variable (accepted : machine.compile source = (.ok program, compiled))

include accepted

/-- Compiling a source hands out identities and does nothing else. -/
theorem Machine.sameContext_of_compile :
    machine.SameContext compiled := by
  obtain ⟨next, -, rfl⟩ := Machine.compile_eq_ok_iff.mp accepted
  exact ⟨rfl, rfl⟩

include fresh found

/-- An accepted source that is not being executed is loaded. -/
theorem Run.loadRequired_eq_ok :
    loadRequired context keyword path machine =
      .ok program (compiled.learn program.distances) := by
  have absent : machine.requiring.contains path = false := by
    simpa using fresh
  unfold loadRequired
  rw [bind_get, absent, if_neg Bool.false_ne_true, found]
  have loads :
      (modifyGet fun machine => machine.compile source : Run _) machine =
      .ok (.ok program) compiled := by
    rw [modifyGet_eq, accepted]
  exact (bind_of_ok loads).trans rfl

/-- A source is required by executing its statements in the global frame. -/
theorem exec_require_eq :
    exec context (steps + 1) (.require keyword path) machine =
      machine.leaving (execAll context steps program.statements
        ((compiled.included program).within (path :: machine.requiring))) := by
  obtain ⟨sameActive, sameRequiring⟩ := Machine.sameContext_of_compile accepted
  have keeps : Keeps Machine.SameContext
      (execAll context steps program.statements) :=
    Machine.respected_sameContext.keeps_task context steps
      (.execAll program.statements)
  rw [exec, bind_of_ok (loadRequired_eq_ok fresh found accepted),
    whileRequiring_eq keeps]
  simp only [Machine.included, Machine.within, Machine.leaving, Machine.backTo,
    Machine.learn, sameActive, sameRequiring]

end Required

/-- The machine after statements, back in the frame of the machine before
them. -/
theorem Machine.backTo_within
    {stack : List String}
    {last : Machine}
    (same : machine.requiring = last.requiring) :
    machine.backTo (last.within stack) =
      { last with active := machine.active } := by
  simp only [Machine.backTo, Machine.within, same]

/-- How the required source ended is how the step ends that required it. -/
theorem Machine.ofResult_leaving
    (result : EStateM.Result Halt Machine Flow) :
    Outcome.ofResult (machine.leaving result) =
      ((Outcome.ofResult result).1, machine.backTo
        (Outcome.ofResult result).2) := by
  rcases result with ⟨_, _⟩ | ⟨_ | _, _⟩ <;> rfl

section Effect

variable {stopping : Stopping} {outcome : Outcome}
variable (fresh : path ∉ machine.requiring)
  (found : context.library path = .ok source)
variable (accepted : machine.compile source = (.ok program, compiled))
variable
  (undisturbed :
    Undisturbed context stopping path program.statements
      (compiled.included program))

include fresh found accepted undisturbed

/-- A source that is never stopped and never requires its own path ends, when it
is required, as it ends when its statements are run in the global frame, and the
machine is afterwards the same but for the frame that it comes back to. -/
theorem exec_require_iff
    (ends : outcome ≠ .exhausted) :
    (∃ steps, Outcome.ofResult
      (exec context steps (.require keyword path) machine) =
        (outcome, after)) ↔
      ∃ steps last,
        runStatements context stopping steps program.statements
          (compiled.included program) =
            (outcome, last) ∧
          after = { last with active := machine.active } := by
  have sameRequiring := (Machine.sameContext_of_compile accepted).requiring
  have same : SameBut path (path :: machine.requiring)
      (compiled.included program).requiring := by
    intro entry different
    rw [show (compiled.included program).requiring =
      machine.requiring from sameRequiring]
    simp [different]
  have comesBack (steps : Nat) :
      machine.requiring =
        (runStatements context stopping steps program.statements
          (compiled.included program)).2.requiring :=
    ((sameContext_runStatements context stopping steps program.statements
      (compiled.included program)).requiring.trans sameRequiring).symm
  constructor
  · rintro ⟨steps, yields⟩
    cases steps with
    | zero =>
        cases yields
        exact absurd rfl ends
    | succ steps =>
        rw [exec_require_eq fresh found accepted,
          Machine.ofResult_leaving] at yields
        obtain ⟨rfl, rfl⟩ := Prod.mk.inj yields
        have ran := undisturbed.ofResult_execAll_of_ends same ends
        rw [ran]
        exact ⟨steps, _, rfl, Machine.backTo_within (comesBack steps)⟩
  · rintro ⟨steps, last, ran, rfl⟩
    have executed := undisturbed.ofResult_execAll same (by rw [ran]; exact ends)
    refine ⟨steps + program.statements.length + 1 + 1, ?_⟩
    rw [exec_require_eq fresh found accepted, Machine.ofResult_leaving,
      executed]
    have comesBackHere := comesBack steps
    rw [ran] at comesBackHere ⊢
    exact Prod.ext rfl (Machine.backTo_within comesBackHere)

/-- In the global frame, a program that only requires the source ends as the
source does. -/
theorem runStatements_require_iff
    (isGlobal : machine.active = globalFrame)
    (goesOn : stopping.stops machine.world = false)
    (ends : outcome ≠ .exhausted) :
    (∃ steps, runStatements context stopping steps
      [.require keyword path] machine =
        (outcome, after)) ↔
      ∃ steps, runStatements context stopping steps program.statements
        (compiled.included program) = (outcome, after) := by
  have comesBack (steps : Nat) (last : Machine)
      (ran : runStatements context stopping steps program.statements
        (compiled.included program) = (outcome, last)) :
      { last with active := machine.active } = last := by
    have same :=
      sameContext_runStatements context stopping steps program.statements
      (compiled.included program)
    rw [ran] at same
    rw [isGlobal, ← show last.active = globalFrame from same.active]
  simp only [runStatements_singleton goesOn]
  refine (exec_require_iff fresh found accepted undisturbed ends).trans ⟨?_, ?_⟩
  · rintro ⟨steps, last, ran, rfl⟩
    exact ⟨steps,
      ran.trans (congrArg (Prod.mk outcome) (comesBack steps last ran).symm)⟩
  · rintro ⟨steps, ran⟩
    exact ⟨steps, after, ran, (comesBack steps after ran).symm⟩

end Effect

/-- To require a source gives no local frame a name, whatever comes of it. -/
theorem behaves_require
    {offered : ByteArray → Prop}
    (sound : machine.Sound offered context)
    (ready : (Task.exec (.require keyword path)).Ready offered machine)
    (steps : Nat) :
    Behaves offered context none (exec context steps (.require keyword path))
      machine
      fun flow _ => flow = .normal := by
  cases steps with
  | zero => exact .ofExhausted sound
  | succ steps =>
      refine Behaves.andThen (behaves_loadRequired sound keyword path) ?_
      intro program loaded loads advances knows
      have inner := (works_always offered context steps).asked sound ready
        (.required loads)
      refine Behaves.andThen (behaves_required inner) ?_
      intro _ last _ further _
      exact .ofPure further.sound rfl

/-- So are the included statements that the require statement comes to. -/
theorem reaches_included
    {stopping : Stopping}
    {statements : List Stmt}
    {statement : Stmt}
    {start entered : Machine}
    {task : Task}
    (reaches : Reaches context task machine (.execAll statements) entered)
    (proceeds :
      Proceeds context stopping steps statements entered statement start) :
    Reaches context task machine (.exec statement) start := by
  induction proceeds with
  | here _ => exact .call 0 reaches .firstStmt
  | next _ yields _ inductionHypothesis =>
      exact inductionHypothesis (.call steps reaches (.restStmts yields))

/-- The statements of a required source are executed in the global frame. -/
theorem Proceeds.global
    {stopping : Stopping}
    {statements : List Stmt}
    {statement : Stmt}
    {start : Machine}
    (proceeds :
      Proceeds context stopping steps statements machine statement start) :
    start.active = machine.active := by
  induction proceeds with
  | here _ => rfl
  | next _ yields _ inductionHypothesis =>
      exact inductionHypothesis.trans
        ((Machine.respected_sameContext.keeps_task context steps (.exec _)).ok
          yields).active

/-- What it means for code in any frame to require an accepted source. -/
structure Machine.Includes
    (machine : Machine)
    (context : Context)
    (keyword : Token)
    (path : String)
    (program : Program)
    (compiled : Machine) : Prop where
  /-- Whatever comes of running the statements in the global frame comes of
  requiring them, and the other way round; the machine is the same but for the
  frame that it comes back to. -/
  effect :
    ∀ stopping,
      Undisturbed context stopping path program.statements
        (compiled.included program) →
        ∀ outcome after, outcome ≠ Outcome.exhausted →
          ((∃ steps, Outcome.ofResult
            (exec context steps (.require keyword path) machine) =
              (outcome, after)) ↔
            ∃ steps last,
              runStatements context stopping steps program.statements
                  (compiled.included program) = (outcome, last) ∧
                after = { last with active := machine.active })
  /-- After the statements, the code that required them goes on. -/
  normal :
    ∀ steps flow after,
      exec context steps (.require keyword path) machine = .ok flow after →
        flow = .normal
  /-- The statements are executed on the way, in the global frame. -/
  isGlobal :
    ∀ steps statement start,
      Proceeds context .unheeding steps program.statements
          ((compiled.included program).within (path :: machine.requiring))
          statement start →
        Reaches context (.exec (.require keyword path)) machine
          (.exec statement) start ∧
          start.active = globalFrame
  /-- No local frame of the code that requires them gets a name. -/
  steady :
    ∀ steps,
      machine.store.Steady none
        (Outcome.ofResult
          (exec context steps (.require keyword path) machine)).2.store
  /-- References of the statements, and of all sources that they require, are
  evaluated where no local frame of the code that requires them is in sight. -/
  apart :
    (∀ reference ∈ Stmt.referencesAll program.statements, machine.nextNode ≤
      reference.id) ∧
      ∀ expr node inner,
        Reaches context (.exec (.require keyword path)) machine
          (.eval expr) inner →
          expr.node? = some node → machine.nextNode ≤ node.id →
            ∀ distance frame,
              inner.store.ancestor? inner.active distance = some frame →
              frame = globalFrame ∨ machine.store.nextFrame ≤ frame

/-- Sound machines include what they require. -/
theorem Machine.Sound.includes
    {offered : ByteArray → Prop}
    (sound : machine.Sound offered context)
    (ready : (Task.exec (.require keyword path)).Ready offered machine)
    (fresh : path ∉ machine.requiring)
    (found : context.library path = .ok source)
    (accepted : machine.compile source = (.ok program, compiled)) :
    machine.Includes context keyword path program compiled where
  effect stopping undisturbed outcome after ends :=
    exec_require_iff fresh found accepted undisturbed ends
  normal steps flow after yields :=
    (Leads.ok (behaves_require sound ready steps) yields).2
  isGlobal steps statement start proceeds := by
    have entered : Reaches context (.exec (.require keyword path)) machine
        (.execAll program.statements)
        ((compiled.included program).within (path :: machine.requiring)) := by
      have calls : Calls context steps (.exec (.require keyword path)) machine
          (.execAll program.statements)
          { compiled.learn program.distances with
            requiring := path :: compiled.requiring, active := globalFrame } :=
        .required (loadRequired_eq_ok fresh found accepted)
      rw [← (Machine.sameContext_of_compile accepted).requiring]
      exact .call steps .here calls
    exact ⟨reaches_included entered proceeds, proceeds.global⟩
  steady steps := by
    have behaves := behaves_require sound ready steps
    cases yields : exec context steps (.require keyword path) machine with
    | ok flow after => exact (Leads.ok behaves yields).1.steady
    | error halt after =>
        have steady := (Leads.error behaves yields).steady
        cases halt <;> exact steady
  apart := by
    refine ⟨?_, ?_⟩
    · intro reference member
      obtain ⟨next, compiles, -⟩ := Machine.compile_eq_ok_iff.mp accepted
      exact ((Program.compiled_of_compile compiles).handed.within
        reference member).1
    · intro expr node inner reaches isNode later distance frame isFound
      have suits : (Task.exec (.require keyword path)).Suits
          machine.drawn machine :=
        .inl nofun
      obtain ⟨secluded, early | late⟩ :=
        reaches.suits sound.lends sound.secluded suits
      · have below :=
          early node.id (List.mem_map_of_mem (Expr.node?_mem isNode))
        exact absurd later (Nat.not_le_of_lt below)
      · have soundThere := (reaches.ready sound ready).1
        exact late.ancestor soundThere.rooted isFound

/-- A source that requires another one and does nothing else has no
references. -/
theorem Program.compile_requirer
    {requirer : ByteArray}
    {first next : NodeId}
    {table : Distances}
    (accepted :
      compile requirer first = (.ok ⟨[.require keyword path], table⟩, next)) :
    next = first ∧ table = {} := by
  obtain ⟨scanned, scans, parsed, resolved⟩ := compile_eq_ok_iff.mp accepted
  obtain ⟨body, finish, rfl, isSealed⟩ := sealed_tokens scans
  refine ⟨?_, (Except.ok.inj resolved).symm⟩
  have derives := (parseProgram_eq_ok_iff isSealed first next _).mp parsed
  generalize value : Stmt.require keyword path = statement at derives
  cases derives with
  | andThen derivesFirst derivesRest =>
      cases derivesRest
      subst value
      cases derivesFirst with
      | plain derivesStatement =>
          generalize value :
            Stmt.require keyword path = statement at derivesStatement
          cases derivesStatement with
          | require => rfl
          | forLoop =>
              unfold Stmt.forLoop at value
              repeat' split at value
              all_goals cases value
          | _ => cases value
      | varDecl _ derivesVariable => cases derivesVariable

/-- To learn nothing is to change nothing. -/
theorem Distances.union_empty
    (distances : Distances) :
    distances ∪ {} = distances := by
  obtain ⟨⟨tree, valid⟩⟩ := distances
  cases tree with
  | leaf => rfl
  | inner size key value left right =>
      -- The union compares the sizes of the two tables first, and an inner node
      -- has one.
      have positive : ¬ size ≤ 0 := by
        cases valid.balanced
        omega
      apply congrArg Std.TreeMap.mk
      simp only [Std.DTreeMap.union, Std.DTreeMap.mk.injEq]
      exact if_neg positive

namespace Session

variable {session : Session} {stopping : Stopping} {requirer : ByteArray}

/-- Defining natives changes the globals only. -/
theorem defineNatives_eq_foldl
    (natives : List Native)
    (machine : Machine) :
    defineNatives natives machine =
      { machine with
        store := natives.foldl
          (fun store native => store.define globalFrame native.name
            (.native native))
          machine.store } := by
  induction natives generalizing machine with
  | nil => rfl
  | cons native rest inductionHypothesis =>
      exact inductionHypothesis
        (machine.defineGlobal native.name (.native native))

/-- The outcome of a run and the session after it, once its statements have been
run. -/
def settled (session : Session) (result : Outcome × Machine) :
    Outcome × Session :=
  (flushed result.1 result.2.output, { session with machine := result.2 })

/-- An accepted source is run by running its statements. -/
theorem run_eq_settled
    (accepted : session.machine.compile source = (.ok program, compiled))
    (stopping : Stopping)
    (steps : Nat) :
    session.run stopping steps source =
      session.settled
        (runStatements session.context stopping steps program.statements
          (prepared { session with machine := compiled } program)) := by
  unfold Session.run
  rw [accepted]
  rfl

/-- Runs that end alike do so after their output is flushed. -/
theorem settled_iff
    {results others : Nat → Outcome × Machine}
    {outcome : Outcome}
    {last : Session}
    (alike :
      ∀ result machine, result ≠ Outcome.exhausted →
        ((∃ steps, results steps = (result, machine)) ↔
          ∃ steps, others steps = (result, machine)))
    (ends : outcome ≠ .exhausted) :
    (∃ steps, session.settled (results steps) = (outcome, last)) ↔
      ∃ steps, session.settled (others steps) = (outcome, last) := by
  have unsettled {result : Outcome × Machine}
      (settles : session.settled result = (outcome, last)) :
      result.1 ≠ .exhausted := by
    intro exhausted
    apply ends
    rw [show outcome = flushed result.1
      result.2.output from (congrArg Prod.fst settles).symm, exhausted]
    rfl
  constructor
  · rintro ⟨steps, settles⟩
    obtain ⟨further, same⟩ := (alike _ _ (unsettled settles)).mp ⟨steps, rfl⟩
    exact ⟨further, same ▸ settles⟩
  · rintro ⟨steps, settles⟩
    obtain ⟨further, same⟩ := (alike _ _ (unsettled settles)).mpr ⟨steps, rfl⟩
    exact ⟨further, same ▸ settles⟩

section Requirer

variable {table : Distances} {other : Machine}
variable (rests : session.AtRest)
variable (found : session.library path = .ok source)
variable (accepted : session.machine.compile source = (.ok program, compiled))
variable
  (requires :
    session.machine.compile requirer =
      (.ok ⟨[.require keyword path], table⟩, other))

include rests accepted requires

/-- A session is prepared for a source as it includes the source when it is
prepared for one that requires it. -/
theorem prepared_requirer :
    ∃ inner,
      (prepared { session with machine := other }
        ⟨[.require keyword path], table⟩).compile
          source = (.ok program, inner) ∧
        inner.included program =
          prepared { session with machine := compiled } program := by
  obtain ⟨next, compiles, rfl⟩ := Machine.compile_eq_ok_iff.mp accepted
  obtain ⟨same, compilesRequirer, rfl⟩ := Machine.compile_eq_ok_iff.mp requires
  obtain ⟨rfl, rfl⟩ := Program.compile_requirer compilesRequirer
  refine ⟨_, Machine.compile_eq_ok_iff.mpr ⟨next, ?_, rfl⟩, ?_⟩
  · simp only [prepared, defineNatives_eq_foldl, Machine.learn]
    exact compiles
  · simp only [prepared, defineNatives_eq_foldl, Machine.included,
      Machine.learn, rests.active, Distances.union_empty]

include found

/-- A session at rest ends a source that is required as it ends the source
itself, if it is not stopped and the source never requires its own path. -/
theorem run_requirer_iff
    {outcome : Outcome}
    {last : Session}
    (undisturbed :
      Undisturbed session.context stopping path program.statements
        (prepared { session with machine := compiled } program))
    (starts : stopping.stops session.machine.world = false)
    (ends : outcome ≠ .exhausted) :
    (∃ steps, session.run stopping steps requirer = (outcome, last)) ↔
      ∃ steps, session.run stopping steps source = (outcome, last) := by
  obtain ⟨inner, acceptedThere, includes⟩ :=
    prepared_requirer rests accepted requires
  let start := prepared { session with machine := other }
    ⟨[.require keyword path], table⟩
  obtain ⟨sameActive, sameRequiring, sameWorld⟩ :
      start.active = session.machine.active ∧
      start.requiring = session.machine.requiring ∧
      start.world = session.machine.world := by
    obtain ⟨next, -, rfl⟩ := Machine.compile_eq_ok_iff.mp requires
    unfold start prepared
    rw [defineNatives_eq_foldl]
    exact ⟨rfl, rfl, rfl⟩
  have fresh : path ∉ start.requiring := by
    rw [sameRequiring, rests.requiring]
    exact List.not_mem_nil
  have isGlobal := sameActive.trans rests.active
  have ranRequirer := run_eq_settled requires stopping
  have ranSource := run_eq_settled accepted stopping
  simp only [ranRequirer, ranSource]
  refine settled_iff ?_ ends
  intro result machine settles
  rw [← includes] at undisturbed ⊢
  rw [← sameWorld] at starts
  exact runStatements_require_iff fresh found acceptedThere undisturbed isGlobal
    starts settles

end Requirer

/-- To require a source is to run it.  A session at rest comes to the same, the
same output, outcome and machine, by running a source that only requires another
one and by running that other one, provided that this is not stopped and never
requires its own path.  Whatever other source a session runs, code of that
source includes what it requires in the same way, in whatever frame it is
executed. -/
theorem require_is_run :
    (∀ {session : Session}
      {stopping path source requirer keyword table other program compiled},
      session.AtRest → session.library path = .ok source →
      session.machine.compile source = (.ok program, compiled) →
      session.machine.compile requirer =
        (.ok ⟨[.require keyword path], table⟩, other) →
      Undisturbed session.context stopping path program.statements
        (prepared { session with machine := compiled } program) →
      stopping.stops session.machine.world = false →
        ∀ outcome last, outcome ≠ Outcome.exhausted →
          ((∃ steps, session.run stopping steps requirer = (outcome, last)) ↔
            ∃ steps, session.run stopping steps source = (outcome, last))) ∧
    ∀ {session : Session} {offered stopping steps main path source keyword
        program machine compiled},
      session.Lives offered → offered main →
      session.Reaches stopping steps main
        (.exec (.require keyword path)) machine →
      path ∉ machine.requiring → session.library path = .ok source →
      machine.compile source = (.ok program, compiled) →
        machine.Includes session.context keyword path program compiled := by
  refine ⟨?_, ?_⟩
  · intro session stopping path source requirer keyword table other program
      compiled rests found accepted requires undisturbed starts outcome last
      ends
    exact run_requirer_iff rests found accepted requires undisturbed starts ends
  · intro session offered stopping steps main path source keyword program
      machine compiled lives isOffered reaches fresh found accepted
    obtain ⟨sound, ready⟩ := reaches.ready lives isOffered
    exact sound.includes ready fresh found accepted

/-- A source that declares a variable and shows it. -/
def shared : ByteArray :=
  "var a = true; print a;".toUTF8

/-- The program of that source. -/
def sharedProgram : Program :=
  ⟨[.varDecl ⟨.identifier "a", "a", 1⟩ (some (.literal (.boolean true))),
    .print (.reference 0 ⟨.identifier "a", "a", 1⟩)], {}⟩

/-- A session whose library has that source only. -/
def sharing : Session :=
  (bare (fun _ => .error .missing) {}
    { clock := 0, entropy := fun _ => 0 }).withLibrary
    fun path => if path = "p" then .ok shared else .error .missing

theorem lives_sharing : sharing.Lives fun _ => True :=
  .withLibrary (.bare fun _ _ _ => trivial) fun _ _ _ => trivial

/-- A task that calls nothing and requires nothing. -/
def plain : Task → Prop
  | .eval (.literal _) => True
  | .eval (.reference _ _) => True
  | .exec (.varDecl _ (some (.literal _))) => True
  | .exec (.print (.reference _ _)) => True
  | _ => False

/-- The statements of that source never require anything. -/
theorem undisturbed_shared
    (context : Context)
    (machine : Machine) :
    Undisturbed context .unheeding "p" sharedProgram.statements machine := by
  have avoids {task : Task} {start : Machine} (isPlain : plain task) :
      task.Avoids context "p" start := by
    intro keyword after reaches
    have stays : plain (.exec (.require keyword "p")) := by
      generalize Task.exec (.require keyword "p") = last at reaches
      induction reaches with
      | here => exact isPlain
      | call steps _ calls inductionHypothesis =>
          cases calls with
          | @printed value => cases value <;> trivial
          | @initialized _ value => cases value <;> trivial
          | _ => exact inductionHypothesis.elim
    exact stays
  refine ⟨?_, fun steps => runStatements_unheeding context steps _ machine⟩
  intro steps statement start proceeds
  cases proceeds with
  | here _ => exact avoids trivial
  | next _ _ proceeds =>
      cases proceeds with
      | here _ => exact avoids trivial
      | next _ _ proceeds => cases proceeds

/-- A machine that has handed out no identities compiles the source. -/
theorem compile_shared
    {machine : Machine}
    (fresh : machine.nextNode = 0) :
    machine.compile shared =
      (.ok sharedProgram, { machine with nextNode := 1 }) := by
  have scanned : Program.tokens shared =
      .ok [⟨.keyword .varWord, "var", 1⟩, ⟨.identifier "a", "a", 1⟩,
        ⟨.symbol .equal, "=", 1⟩,
        ⟨.keyword .trueWord, "true", 1⟩, ⟨.symbol .semicolon, ";", 1⟩,
        ⟨.keyword .printWord, "print", 1⟩, ⟨.identifier "a", "a", 1⟩,
        ⟨.symbol .semicolon, ";", 1⟩, ⟨.endOfInput, "", 1⟩] := by
    cbv
  refine Machine.compile_eq_ok_iff.mpr ⟨1, ?_, rfl⟩
  rw [fresh]
  exact Program.compile_of_parsed scanned (by cbv) rfl

/-- A session that runs such a source, and one that requires it in a block. -/
theorem require_is_run_in_block :
    (∀ outcome last, outcome ≠ Outcome.exhausted →
      ((∃ steps, sharing.run .unheeding steps "require \"p\";".toUTF8 =
        (outcome, last)) ↔
        ∃ steps, sharing.run .unheeding steps shared = (outcome, last))) ∧
    ∃ keyword machine compiled,
      sharing.Reaches .unheeding 9 "\x7b require \"p\"; \x7d".toUTF8
          (.exec (.require keyword "p")) machine ∧
        machine.compile shared = (.ok sharedProgram, compiled) ∧
        machine.Includes sharing.context keyword "p" sharedProgram
          compiled := by
  let keyword : Token := ⟨.keyword .requireWord, "require", 1⟩
  have found : sharing.library "p" = .ok shared := rfl
  have scanned : Program.tokens "require \"p\";".toUTF8 =
      .ok [keyword, ⟨.string "p", "\"p\"", 1⟩, ⟨.symbol .semicolon, ";", 1⟩,
        ⟨.endOfInput, "", 1⟩] := by
    cbv
  have scannedBlock : Program.tokens "\x7b require \"p\"; \x7d".toUTF8 =
      .ok [⟨.symbol .leftBrace, "\x7b", 1⟩, keyword, ⟨.string "p", "\"p\"", 1⟩,
        ⟨.symbol .semicolon, ";", 1⟩, ⟨.symbol .rightBrace, "\x7d", 1⟩,
          ⟨.endOfInput, "", 1⟩] := by
    cbv
  have accepted : sharing.machine.compile shared =
      (.ok sharedProgram, { sharing.machine with nextNode := 1 }) :=
    compile_shared rfl
  have requires : sharing.machine.compile "require \"p\";".toUTF8 =
      (.ok ⟨[.require keyword "p"], {}⟩, sharing.machine) :=
    Machine.compile_eq_ok_iff.mpr
      ⟨0, Program.compile_of_parsed scanned (by cbv) rfl, rfl⟩
  have acceptedBlock :
      sharing.machine.compile "\x7b require \"p\"; \x7d".toUTF8 =
      (.ok ⟨[.block [.require keyword "p"]], {}⟩, sharing.machine) :=
    Machine.compile_eq_ok_iff.mpr
      ⟨0, Program.compile_of_parsed scannedBlock (by cbv) rfl, rfl⟩
  refine ⟨?_, keyword, ?_⟩
  · intro outcome last ends
    exact require_is_run.1 ⟨rfl, rfl⟩ found accepted requires
      (undisturbed_shared _ _) rfl outcome last ends
  · let start := prepared sharing ⟨[.block [.require keyword "p"]], {}⟩
    let inner : Machine :=
      { start with
        store := start.store.allocate ⟨NameMap.empty, some start.active⟩
        active := start.store.nextFrame }
    have reaches :
        sharing.Reaches .unheeding 9 "\x7b require \"p\"; \x7d".toUTF8
        (.exec (.require keyword "p")) inner :=
      ⟨_, _, _, start, acceptedBlock, .here rfl,
        .call 1 (.call 1 .here (.block rfl)) .firstStmt⟩
    have acceptedThere : inner.compile shared =
        (.ok sharedProgram, { inner with nextNode := 1 }) :=
      compile_shared rfl
    exact ⟨inner, _, reaches, acceptedThere,
      require_is_run.2 lives_sharing trivial reaches List.not_mem_nil found
        acceptedThere⟩

end Session

end LoxScript
