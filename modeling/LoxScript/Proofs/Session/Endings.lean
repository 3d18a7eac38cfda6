import Mathlib
import LoxScript.Proofs.Machine.Activation
import LoxScript.Proofs.Session.Inclusion

namespace LoxScript

/-!
# Only calls return

What a `return` yields goes as far as the call that it stands in.  No statement
of a run or of a required source yields it, at whatever depth the source is
required, so a run or a required source that ends without an error has been
executed to its last statement.
-/

open Run

/-- Each of the statements is executed in turn and ends normally. -/
inductive ExecutesAll (context : Context) (steps : Nat) :
    List Stmt → Machine → Machine → Prop where
  | nil {machine} : ExecutesAll context steps [] machine machine
  | cons {first rest machine middle after} :
      exec context steps first machine = .ok .normal middle →
      ExecutesAll context steps rest middle after →
      ExecutesAll context steps (first :: rest) machine after

namespace ExecutesAll

variable {context : Context} {steps more : Nat} {statements : List Stmt}
variable {machine after : Machine}

/-- Statements that are executed are so with more steps. -/
theorem of_le
    (executes : ExecutesAll context steps statements machine after)
    (enough : steps ≤ more) :
    ExecutesAll context more statements machine after := by
  induction executes with
  | nil => exact .nil
  | cons yields _ inductionHypothesis =>
      refine .cons ?_ inductionHypothesis
      rw [exec_of_le enough (by simp [yields]), yields]

/-- A body that ends normally has been executed to its last statement. -/
theorem of_execAll
    (yields : execAll context steps statements machine = .ok .normal after) :
    ExecutesAll context steps statements machine after := by
  induction statements generalizing steps machine with
  | nil =>
      cases steps with
      | zero => cases yields
      | succ steps =>
          cases yields
          exact .nil
  | cons first rest inductionHypothesis =>
      cases steps with
      | zero => cases yields
      | succ steps =>
          rw [execAll] at yields
          obtain ⟨flow, middle, yieldsFirst, yieldsRest⟩ :=
            bind_eq_ok_iff.mp yields
          cases flow with
          | returned value => cases yieldsRest
          | normal =>
              refine .cons ?_
                ((inductionHypothesis yieldsRest).of_le (Nat.le_succ steps))
              rw [exec_of_le (Nat.le_succ steps) (by simp [yieldsFirst]),
                yieldsFirst]

/-- A run of statements that do not return finishes with the last statement. -/
theorem of_runStatements
    {stopping : Stopping}
    (returns : Stmt.returnsAny statements = false)
    (finishes : (runStatements context stopping steps statements machine).1 =
      .finished) :
    ExecutesAll context steps statements machine
      (runStatements context stopping steps statements machine).2 := by
  induction statements generalizing machine with
  | nil => exact .nil
  | cons first rest inductionHypothesis =>
      simp only [Stmt.returnsAny, Bool.or_eq_false_iff] at returns
      cases stops : stopping.stops machine.world with
      | true => simp [runStatements, stops] at finishes
      | false =>
          have ends :=
            (endsWithoutReturn_always context steps).exec
            first returns.1 machine
          cases outcome : exec context steps first machine with
          | ok flow middle =>
              cases ends.ok outcome
              rw [runStatements_cons_of_ok stops outcome] at finishes ⊢
              exact .cons outcome (inductionHypothesis returns.2 finishes)
          | error halt middle =>
              rw [runStatements_cons_of_last stops (by simp [outcome]),
                outcome] at finishes
              cases halt <;> cases finishes

end ExecutesAll

/-- Of statements that do not return, each one does not. -/
theorem Stmt.returns_of_mem
    {statements : List Stmt}
    {statement : Stmt}
    (returns : Stmt.returnsAny statements = false)
    (member : statement ∈ statements) :
    statement.returns = false := by
  induction statements with
  | nil => cases member
  | cons first rest inductionHypothesis =>
      simp only [Stmt.returnsAny, Bool.or_eq_false_iff] at returns
      rcases List.mem_cons.mp member with rfl | isLater
      · exact returns.1
      · exact inductionHypothesis returns.2 isLater

/-- No statement of an accepted program returns. -/
theorem Program.returnsAny_of_compile
    {source : ByteArray}
    {program : Program}
    {first next : NodeId}
    (accepted : Program.compile source first = (.ok program, next)) :
    Stmt.returnsAny program.statements = false :=
  returnsAny_of_resolveProgram (Program.compiled_of_compile accepted).resolved

/-- A required source that ends without an error has been executed to its last
statement. -/
theorem executesAll_of_require
    {context : Context}
    {steps : Nat}
    {keyword : Token}
    {path : String}
    {machine after : Machine}
    {flow : Flow}
    (yields : exec context steps (.require keyword path) machine =
      .ok flow after) :
    flow = .normal ∧
      ∃ program loaded last,
        loadRequired context keyword path machine = .ok program loaded ∧
        ExecutesAll context steps program.statements
          { loaded with
            requiring := path :: loaded.requiring, active :=
              globalFrame } last ∧
        after = machine.backTo last := by
  cases steps with
  | zero => cases yields
  | succ steps =>
      rw [exec] at yields
      obtain ⟨program, loaded, loads, yieldsBody⟩ := bind_eq_ok_iff.mp yields
      obtain ⟨source, next, -, accepted⟩ := accepted_of_loadRequired loads
      have same :=
        (Machine.respected_sameContext.keeps_loadRequired context keyword
          path).ok loads
      have keeps : Keeps Machine.SameContext
          (execAll context steps program.statements) :=
        Machine.respected_sameContext.keeps_task context steps
          (.execAll program.statements)
      rw [whileRequiring_eq keeps] at yieldsBody
      cases outcome : execAll context steps program.statements
          { loaded with
            active := globalFrame, requiring := path :: loaded.requiring } with
      | error halt last => simp [outcome, Machine.leaving] at yieldsBody
      | ok inner last =>
          simp only [outcome, Machine.leaving,
            EStateM.Result.ok.injEq] at yieldsBody
          obtain ⟨rfl, rfl⟩ := yieldsBody
          have returns := Program.returnsAny_of_compile accepted
          cases ((endsWithoutReturn_always context steps).execAll _ returns
            _).ok outcome
          refine ⟨rfl, program, loaded, last, loads,
            (ExecutesAll.of_execAll outcome).of_le (Nat.le_succ steps), ?_⟩
          simp only [Machine.backTo, same.active, same.requiring]

/-- No statement of the program returns, wherever it is executed. -/
structure Program.NeverReturns (program : Program) : Prop where
  each :
    ∀ statement ∈ program.statements, ∀ context steps machine value after,
      exec context steps statement machine ≠ .ok (.returned value) after
  all :
    ∀ context steps machine flow after,
      execAll context steps program.statements machine = .ok flow after →
        flow = .normal

/-- Accepted programs never return. -/
theorem Program.neverReturns_of_compile
    {source : ByteArray}
    {program : Program}
    {first next : NodeId}
    (accepted : Program.compile source first = (.ok program, next)) :
    program.NeverReturns := by
  have returns := Program.returnsAny_of_compile accepted
  refine ⟨fun statement member context steps machine value after yields => ?_,
    ?_⟩
  · have ends := (endsWithoutReturn_always context steps).exec statement
      (Stmt.returns_of_mem returns member) machine
    cases ends.ok yields
  · intro context steps machine flow after yields
    exact ((endsWithoutReturn_always context steps).execAll _ returns
      machine).ok yields

/-- What belongs to the activation of a call that takes this many steps. -/
def Function.activation
    (function : Function)
    (arguments : List Value)
    (context : Context)
    (steps : Nat)
    (machine : Machine) : List (Task × Machine) :=
  (Task.execAll function.declaration.body).activation context steps
    (machine.entering (callFrame function arguments))

/-- A call ends with the first `return` that it comes to. -/
structure Function.EndsByReturn
    (function : Function)
    (arguments : List Value)
    (context : Context)
    (steps : Nat)
    (machine : Machine) : Prop where
  /-- Nothing of the activation but the value of the `return` is evaluated after
  it. -/
  last : (function.activation arguments context steps machine).Pairwise
    Task.Allows
  /-- The call ends as the `return` does. -/
  result :
    ∀ keyword value start,
      (Task.exec (.ret keyword value), start) ∈
          function.activation arguments context steps machine →
        ∃ within,
          Leads (exec context within (.ret keyword value)) start
            (fun flow after =>
              ∃ found, flow = .returned found ∧
                call context (steps + 1) function arguments machine =
                  callResult function flow
                    { after with active := machine.active })
            (fun halt after =>
              call context (steps + 1) function arguments machine =
                .error halt { after with active := machine.active })

/-- A `return` returns. -/
theorem Run.returned_of_exec_ret
    {context : Context}
    {steps : Nat}
    {keyword : Token}
    {value : Option Expr}
    {machine after : Machine}
    {flow : Flow}
    (yields : exec context steps (.ret keyword value) machine =
      .ok flow after) :
    ∃ found, flow = .returned found := by
  cases flow with
  | returned found => exact ⟨found, rfl⟩
  | normal => exact absurd yields (exec_ret_ne_normal _ _ _ _ _ _)

/-- Every call ends with the first `return` that it comes to. -/
theorem Function.endsByReturn
    (function : Function)
    (arguments : List Value)
    (context : Context)
    (steps : Nat)
    (machine : Machine) :
    function.EndsByReturn arguments context steps machine := by
  have concludes := (concludesActivations_always context steps).execAll
    function.declaration.body (machine.entering (callFrame function arguments))
  refine ⟨concludes.last, fun keyword value start member => ?_⟩
  obtain ⟨within, ends⟩ := concludes.ends member
  have entered (result : EStateM.Result Halt Machine Flow)
      (outcome : exec context within (.ret keyword value) start = result) :
      inFrame machine.store.nextFrame
        (execAll context steps function.declaration.body)
          { machine with
            store := machine.store.allocate (callFrame function arguments) } =
        backIn machine.active result := by
    rw [inFrame_eq_backIn, ← outcome]
    exact (congrArg _ ends).trans (backIn_backIn ..)
  refine ⟨within, ?_⟩
  unfold Leads
  cases outcome : exec context within (.ret keyword value) start with
  | ok flow after =>
      obtain ⟨found, rfl⟩ := returned_of_exec_ret outcome
      refine ⟨found, rfl, ?_⟩
      rw [call]
      exact (bind_of_ok rfl).trans (bind_of_ok (entered _ outcome))
  | error halt after =>
      rw [call]
      exact (bind_of_ok rfl).trans (bind_of_error (entered _ outcome))

namespace Session

/-- A run that ends without an error has been executed to its last statement. -/
theorem executesAll_of_run
    {session : Session}
    {stopping : Stopping}
    {steps : Nat}
    {source : ByteArray}
    (finishes : (session.run stopping steps source).1 = .finished) :
    ∃ program compiled,
      session.machine.compile source = (.ok program, compiled) ∧
      ExecutesAll session.context steps program.statements
        (prepared { session with machine := compiled } program)
        (session.run stopping steps source).2.machine := by
  cases compiles : session.machine.compile source with
  | mk verdict compiled =>
      cases verdict with
      | error error => simp [Session.run, compiles] at finishes
      | ok program =>
          obtain ⟨next, accepted, -⟩ := Machine.compile_eq_ok_iff.mp compiles
          rw [run_eq_settled compiles] at finishes ⊢
          refine ⟨program, compiled, rfl, .of_runStatements
            (Program.returnsAny_of_compile accepted) ?_⟩
          simp only [settled, flushed] at finishes
          split at finishes <;> simp_all

/-- A `return` never reaches the top level.  No statement of an accepted source
returns, and no statement of a source that is required, wherever that happens;
so a run or a required source that ends without an error has been executed to
its last statement.  In a call, nothing of the same activation is evaluated
after a `return` but what it returns, and the call ends as the `return` does. -/
theorem only_calls_return :
    (∀ {source first program next},
      Program.compile source first = (.ok program, next) →
        program.NeverReturns) ∧
    (∀ {context keyword path machine program loaded},
      loadRequired context keyword path machine = .ok program loaded →
        program.NeverReturns) ∧
    (∀ {session : Session} {stopping steps source},
      (session.run stopping steps source).1 = .finished →
        ∃ program compiled,
          session.machine.compile source = (.ok program, compiled) ∧
          ExecutesAll session.context steps program.statements
            (prepared { session with machine := compiled } program)
            (session.run stopping steps source).2.machine) ∧
    (∀ {context steps keyword path machine flow after},
      exec context steps (.require keyword path) machine = .ok flow after →
        flow = .normal ∧
          ∃ program loaded last,
            loadRequired context keyword path machine = .ok program loaded ∧
            ExecutesAll context steps program.statements
              { loaded with
                requiring := path :: loaded.requiring, active :=
                  globalFrame } last ∧
            after = machine.backTo last) ∧
    ∀ (function : Function) arguments context steps machine,
      function.EndsByReturn arguments context steps machine := by
  refine ⟨Program.neverReturns_of_compile, ?_, executesAll_of_run,
    executesAll_of_require, Function.endsByReturn⟩
  intro context keyword path machine program loaded loads
  obtain ⟨source, next, -, accepted⟩ := accepted_of_loadRequired loads
  exact Program.neverReturns_of_compile accepted

/-- The keyword of a `return`. -/
def returnWord : Token :=
  ⟨.keyword .returnWord, "return", 1⟩

/-- A function that returns in a loop of which the body has more statements. -/
def returning : Function :=
  { identity := 0
    declaration :=
      { name := ⟨.identifier "f", "f", 1⟩
        params := []
        body :=
          [.loop (.literal (.boolean true))
            (.block [.ret returnWord (some (.literal .nil)),
              .print (.literal .nil)])] }
    closure := globalFrame
    isInitializer := false }

/-- A run that finishes, and a call that comes to a `return`. -/
theorem only_calls_return_in_loop :
    (∃ program compiled, sharing.machine.compile shared =
      (.ok program, compiled) ∧
      ExecutesAll sharing.context 2 program.statements
        (prepared { sharing with machine := compiled } program)
        (sharing.run .unheeding 2 shared).2.machine) ∧
    (∃ start, (Task.exec (.ret returnWord (some (.literal .nil))), start) ∈
      returning.activation [] sharing.context 9 sharing.machine) ∧
    returning.EndsByReturn [] sharing.context 9 sharing.machine := by
  have finishes : (sharing.run .unheeding 2 shared).1 = .finished := by
    rw [run_eq_settled (compile_shared rfl)]
    rfl
  obtain ⟨-, -, completes, -, ends⟩ := only_calls_return
  let called := sharing.machine.entering (callFrame returning [])
  refine ⟨completes finishes,
    ⟨called.entering ⟨NameMap.empty, some called.active⟩, ?_⟩,
    ends returning [] sharing.context 9 sharing.machine⟩
  exact .tail _ (.tail _ (.tail _ (.tail _ (.tail _ (.tail _ (.head _))))))

end Session

end LoxScript
