import LoxScript.Proofs.Machine.Endurance
import LoxScript.Proofs.Machine.Returning
import LoxScript.Proofs.Machine.Trace
import LoxScript.Proofs.Session.Restoration

namespace LoxScript

/-!
# Activations

An activation is one execution of the body of a function.  To it belong the
statements of the body, however deep in blocks, branches and loops they stand,
and the conditions and other expressions that these evaluate, but not what is
called or required from there.  The first `return` that an activation comes to
is the last thing in it: but for the value that it returns nothing is evaluated
any more, and the activation ends as the `return` ends.
-/

open Run

namespace Task

/-- What the task asks for belongs to the same activation as the task. -/
def isStructural : Task → Bool
  | .exec (.require _ _) => false
  | .exec _ | .execAll _ | .execLoop _ _ => true
  | _ => false

/-- What belongs to an activation from a task of it on, in order, when the task
is done in a number of steps. -/
def activation (context : Context) : Nat → Task → Machine →
    List (Task × Machine)
  | 0, task, machine => [(task, machine)]
  | steps + 1, task, machine =>
      (task, machine) ::
        if task.isStructural then
          (task.calls context steps machine).flatMap fun call =>
            activation context steps call.1 call.2
        else []

/-- The task is not a `return`. -/
def GoesOn (task : Task) : Prop :=
  ∀ keyword value, task ≠ .exec (.ret keyword value)

/-- An expression is no `return`. -/
theorem goesOn_eval
    (expr : Expr) :
    (eval expr).GoesOn := by
  simp [GoesOn]

/-- If the earlier task is a `return`, the later one is to evaluate what it
returns. -/
def Allows (earlier later : Task × Machine) : Prop :=
  ∀ keyword value, earlier.1 = .exec (.ret keyword value) →
    ∃ returned, value = some returned ∧ later = (.eval returned, earlier.2)

/-- Anything may follow tasks of which none is a `return`. -/
theorem pairwise_allows
    {activation : List (Task × Machine)}
    (goesOn : ∀ entry ∈ activation, entry.1.GoesOn) :
    activation.Pairwise Allows :=
  List.pairwise_of_forall_mem_list
    fun entry member _ _ keyword value isReturn =>
      absurd isReturn (goesOn entry member keyword value)

/-- Nothing but the task itself belongs to the activation if it is an
expression. -/
theorem activation_eval
    (context : Context)
    (steps : Nat)
    (expr : Expr)
    (machine : Machine) :
    (Task.eval expr).activation context steps machine =
      [(.eval expr, machine)] := by
  cases steps <;> rfl

end Task

/-- How a step ended, with the machine back in a frame. -/
def Run.backIn (frame : FrameId) :
    EStateM.Result Halt Machine α → EStateM.Result Halt Machine α
  | .ok value after => .ok value { after with active := frame }
  | .error halt after => .error halt { after with active := frame }

/-- A step in another frame ends as the step does there. -/
theorem Run.inFrame_eq_backIn
    (frame : FrameId)
    (step : Run α)
    (machine : Machine) :
    Run.inFrame frame step machine =
      Run.backIn machine.active (step { machine with active := frame }) := by
  unfold Run.inFrame Run.backIn
  cases step { machine with active := frame } <;> rfl

/-- Only the last frame counts. -/
theorem Run.backIn_backIn
    (frame inner : FrameId)
    (result : EStateM.Result Halt Machine α) :
    Run.backIn frame (Run.backIn inner result) = Run.backIn frame result := by
  cases result <;> rfl

/-- A step comes back to the frame that it starts in. -/
theorem Run.Keeps.backIn
    {step : Run α}
    (keeps : Keeps Machine.SameContext step)
    (machine : Machine) :
    Run.backIn machine.active (step machine) = step machine := by
  have same := keeps machine
  unfold Leads at same
  unfold Run.backIn
  cases outcome : step machine <;>
    simp only [outcome] at same ⊢ <;>
    rw [← same.active]

/-- A `return` does not end normally. -/
theorem Run.exec_ret_ne_normal
    (context : Context)
    (steps : Nat)
    (keyword : Token)
    (value : Option Expr)
    (machine after : Machine) :
    exec context steps (.ret keyword value) machine ≠ .ok .normal after := by
  cases steps with
  | zero => exact nofun
  | succ steps =>
      cases value with
      | none => exact nofun
      | some returned =>
          intro yields
          obtain ⟨_, _, _, isNormal⟩ := bind_eq_ok_iff.mp yields
          cases isNormal

/-- A step does this part of an activation: a `return` in it is the last thing
but for the value that it returns, and the step ends as the `return` ends. -/
structure Run.Concludes
    (context : Context)
    (activation : List (Task × Machine))
    (step : Run Flow)
    (machine : Machine) : Prop where
  last : activation.Pairwise Task.Allows
  ends :
    ∀ {keyword value start},
      (Task.exec (.ret keyword value), start) ∈ activation →
      ∃ steps,
        step machine = backIn machine.active
          (exec context steps (.ret keyword value) start)

namespace Run.Concludes

variable {context : Context} {machine : Machine} {step : Run Flow}
variable {activation others : List (Task × Machine)}

/-- Nothing in this part of the activation is a `return`. -/
theorem ofGoesOn
    (goesOn : ∀ entry ∈ activation, entry.1.GoesOn) :
    Concludes context activation step machine where
  last := Task.pairwise_allows goesOn
  ends member := absurd rfl (goesOn _ member _ _)

/-- First comes a task that is not a `return`. -/
theorem task
    {task : Task}
    {start : Machine}
    (goesOn : task.GoesOn)
    (concludes : Concludes context activation step machine) :
    Concludes context ((task, start) :: activation) step machine where
  last :=
    .cons (fun _ _ keyword value isReturn =>
      absurd isReturn (goesOn keyword value)) concludes.last
  ends member := by
    rcases List.mem_cons.mp member with isFirst | isLater
    · exact absurd (congrArg Prod.fst isFirst).symm (goesOn _ _)
    · exact concludes.ends isLater

/-- First come tasks that are not a `return`. -/
theorem behind
    (goesOn : ∀ entry ∈ others, entry.1.GoesOn)
    (concludes : Concludes context activation step machine) :
    Concludes context (others ++ activation) step machine := by
  induction others with
  | nil => exact concludes
  | cons first rest inductionHypothesis =>
      obtain ⟨goesOnFirst, goesOnRest⟩ := List.forall_mem_cons.mp goesOn
      exact .task goesOnFirst (inductionHypothesis goesOnRest)

/-- What comes first has no `return`, and the frame afterwards is the same. -/
theorem andThen
    {first : Run α}
    {next : α → Run Flow}
    {rest : α → Machine → List (Task × Machine)}
    (keeps : Keeps Machine.SameContext first)
    (concludes :
      ∀ value after, first machine = .ok value after →
        Concludes context (rest value after) (next value) after) :
    Concludes context (first.onwards machine rest)
      (first >>= next) machine := by
  unfold onwards
  cases outcome : first machine with
  | error halt after => exact ofGoesOn (by simp)
  | ok value after =>
      have concludesNext := concludes value after outcome
      refine ⟨concludesNext.last, fun member => ?_⟩
      obtain ⟨steps, ends⟩ := concludesNext.ends member
      exact ⟨steps, by rw [bind_of_ok outcome, ends, (keeps.ok outcome).active]⟩

/-- The step is the last one of the activation, however it is meant to go on. -/
theorem ofEq
    {whole : Run Flow}
    (concludes : Concludes context activation step machine)
    (same : whole machine = step machine) :
    Concludes context activation whole machine where
  last := concludes.last
  ends member := by
    rw [same]
    exact concludes.ends member

/-- A step that ends normally has come to no `return`. -/
theorem goesOn
    {after : Machine}
    (concludes : Concludes context activation step machine)
    (yields : step machine = .ok .normal after)
    (entry : Task × Machine)
    (member : entry ∈ activation) :
    entry.1.GoesOn := by
  obtain ⟨task, start⟩ := entry
  rintro keyword value rfl
  obtain ⟨steps, ends⟩ := concludes.ends member
  cases outcome : exec context steps (.ret keyword value) start with
  | error halt last => simp [yields, outcome, backIn] at ends
  | ok flow last =>
      simp only [yields, outcome, backIn, EStateM.Result.ok.injEq] at ends
      exact exec_ret_ne_normal context steps keyword value start last
        (ends.1 ▸ outcome)

/-- What comes after a step that returns is not done. -/
theorem andNext
    {next : Flow → Run Flow}
    {rest : Flow → Machine → List (Task × Machine)}
    (keeps : Keeps Machine.SameContext step)
    (concludes : Concludes context activation step machine)
    (stops : ∀ value, next (.returned value) = pure (.returned value))
    (stopped : ∀ value after, rest (.returned value) after = [])
    (concludesNext :
      ∀ after, step machine = .ok .normal after →
        Concludes context (rest .normal after) (next .normal) after) :
    Concludes context (activation ++ step.onwards machine rest)
      (step >>= next) machine := by
  cases outcome : step machine with
  | error halt after =>
      simpa only [onwards, outcome, List.append_nil] using
        concludes.ofEq ((bind_of_error outcome).trans outcome.symm)
  | ok flow after =>
      cases flow with
      | returned value =>
          have ends : (step >>= next) machine = step machine := by
            rw [bind_of_ok outcome, stops, outcome]
            rfl
          simpa only [onwards, outcome, stopped,
            List.append_nil] using concludes.ofEq ends
      | normal =>
          refine behind (concludes.goesOn outcome) (andThen keeps ?_)
          intro flow last yields
          obtain ⟨rfl, rfl⟩ := EStateM.Result.ok.inj (outcome.symm.trans yields)
          exact concludesNext after outcome

/-- A part of the activation in a frame of its own. -/
theorem inFrame
    {frame : FrameId}
    (concludes :
      Concludes context activation step { machine with active := frame }) :
    Concludes context activation (Run.inFrame frame step) machine where
  last := concludes.last
  ends member := by
    obtain ⟨steps, ends⟩ := concludes.ends member
    exact ⟨steps, by rw [inFrame_eq_backIn, ends, backIn_backIn]⟩

end Run.Concludes

/-- With this number of steps, every part of an activation is done. -/
structure ConcludesActivations (context : Context) (steps : Nat) : Prop where
  exec :
    ∀ statement machine,
      Concludes context ((Task.exec statement).activation context steps machine)
        (exec context steps statement) machine
  execAll :
    ∀ statements machine,
      Concludes context
        ((Task.execAll statements).activation context steps machine)
        (execAll context steps statements) machine
  execLoop :
    ∀ condition body machine,
      Concludes context
        ((Task.execLoop condition body).activation context steps machine)
        (execLoop context steps condition body) machine

namespace ConcludesActivations

variable {context : Context} {steps : Nat}

/-- Evaluating an expression comes back to the frame that it starts in. -/
theorem keeps_eval
    (context : Context)
    (steps : Nat)
    (expr : Expr) :
    Keeps Machine.SameContext (eval context steps expr) :=
  Machine.respected_sameContext.keeps_task context steps (.eval expr)

/-- So does executing a statement. -/
theorem keeps_exec
    (context : Context)
    (steps : Nat)
    (statement : Stmt) :
    Keeps Machine.SameContext (LoxScript.exec context steps statement) :=
  Machine.respected_sameContext.keeps_task context steps (.exec statement)

/-- Statements that evaluate expressions only do not come to a `return`. -/
theorem ofSimple
    {statement : Stmt}
    {step : Run Flow}
    {machine : Machine}
    (goesOn : (Task.exec statement).GoesOn)
    (simple :
      ∀ call ∈ (Task.exec statement).calls context steps machine, ∃ expr,
        call.1 = .eval expr) :
    Concludes context
      ((Task.exec statement).activation context (steps + 1) machine) step
      machine := by
  refine .task goesOn (.ofGoesOn ?_)
  split
  · intro entry member
    obtain ⟨⟨_, start⟩, isCall, isEntry⟩ := List.mem_flatMap.mp member
    obtain ⟨expr, rfl⟩ := simple _ isCall
    rw [Task.activation_eval, List.mem_singleton] at isEntry
    subst isEntry
    exact Task.goesOn_eval expr
  · simp

/-- A `return`, with one step more. -/
theorem ret_succ
    (context : Context)
    (steps : Nat)
    (keyword : Token)
    (value : Option Expr)
    (machine : Machine) :
    Concludes context
      ((Task.exec (.ret keyword value)).activation context (steps + 1) machine)
      (LoxScript.exec context (steps + 1) (.ret keyword value)) machine := by
  have isWhole : ∃ rest, (∀ entry ∈ rest, ∃ returned, value = some returned ∧
        entry = (Task.eval returned, machine)) ∧
      (Task.exec (.ret keyword value)).activation context (steps + 1) machine =
        (.exec (.ret keyword value), machine) :: rest := by
    cases value with
    | none => exact ⟨[], by simp, rfl⟩
    | some returned =>
        refine ⟨[(.eval returned, machine)], by simp, ?_⟩
        simp [Task.activation, Task.isStructural, Task.calls,
          Task.activation_eval]
  obtain ⟨rest, own, isWhole⟩ := isWhole
  rw [isWhole]
  constructor
  · refine .cons ?_ (Task.pairwise_allows ?_)
    · rintro entry member _ _ ⟨⟩
      exact own entry member
    · intro entry member
      obtain ⟨returned, -, rfl⟩ := own entry member
      exact Task.goesOn_eval returned
  · intro keyword' value' start member
    rcases List.mem_cons.mp member with isFirst | isLater
    · obtain ⟨⟨⟩, rfl⟩ := Prod.mk.inj isFirst
      exact ⟨steps + 1, ((keeps_exec context (steps + 1) _).backIn start).symm⟩
    · obtain ⟨returned, -, isEval⟩ := own _ isLater
      cases isEval

/-- A statement, with one step more. -/
theorem exec_succ
    (concludes : ConcludesActivations context steps)
    (statement : Stmt)
    (machine : Machine) :
    Concludes context
      ((Task.exec statement).activation context (steps + 1) machine)
      (LoxScript.exec context (steps + 1) statement) machine := by
  cases statement with
  | ret keyword value => exact ret_succ context steps keyword value machine
  | block body =>
      unfold LoxScript.exec
      refine .task (by simp [Task.GoesOn]) ?_
      simp only [Task.isStructural, Task.calls, if_true, flatMap_onwards]
      refine Concludes.ofEq
        (.andThen (Machine.respected_sameContext.keeps_allocate _) ?_)
        (bind_get machine)
      intro frame after _
      simpa using (concludes.execAll body
        { after with active := frame }).inFrame
  | conditional condition thenBranch elseBranch =>
      unfold LoxScript.exec
      refine .task (by simp [Task.GoesOn]) ?_
      simp only [Task.isStructural, Task.calls, if_true, List.flatMap_cons,
        flatMap_onwards, Task.activation_eval, List.singleton_append]
      refine .task (Task.goesOn_eval condition)
        (.andThen (keeps_eval context steps condition) fun value after _ => ?_)
      split
      · simpa using concludes.exec thenBranch after
      · cases elseBranch with
        | none => exact .ofGoesOn (by simp)
        | some branch => simpa using concludes.exec branch after
  | loop condition body =>
      unfold LoxScript.exec
      refine .task (by simp [Task.GoesOn]) ?_
      simpa [Task.isStructural, Task.calls] using concludes.execLoop condition
        body machine
  | require keyword path =>
      exact .task (by simp [Task.GoesOn])
        (.ofGoesOn (by simp [Task.isStructural]))
  | varDecl name initializer =>
      cases initializer <;>
        exact ofSimple (by simp [Task.GoesOn]) (by simp [Task.calls])
  | classDecl name superclass methods =>
      cases superclass <;>
        exact ofSimple (by simp [Task.GoesOn]) (by simp [Task.calls])
  | _ => exact ofSimple (by simp [Task.GoesOn]) (by simp [Task.calls])

/-- Statements, with one step more. -/
theorem execAll_succ
    (concludes : ConcludesActivations context steps)
    (statements : List Stmt)
    (machine : Machine) :
    Concludes context
      ((Task.execAll statements).activation context (steps + 1) machine)
      (LoxScript.execAll context (steps + 1) statements) machine := by
  unfold LoxScript.execAll Task.activation
  refine .task (by simp [Task.GoesOn]) ?_
  cases statements with
  | nil => exact .ofGoesOn (by simp [Task.isStructural, Task.calls])
  | cons first rest =>
      simp only [Task.isStructural, Task.calls, if_true, List.flatMap_cons,
        flatMap_onwards]
      refine (concludes.exec first machine).andNext
        (keeps_exec context steps first)
        (fun _ => rfl) (fun _ _ => rfl) fun after _ => ?_
      simpa using concludes.execAll rest after

/-- A loop, with one step more. -/
theorem execLoop_succ
    (concludes : ConcludesActivations context steps)
    (condition : Expr)
    (body : Stmt)
    (machine : Machine) :
    Concludes context
      ((Task.execLoop condition body).activation context (steps + 1) machine)
      (LoxScript.execLoop context (steps + 1) condition body) machine := by
  unfold LoxScript.execLoop Task.activation
  refine .task (by simp [Task.GoesOn]) ?_
  simp only [Task.isStructural, Task.calls, if_true, List.flatMap_cons,
    flatMap_onwards, Task.activation_eval, List.singleton_append]
  refine .task (Task.goesOn_eval condition)
    (.andThen (keeps_eval context steps condition) fun value after _ => ?_)
  split
  · simp only [List.flatMap_cons, flatMap_onwards]
    refine (concludes.exec body after).andNext (keeps_exec context steps body)
        (fun _ => rfl) (fun _ _ => rfl) fun last _ => ?_
    simpa using concludes.execLoop condition body last
  · exact .ofGoesOn (by simp)

end ConcludesActivations

/-- Every part of an activation is done, whatever the number of steps. -/
theorem concludesActivations_always
    (context : Context)
    (steps : Nat) :
    ConcludesActivations context steps := by
  induction steps with
  | zero =>
      exact
        { exec := fun statement machine => by
            refine ⟨List.pairwise_singleton .., fun member => ?_⟩
            obtain ⟨⟨⟩, rfl⟩ := Prod.mk.inj (List.mem_singleton.mp member)
            exact ⟨0, rfl⟩
          execAll := fun _ _ =>
            .ofGoesOn (by simp [Task.activation, Task.GoesOn])
          execLoop := fun _ _ _ =>
            .ofGoesOn (by simp [Task.activation, Task.GoesOn]) }
  | succ steps inductionHypothesis =>
      exact
        { exec := inductionHypothesis.exec_succ
          execAll := inductionHypothesis.execAll_succ
          execLoop := inductionHypothesis.execLoop_succ }

end LoxScript
