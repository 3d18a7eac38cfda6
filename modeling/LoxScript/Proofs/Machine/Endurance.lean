import LoxScript.Proofs.Machine.Evaluator
import LoxScript.Proofs.Outcome

namespace LoxScript

/-!
# More steps change nothing that is finished

A task that ends within a number of steps, with a value or with a failure of the
script, ends in the same way within every greater number of steps.  So what a
task does has nothing to do with the number of steps, which only bounds how long
it is watched.
-/

open Run

/-- The longer step ends as the shorter one does, unless that one runs out of
steps. -/
def Run.Prolongs (longer shorter : Run α) : Prop :=
  ∀ machine,
    (∃ after, shorter machine = .error .exhausted after) ∨
      longer machine = shorter machine

namespace Run.Prolongs

/-- A step prolongs itself. -/
theorem refl
    (step : Run α) :
    Prolongs step step :=
  fun _ => .inr rfl

/-- Everything prolongs what runs out of steps at once. -/
theorem ofExhausted
    (longer : Run α) :
    Prolongs longer (throw .exhausted) :=
  fun machine => .inl ⟨machine, rfl⟩

/-- One prolongation after the other. -/
theorem trans
    {longest longer shorter : Run α}
    (prolongs : Prolongs longest longer)
    (prolongsFirst : Prolongs longer shorter) :
    Prolongs longest shorter := by
  intro machine
  rcases prolongsFirst machine with ⟨after, exhausted⟩ | same
  · exact .inl ⟨after, exhausted⟩
  · rw [← same]
    exact prolongs machine

/-- A sequence is prolonged in each of its steps. -/
theorem andThen
    {longer shorter : Run α}
    {next nextShorter : α → Run β}
    (prolongs : Prolongs longer shorter)
    (prolongsNext : ∀ value, Prolongs (next value) (nextShorter value)) :
    Prolongs (longer >>= next) (shorter >>= nextShorter) := by
  intro machine
  rcases prolongs machine with ⟨after, exhausted⟩ | same
  · exact .inl ⟨after, bind_of_error exhausted⟩
  · cases outcome : shorter machine with
    | ok value middle =>
        rw [outcome] at same
        rw [bind_of_ok outcome, bind_of_ok same]
        exact prolongsNext value middle
    | error halt middle =>
        rw [outcome] at same
        rw [bind_of_error outcome, bind_of_error same]
        exact .inr rfl

/-- A step in another frame is prolonged inside. -/
theorem inFrame
    {longer shorter : Run α}
    (prolongs : Prolongs longer shorter)
    (frame : FrameId) :
    Prolongs (Run.inFrame frame longer) (Run.inFrame frame shorter) := by
  intro machine
  rcases prolongs { machine with active := frame } with
    ⟨after, exhausted⟩ | same
  · exact .inl ⟨{ after with active := machine.active },
      by simp only [Run.inFrame, exhausted]⟩
  · exact .inr (by simp only [Run.inFrame, same])

/-- A step of a required source is prolonged inside. -/
theorem whileRequiring
    {longer shorter : Run α}
    (prolongs : Prolongs longer shorter)
    (path : String) :
    Prolongs (Run.whileRequiring path longer)
      (Run.whileRequiring path shorter) := by
  intro machine
  rcases prolongs { machine with requiring := path :: machine.requiring } with
    ⟨after, exhausted⟩ | same
  · refine .inl ⟨{ after with requiring := after.requiring.tail }, ?_⟩
    simp only [Run.whileRequiring, exhausted]
  · exact .inr (by simp only [Run.whileRequiring, same])

/-- What the shorter step ends with, the longer one ends with. -/
theorem eq
    {longer shorter : Run α}
    {machine : Machine}
    (prolongs : Prolongs longer shorter)
    (finished : ∀ after, shorter machine ≠ .error .exhausted after) :
    longer machine = shorter machine := by
  rcases prolongs machine with ⟨after, exhausted⟩ | same
  · exact absurd exhausted (finished after)
  · exact same

end Run.Prolongs

namespace Evaluator

/-- Whatever the evaluators are asked for, the one prolongs what the other
does. -/
structure Prolongs (longer shorter : Evaluator) : Prop where
  eval : ∀ expr, (longer.eval expr).Prolongs (shorter.eval expr)
  evalAll : ∀ exprs, (longer.evalAll exprs).Prolongs (shorter.evalAll exprs)
  apply :
    ∀ callee arguments,
      (longer.apply callee arguments).Prolongs (shorter.apply callee arguments)
  call :
    ∀ function arguments,
      (longer.call function arguments).Prolongs
        (shorter.call function arguments)
  exec : ∀ statement, (longer.exec statement).Prolongs (shorter.exec statement)
  execAll : ∀ statements,
    (longer.execAll statements).Prolongs (shorter.execAll statements)
  execLoop :
    ∀ condition body,
      (longer.execLoop condition body).Prolongs
      (shorter.execLoop condition body)
  iterate : ∀ body, (longer.iterate body).Prolongs (shorter.iterate body)

namespace Prolongs

variable {longest longer shorter : Evaluator}

/-- Every evaluator prolongs itself. -/
theorem refl (evaluator : Evaluator) : evaluator.Prolongs evaluator where
  eval _ := .refl _
  evalAll _ := .refl _
  apply _ _ := .refl _
  call _ _ := .refl _
  exec _ := .refl _
  execAll _ := .refl _
  execLoop _ _ := .refl _
  iterate _ := .refl _

/-- Every evaluator prolongs the one that can do nothing. -/
theorem ofExhausted (longer : Evaluator) : longer.Prolongs exhausted where
  eval _ := .ofExhausted _
  evalAll _ := .ofExhausted _
  apply _ _ := .ofExhausted _
  call _ _ := .ofExhausted _
  exec _ := .ofExhausted _
  execAll _ := .ofExhausted _
  execLoop _ _ := .ofExhausted _
  iterate _ := .ofExhausted _

/-- One prolongation after the other. -/
theorem trans
    (prolongs : longest.Prolongs longer)
    (prolongsFirst : longer.Prolongs shorter) :
    longest.Prolongs shorter where
  eval expr := (prolongs.eval expr).trans (prolongsFirst.eval expr)
  evalAll exprs := (prolongs.evalAll exprs).trans (prolongsFirst.evalAll exprs)
  apply callee arguments :=
    (prolongs.apply callee arguments).trans
      (prolongsFirst.apply callee arguments)
  call function arguments :=
    (prolongs.call function arguments).trans
      (prolongsFirst.call function arguments)
  exec statement :=
    (prolongs.exec statement).trans (prolongsFirst.exec statement)
  execAll statements :=
    (prolongs.execAll statements).trans (prolongsFirst.execAll statements)
  execLoop condition body :=
    (prolongs.execLoop condition body).trans
      (prolongsFirst.execLoop condition body)
  iterate body := (prolongs.iterate body).trans (prolongsFirst.iterate body)

variable (prolongs : longer.Prolongs shorter)

include prolongs

/-- Calling what an expression yields. -/
theorem call_expr
    (callee : Expr)
    (paren : Token)
    (arguments : List Expr) :
    (longer.evalNext (.call callee paren arguments)).Prolongs
      (shorter.evalNext (.call callee paren arguments)) := by
  unfold evalNext
  apply Run.Prolongs.andThen (prolongs.eval callee)
  intro called
  apply Run.Prolongs.andThen (prolongs.evalAll arguments)
  intro passed
  cases called.callee? with
  | none =>
      exact .refl _
  | some callable =>
      apply Run.Prolongs.andThen (.refl _)
      intro _
      exact prolongs.apply callable passed

/-- The value of an expression. -/
theorem evalNext
    (expr : Expr) :
    (longer.evalNext expr).Prolongs (shorter.evalNext expr) := by
  cases expr with
  | literal value => exact .refl _
  | grouping inner => exact prolongs.eval inner
  | unary operator operand =>
      exact Run.Prolongs.andThen (prolongs.eval operand) fun _ => .refl _
  | binary left operator right =>
      apply Run.Prolongs.andThen (prolongs.eval left)
      intro first
      exact Run.Prolongs.andThen (prolongs.eval right) fun _ => .refl _
  | logical left operator right =>
      apply Run.Prolongs.andThen (prolongs.eval left)
      intro first
      split
      · exact .refl _
      · exact prolongs.eval right
  | reference id name => exact .refl _
  | assign id name value =>
      exact Run.Prolongs.andThen (prolongs.eval value) fun _ => .refl _
  | call callee paren arguments =>
      exact prolongs.call_expr callee paren arguments
  | get object name =>
      exact Run.Prolongs.andThen (prolongs.eval object) fun _ => .refl _
  | set object name value =>
      apply Run.Prolongs.andThen (prolongs.eval object)
      intro holder
      cases holder with
      | object found =>
          exact Run.Prolongs.andThen (prolongs.eval value) fun _ => .refl _
      | _ => exact .refl _
  | thisRef id keyword => exact .refl _
  | superRef id keyword method => exact .refl _

/-- The values of expressions. -/
theorem evalAllNext
    (exprs : List Expr) :
    (longer.evalAllNext exprs).Prolongs (shorter.evalAllNext exprs) := by
  cases exprs with
  | nil => exact .refl _
  | cons first rest =>
      apply Run.Prolongs.andThen (prolongs.eval first)
      intro value
      exact Run.Prolongs.andThen (prolongs.evalAll rest) fun _ => .refl _

/-- The value of a call, whatever is called. -/
theorem applyNext
    (context : Context)
    (callee : Callee)
    (arguments : List Value) :
    (longer.applyNext context callee arguments).Prolongs
      (shorter.applyNext context callee arguments) := by
  cases callee with
  | native native => exact .refl _
  | function function => exact prolongs.call function arguments
  | blueprint blueprint =>
      apply Run.Prolongs.andThen (.refl _)
      intro object
      cases blueprint.initializer? with
      | none => exact .refl _
      | some initializer =>
          apply Run.Prolongs.andThen (.refl _)
          intro bound
          exact Run.Prolongs.andThen (prolongs.call bound arguments)
            fun _ => .refl _

/-- The value of a function's call. -/
theorem callNext
    (function : Function)
    (arguments : List Value) :
    (longer.callNext function arguments).Prolongs
      (shorter.callNext function arguments) := by
  apply Run.Prolongs.andThen (.refl _)
  intro frame
  apply Run.Prolongs.andThen
  · exact Run.Prolongs.inFrame
      (prolongs.execAll function.declaration.body) frame
  · exact fun _ => .refl _

/-- Executing a statement. -/
theorem execNext
    (load : Token → String → Run Program)
    (statement : Stmt) :
    (longer.execNext load statement).Prolongs
      (shorter.execNext load statement) := by
  cases statement with
  | print value =>
      exact Run.Prolongs.andThen (prolongs.eval value) fun _ => .refl _
  | expression value =>
      exact Run.Prolongs.andThen (prolongs.eval value) fun _ => .refl _
  | varDecl name initializer =>
      cases initializer with
      | none => exact .refl _
      | some initializer =>
          exact Run.Prolongs.andThen (prolongs.eval initializer)
            fun _ => .refl _
  | block body =>
      apply Run.Prolongs.andThen (.refl _)
      intro machine
      apply Run.Prolongs.andThen (.refl _)
      intro frame
      exact Run.Prolongs.inFrame (prolongs.execAll body) frame
  | conditional condition thenBranch elseBranch =>
      apply Run.Prolongs.andThen (prolongs.eval condition)
      intro value
      split
      · exact prolongs.exec thenBranch
      · cases elseBranch with
        | none => exact .refl _
        | some branch => exact prolongs.exec branch
  | loop condition body => exact prolongs.execLoop condition body
  | funDecl declaration => exact .refl _
  | ret keyword value =>
      cases value with
      | none => exact .refl _
      | some value =>
          exact Run.Prolongs.andThen (prolongs.eval value) fun _ => .refl _
  | classDecl name superclass methods => exact .refl _
  | require keyword path =>
      apply Run.Prolongs.andThen (.refl _)
      intro program
      apply Run.Prolongs.andThen
      · apply Run.Prolongs.whileRequiring
        exact Run.Prolongs.inFrame (prolongs.execAll program.statements)
          globalFrame
      · exact fun _ => .refl _

/-- Executing statements. -/
theorem execAllNext
    (statements : List Stmt) :
    (longer.execAllNext statements).Prolongs
      (shorter.execAllNext statements) := by
  cases statements with
  | nil => exact .refl _
  | cons first rest =>
      apply Run.Prolongs.andThen (prolongs.exec first)
      intro flow
      cases flow with
      | normal => exact prolongs.execAll rest
      | returned value => exact .refl _

/-- Executing a loop. -/
theorem execLoopNext
    (condition : Expr)
    (body : Stmt) :
    (longer.execLoopNext condition body).Prolongs
      (shorter.execLoopNext condition body) := by
  apply Run.Prolongs.andThen (prolongs.eval condition)
  intro value
  split
  · apply Run.Prolongs.andThen (prolongs.iterate body)
    intro flow
    cases flow with
    | normal => exact prolongs.execLoop condition body
    | returned value => exact .refl _
  · exact .refl _

/-- An evaluator that asks for the parts what prolongs them prolongs the
whole. -/
theorem next
    (context : Context)
    (load : Token → String → Run Program) :
    (longer.next context load).Prolongs (shorter.next context load) where
  eval := prolongs.evalNext
  evalAll := prolongs.evalAllNext
  apply := prolongs.applyNext context
  call := prolongs.callNext
  exec := prolongs.execNext load
  execAll := prolongs.execAllNext
  execLoop := prolongs.execLoopNext
  iterate := prolongs.execNext load

/-- Whatever the task is, it is prolonged. -/
theorem run
    (task : Task) :
    Run.Prolongs (longer.run task) (shorter.run task) := by
  cases task with
  | eval expr => exact prolongs.eval expr
  | evalAll exprs => exact prolongs.evalAll exprs
  | apply callee arguments => exact prolongs.apply callee arguments
  | call function arguments => exact prolongs.call function arguments
  | result function flow => exact .refl _
  | exec statement => exact prolongs.exec statement
  | execAll statements => exact prolongs.execAll statements
  | execLoop condition body => exact prolongs.execLoop condition body

end Prolongs

/-- If a family of evaluators is prolonged by each step, it is so by any number
of steps. -/
theorem prolongs_of_le
    {family : Nat → Evaluator}
    (prolongs : ∀ steps, (family (steps + 1)).Prolongs (family steps))
    {steps more : Nat}
    (enough : steps ≤ more) :
    (family more).Prolongs (family steps) := by
  induction enough with
  | refl => exact .refl _
  | step _ inductionHypothesis => exact (prolongs _).trans inductionHypothesis

/-- One step more prolongs what the evaluator of programs does. -/
theorem usual_prolongs
    (context : Context)
    (steps : Nat) :
    (usual context (steps + 1)).Prolongs (usual context steps) := by
  induction steps with
  | zero =>
      rw [usual_zero]
      exact .ofExhausted _
  | succ steps inductionHypothesis =>
      have prolongs :=
        inductionHypothesis.next context
        (loadRequiredBy Machine.compile context)
      rwa [← usual_succ, ← usual_succ] at prolongs

end Evaluator

/-- More steps prolong every task. -/
theorem Task.prolongs
    {steps more : Nat}
    (task : Task)
    (context : Context)
    (enough : steps ≤ more) :
    Prolongs (task.run context more) (task.run context steps) := by
  have prolongs :=
    (Evaluator.prolongs_of_le (Evaluator.usual_prolongs context) enough).run
    task
  rwa [Evaluator.run_usual, Evaluator.run_usual] at prolongs

/-- Executing a statement that ends is the same with more steps. -/
theorem exec_of_le
    {context : Context}
    {statement : Stmt}
    {machine : Machine}
    {steps more : Nat}
    (enough : steps ≤ more)
    (finished :
      ∀ after, exec context steps statement machine ≠ .error .exhausted after) :
    exec context more statement machine =
      exec context steps statement machine :=
  Prolongs.eq (Task.prolongs (.exec statement) context enough) finished

end LoxScript
