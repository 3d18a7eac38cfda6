import LoxScript.Proofs.Machine.Tasks

namespace LoxScript

/-!
# Evaluators

The evaluator is written here once more, over an evaluator for all that it asks
for, and over how required sources are compiled.  With itself, one step shorter,
it is the evaluator of programs.
-/

open Run

/-- What evaluates and executes the parts of programs. -/
structure Evaluator where
  eval : Expr → Run Value
  evalAll : List Expr → Run (List Value)
  apply : Callee → List Value → Run Value
  call : Function → List Value → Run Value
  exec : Stmt → Run Flow
  execAll : List Stmt → Run Flow
  execLoop : Expr → Stmt → Run Flow
  /-- Executes what a loop repeats, once. -/
  iterate : Stmt → Run Flow

/-- The program of a required source, given how sources are compiled. -/
def Run.loadRequiredBy
    (compile : Machine → ByteArray → Except StaticError Program × Machine)
    (context : Context)
    (keyword : Token)
    (path : String) : Run Program := do
  let failWith (cause : RequireCause) : Run Program :=
    fail (.require path keyword.line cause)
  if (← get).requiring.contains path then
    fail (.cyclicRequire path keyword.line)
  match context.library path with
  | .error failure => failWith (.unreadable failure)
  | .ok source =>
      match ← modifyGet fun machine => compile machine source with
      | .error error => failWith (.rejected error)
      | .ok program =>
          modify fun machine => machine.learn program.distances
          return program

namespace Evaluator

/-- Nothing can be done any more. -/
def exhausted : Evaluator where
  eval _ := throw .exhausted
  evalAll _ := throw .exhausted
  apply _ _ := throw .exhausted
  call _ _ := throw .exhausted
  exec _ := throw .exhausted
  execAll _ := throw .exhausted
  execLoop _ _ := throw .exhausted
  iterate _ := throw .exhausted

section Next

variable (inner : Evaluator)

/-- The value of an expression. -/
def evalNext : Expr → Run Value
  | .literal value => return Value.ofLiteral value
  | .grouping operand => inner.eval operand
  | .unary operator operand => do
      let value ← inner.eval operand
      Run.ofExcept (Operator.unary operator value)
  | .binary left operator right => do
      let first ← inner.eval left
      let second ← inner.eval right
      Run.ofExcept (Operator.binary operator first second)
  | .logical left operator right => do
      let first ← inner.eval left
      if Operator.isSettled operator first then return first
      else inner.eval right
  | .reference id name => readVariable id name
  | .assign id name value => do
      let stored ← inner.eval value
      assignVariable id name stored
      return stored
  | .call callee paren arguments => do
      let called ← inner.eval callee
      let passed ← inner.evalAll arguments
      match called.callee? with
      | some callable =>
          checkArity callable passed paren
          inner.apply callable passed
      | none => fail (.notCallable called.typeName paren.line)
  | .get object name => do
      match ← inner.eval object with
      | .object found => getProperty found name
      | other => fail (.notAnInstance name.lexeme other.typeName name.line)
  | .set object name value => do
      match ← inner.eval object with
      | .object found =>
          let stored ← inner.eval value
          setField found name.lexeme stored
          return stored
      | other => fail (.notAnInstance name.lexeme other.typeName name.line)
  | .thisRef id keyword => readVariable id keyword
  | .superRef id keyword method => readSuper id keyword method

/-- The values of expressions in order. -/
def evalAllNext : List Expr → Run (List Value)
  | [] => return []
  | first :: rest => do
      let value ← inner.eval first
      return value :: (← inner.evalAll rest)

/-- The value of a call. -/
def applyNext (context : Context) : Callee → List Value → Run Value
  | .native native, arguments => callNative context native arguments
  | .function function, arguments => inner.call function arguments
  | .blueprint blueprint, arguments => do
      let object ← allocateInstance blueprint
      match blueprint.initializer? with
      | some initializer =>
          let bound ← bind initializer object
          let _ ← inner.call bound arguments
          return .object object
      | none => return .object object

/-- The value of a function's call. -/
def callNext (function : Function) (arguments : List Value) : Run Value := do
  let frame ← allocate (callFrame function arguments)
  let flow ← inFrame frame (inner.execAll function.declaration.body)
  callResult function flow

/-- Executes a statement. -/
def execNext (load : Token → String → Run Program) : Stmt → Run Flow
  | .print value => do
      let shown ← inner.eval value
      write (shown.text ++ "\n")
      return .normal
  | .expression value => do
      let _ ← inner.eval value
      return .normal
  | .varDecl name none => do
      define name.lexeme .nil
      return .normal
  | .varDecl name (some initializer) => do
      let value ← inner.eval initializer
      define name.lexeme value
      return .normal
  | .block body => do
      let frame ← allocate ⟨NameMap.empty, some (← get).active⟩
      inFrame frame (inner.execAll body)
  | .conditional condition thenBranch elseBranch => do
      if (← inner.eval condition).isTruthy then inner.exec thenBranch
      else
        match elseBranch with
        | some branch => inner.exec branch
        | none => return .normal
  | .loop condition body => inner.execLoop condition body
  | .funDecl declaration => do
      declareFunction declaration
      return .normal
  | .ret _ none => return .returned .nil
  | .ret _ (some value) => do
      return .returned (← inner.eval value)
  | .classDecl name superclass methods => do
      declareClass name superclass methods
      return .normal
  | .require keyword path => do
      let program ← load keyword path
      let _ ← whileRequiring path
        (inFrame globalFrame (inner.execAll program.statements))
      return .normal

/-- Executes statements in order until one returns. -/
def execAllNext : List Stmt → Run Flow
  | [] => return .normal
  | first :: rest => do
      match ← inner.exec first with
      | .returned value => return .returned value
      | .normal => inner.execAll rest

/-- Executes what a loop repeats as long as a condition holds and it does not
return. -/
def execLoopNext (condition : Expr) (body : Stmt) : Run Flow := do
  if (← inner.eval condition).isTruthy then
    match ← inner.iterate body with
    | .returned value => return .returned value
    | .normal => inner.execLoop condition body
  else return .normal

/-- The evaluator that asks another one for the parts. -/
def next (context : Context) (load : Token → String → Run Program) :
    Evaluator where
  eval := inner.evalNext
  evalAll := inner.evalAllNext
  apply := inner.applyNext context
  call := inner.callNext
  exec := inner.execNext load
  execAll := inner.execAllNext
  execLoop := inner.execLoopNext
  iterate := inner.execNext load

end Next

/-- The evaluator of programs, with a number of steps. -/
def usual (context : Context) (steps : Nat) : Evaluator where
  eval := LoxScript.eval context steps
  evalAll := LoxScript.evalAll context steps
  apply := LoxScript.apply context steps
  call := LoxScript.call context steps
  exec := LoxScript.exec context steps
  execAll := LoxScript.execAll context steps
  execLoop := LoxScript.execLoop context steps
  iterate := LoxScript.exec context steps

/-- Without steps nothing can be done. -/
theorem usual_zero
    (context : Context) :
    usual context 0 = exhausted := by
  simp only [usual, exhausted, Evaluator.mk.injEq]
  refine ⟨?_, ?_, ?_, ?_, ?_, ?_, ?_, ?_⟩ <;> funext <;> rfl

/-- With one step more, the evaluator of programs asks itself for the parts. -/
theorem usual_succ
    (context : Context)
    (steps : Nat) :
    usual context (steps + 1) =
      (usual context steps).next context
        (loadRequiredBy Machine.compile context) := by
  simp only [usual, next, Evaluator.mk.injEq]
  have execs : LoxScript.exec context (steps + 1) =
      (usual context steps).execNext
        (loadRequiredBy Machine.compile context) := by
    funext statement
    cases statement with
    | varDecl _ initializer => cases initializer <;> rfl
    | ret _ value => cases value <;> rfl
    | _ => rfl
  refine ⟨?_, ?_, ?_, rfl, execs, ?_, rfl, execs⟩
  · funext expr
    cases expr <;> rfl
  · funext exprs
    cases exprs <;> rfl
  · funext callee arguments
    cases callee <;> rfl
  · funext statements
    cases statements <;> rfl

/-- Does a task. -/
def run (evaluator : Evaluator) : (task : Task) → Run task.Out
  | .eval expr => evaluator.eval expr
  | .evalAll exprs => evaluator.evalAll exprs
  | .apply callee arguments => evaluator.apply callee arguments
  | .call function arguments => evaluator.call function arguments
  | .result function flow => callResult function flow
  | .exec statement => evaluator.exec statement
  | .execAll statements => evaluator.execAll statements
  | .execLoop condition body => evaluator.execLoop condition body

/-- The evaluator of programs does tasks as ever. -/
theorem run_usual
    (context : Context)
    (steps : Nat)
    (task : Task) :
    (usual context steps).run task = task.run context steps := by
  cases task <;> rfl

end Evaluator

end LoxScript
