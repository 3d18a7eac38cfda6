import LoxScript.Machine.Operators
import LoxScript.Machine.Steps

namespace LoxScript

/-!
# Running programs

Expressions yield values, statements change the machine.  Scripts may run for
ever, so every function counts down a number of steps that it may still go
deeper or further; running out of them is an outcome of its own, different from
every result and every error of a script.
-/

open Run

/-- The value of an operator as a step. -/
@[inline] def Run.ofExcept : Except RuntimeError Value → Run Value
  | .ok value => return value
  | .error error => fail error

mutual

/-- The value of an expression. -/
def eval (context : Context) : Nat → Expr → Run Value
  | 0, _ => throw .exhausted
  | _ + 1, .literal value => return Value.ofLiteral value
  | steps + 1, .grouping inner => eval context steps inner
  | steps + 1, .unary operator operand => do
      let value ← eval context steps operand
      Run.ofExcept (Operator.unary operator value)
  | steps + 1, .binary left operator right => do
      let first ← eval context steps left
      let second ← eval context steps right
      Run.ofExcept (Operator.binary operator first second)
  | steps + 1, .logical left operator right => do
      let first ← eval context steps left
      if Operator.isSettled operator first then return first
      else eval context steps right
  | _ + 1, .reference id name => readVariable id name
  | steps + 1, .assign id name value => do
      let stored ← eval context steps value
      assignVariable id name stored
      return stored
  | steps + 1, .call callee paren arguments => do
      let called ← eval context steps callee
      let passed ← evalAll context steps arguments
      match called.callee? with
      | some callable =>
          checkArity callable passed paren
          apply context steps callable passed
      | none => fail (.notCallable called.typeName paren.line)
  | steps + 1, .get object name => do
      match ← eval context steps object with
      | .object found => getProperty found name
      | other => fail (.notAnInstance name.lexeme other.typeName name.line)
  | steps + 1, .set object name value => do
      match ← eval context steps object with
      | .object found =>
          let stored ← eval context steps value
          setField found name.lexeme stored
          return stored
      | other => fail (.notAnInstance name.lexeme other.typeName name.line)
  | _ + 1, .thisRef id keyword => readVariable id keyword
  | _ + 1, .superRef id keyword method => readSuper id keyword method

/-- The values of expressions in order. -/
def evalAll (context : Context) : Nat → List Expr → Run (List Value)
  | 0, _ => throw .exhausted
  | _ + 1, [] => return []
  | steps + 1, first :: rest => do
      let value ← eval context steps first
      return value :: (← evalAll context steps rest)

/-- The value of a call, whatever the number of arguments. -/
def apply (context : Context) : Nat → Callee → List Value → Run Value
  | 0, _, _ => throw .exhausted
  | _ + 1, .native native, arguments => callNative context native arguments
  | steps + 1, .function function, arguments =>
      call context steps function arguments
  | steps + 1, .blueprint blueprint, arguments => do
      let object ← allocateInstance blueprint
      match blueprint.initializer? with
      | some initializer =>
          let bound ← bind initializer object
          let _ ← call context steps bound arguments
          return .object object
      | none => return .object object

/-- The value of a function's call.  Parameters without an argument stay
undefined, arguments without a parameter are dropped. -/
def call (context : Context) : Nat → Function → List Value → Run Value
  | 0, _, _ => throw .exhausted
  | steps + 1, function, arguments => do
      let frame ← allocate (callFrame function arguments)
      let flow ← inFrame frame (execAll context steps function.declaration.body)
      callResult function flow

/-- Executes a statement. -/
def exec (context : Context) : Nat → Stmt → Run Flow
  | 0, _ => throw .exhausted
  | steps + 1, .print value => do
      let shown ← eval context steps value
      write (shown.text ++ "\n")
      return .normal
  | steps + 1, .expression value => do
      let _ ← eval context steps value
      return .normal
  | _ + 1, .varDecl name none => do
      define name.lexeme .nil
      return .normal
  | steps + 1, .varDecl name (some initializer) => do
      let value ← eval context steps initializer
      define name.lexeme value
      return .normal
  | steps + 1, .block body => do
      let frame ← allocate ⟨NameMap.empty, some (← get).active⟩
      inFrame frame (execAll context steps body)
  | steps + 1, .conditional condition thenBranch elseBranch => do
      if (← eval context steps condition).isTruthy then
        exec context steps thenBranch
      else
        match elseBranch with
        | some branch => exec context steps branch
        | none => return .normal
  | steps + 1, .loop condition body => execLoop context steps condition body
  | _ + 1, .funDecl declaration => do
      declareFunction declaration
      return .normal
  | _ + 1, .ret _ none => return .returned .nil
  | steps + 1, .ret _ (some value) => do
      return .returned (← eval context steps value)
  | _ + 1, .classDecl name superclass methods => do
      declareClass name superclass methods
      return .normal
  | steps + 1, .require keyword path => do
      let program ← loadRequired context keyword path
      let _ ← whileRequiring path
        (inFrame globalFrame (execAll context steps program.statements))
      return .normal

/-- Executes statements in order until one returns. -/
def execAll (context : Context) : Nat → List Stmt → Run Flow
  | 0, _ => throw .exhausted
  | _ + 1, [] => return .normal
  | steps + 1, first :: rest => do
      match ← exec context steps first with
      | .returned value => return .returned value
      | .normal => execAll context steps rest

/-- Executes a statement as long as a condition holds and it does not return. -/
def execLoop (context : Context) : Nat → Expr → Stmt → Run Flow
  | 0, _, _ => throw .exhausted
  | steps + 1, condition, body => do
      if (← eval context steps condition).isTruthy then
        match ← exec context steps body with
        | .returned value => return .returned value
        | .normal => execLoop context steps condition body
      else return .normal

end

end LoxScript
