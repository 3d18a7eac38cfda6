import LoxScript.Machine.Evaluation

namespace LoxScript

/-!
# What the evaluator is asked to do

The evaluator is a family of functions that call each other.  A task is one of
their calls, without the number of steps; `Calls` lists the tasks that a task
asks for, with the machine each is asked for in, and `Reaches` is any number of
such requests.  A statement about all the nodes that a run comes to is a
statement about all tasks it reaches.
-/

open Run

/-- Something the evaluator can be asked to do. -/
inductive Task where
  | eval (expr : Expr)
  | evalAll (exprs : List Expr)
  | apply (callee : Callee) (arguments : List Value)
  | call (function : Function) (arguments : List Value)
  | result (function : Function) (flow : Flow)
  | exec (statement : Stmt)
  | execAll (statements : List Stmt)
  | execLoop (condition : Expr) (body : Stmt)

namespace Task

/-- What a task yields. -/
def Out : Task → Type
  | .eval _ => Value
  | .evalAll _ => List Value
  | .apply _ _ => Value
  | .call _ _ => Value
  | .result _ _ => Value
  | .exec _ => Flow
  | .execAll _ => Flow
  | .execLoop _ _ => Flow

/-- Does a task in a number of steps. -/
def run (context : Context) (steps : Nat) : (task : Task) → Run task.Out
  | .eval expr => LoxScript.eval context steps expr
  | .evalAll exprs => LoxScript.evalAll context steps exprs
  | .apply callee arguments => LoxScript.apply context steps callee arguments
  | .call function arguments => LoxScript.call context steps function arguments
  | .result function flow => callResult function flow
  | .exec statement => LoxScript.exec context steps statement
  | .execAll statements => LoxScript.execAll context steps statements
  | .execLoop condition body => LoxScript.execLoop context steps condition body

end Task

/-- Doing one task in one machine, the evaluator asks for another task in
another machine; what comes before that takes at most `steps` steps. -/
inductive Calls (context : Context) (steps : Nat) :
    Task → Machine → Task → Machine → Prop where
  | grouping {inner m} :
      Calls context steps (.eval (.grouping inner)) m (.eval inner) m
  | operand {operator operand m} :
      Calls context steps (.eval (.unary operator operand)) m (.eval operand) m
  | binaryLeft {left operator right m} :
      Calls context steps (.eval (.binary left operator right)) m (.eval left) m
  | binaryRight {left operator right m value after} :
      eval context steps left m = .ok value after →
      Calls context steps (.eval (.binary left operator right)) m
        (.eval right) after
  | logicalLeft {left operator right m} :
      Calls context steps (.eval (.logical left operator right)) m
        (.eval left) m
  | logicalRight {left operator right m value after} :
      eval context steps left m = .ok value after →
      Operator.isSettled operator value = false →
      Calls context steps (.eval (.logical left operator right)) m
        (.eval right) after
  | assigned {id name value m} :
      Calls context steps (.eval (.assign id name value)) m (.eval value) m
  | callee {callee paren arguments m} :
      Calls context steps (.eval (.call callee paren arguments)) m
        (.eval callee) m
  | arguments {callee paren arguments m value after} :
      eval context steps callee m = .ok value after →
      Calls context steps (.eval (.call callee paren arguments)) m
        (.evalAll arguments) after
  | applied {callee paren arguments m value middle values after callable} :
      eval context steps callee m = .ok value middle →
      evalAll context steps arguments middle = .ok values after →
      value.callee? = some callable →
      callable.arity = values.length →
      Calls context steps (.eval (.call callee paren arguments)) m
        (.apply callable values) after
  | object {object name m} :
      Calls context steps (.eval (.get object name)) m (.eval object) m
  | holder {object name value m} :
      Calls context steps (.eval (.set object name value)) m (.eval object) m
  | stored {object name value m found after} :
      eval context steps object m = .ok (.object found) after →
      Calls context steps (.eval (.set object name value)) m (.eval value) after
  | firstExpr {first rest m} :
      Calls context steps (.evalAll (first :: rest)) m (.eval first) m
  | restExprs {first rest m value after} :
      eval context steps first m = .ok value after →
      Calls context steps (.evalAll (first :: rest)) m (.evalAll rest) after
  | function {function arguments m} :
      Calls context steps (.apply (.function function) arguments) m
        (.call function arguments) m
  | initializer {blueprint arguments m object middle initializer bound after} :
      allocateInstance blueprint m = .ok object middle →
      blueprint.initializer? = some initializer →
      bind initializer object middle = .ok bound after →
      Calls context steps (.apply (.blueprint blueprint) arguments) m
        (.call bound arguments) after
  | body {function arguments m frame after} :
      allocate (callFrame function arguments) m = .ok frame after →
      Calls context steps (.call function arguments) m
        (.execAll function.declaration.body) { after with active := frame }
  | result {function arguments m frame middle flow after} :
      allocate (callFrame function arguments) m = .ok frame middle →
      inFrame frame (execAll context steps function.declaration.body) middle =
        .ok flow after →
      Calls context steps (.call function arguments) m
        (.result function flow) after
  | printed {value m} :
      Calls context steps (.exec (.print value)) m (.eval value) m
  | stated {value m} :
      Calls context steps (.exec (.expression value)) m (.eval value) m
  | initialized {name initializer m} :
      Calls context steps (.exec (.varDecl name (some initializer))) m
        (.eval initializer) m
  | block {body m frame after} :
      allocate ⟨NameMap.empty, some m.active⟩ m = .ok frame after →
      Calls context steps (.exec (.block body)) m (.execAll body)
        { after with active := frame }
  | condition {condition thenBranch elseBranch m} :
      Calls context steps
        (.exec (.conditional condition thenBranch elseBranch)) m
        (.eval condition) m
  | thenBranch {condition thenBranch elseBranch m value after} :
      eval context steps condition m = .ok value after →
      value.isTruthy = true →
      Calls context steps
        (.exec (.conditional condition thenBranch elseBranch)) m
        (.exec thenBranch) after
  | elseBranch {condition thenBranch elseBranch m value after} :
      eval context steps condition m = .ok value after →
      value.isTruthy = false →
      Calls context steps
        (.exec (.conditional condition thenBranch (some elseBranch))) m
        (.exec elseBranch) after
  | loop {condition body m} :
      Calls context steps (.exec (.loop condition body)) m
        (.execLoop condition body) m
  | returned {keyword value m} :
      Calls context steps (.exec (.ret keyword (some value))) m (.eval value) m
  | superclass {name named methods m} :
      Calls context steps (.exec (.classDecl name (some named) methods)) m
        (.eval named.expr) m
  | required {keyword path m program after} :
      loadRequired context keyword path m = .ok program after →
      Calls context steps (.exec (.require keyword path)) m
        (.execAll program.statements)
        { after with
          requiring := path :: after.requiring, active := globalFrame }
  | firstStmt {first rest m} :
      Calls context steps (.execAll (first :: rest)) m (.exec first) m
  | restStmts {first rest m after} :
      exec context steps first m = .ok .normal after →
      Calls context steps (.execAll (first :: rest)) m (.execAll rest) after
  | guard {condition body m} :
      Calls context steps (.execLoop condition body) m (.eval condition) m
  | repeated {condition body m value after} :
      eval context steps condition m = .ok value after →
      value.isTruthy = true →
      Calls context steps (.execLoop condition body) m (.exec body) after
  | again {condition body m value middle after} :
      eval context steps condition m = .ok value middle →
      value.isTruthy = true →
      exec context steps body middle = .ok .normal after →
      Calls context steps (.execLoop condition body) m
        (.execLoop condition body) after

/-- Starting with one task in one machine, the evaluator comes to another task
in another machine. -/
inductive Reaches (context : Context) (start : Task) (initial : Machine) :
    Task → Machine → Prop where
  | here : Reaches context start initial start initial
  | call {task other : Task} {m n : Machine} (steps : Nat) :
      Reaches context start initial task m →
      Calls context steps task m other n →
      Reaches context start initial other n

end LoxScript
