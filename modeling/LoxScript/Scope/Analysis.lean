import LoxScript.Scope

namespace LoxScript

/-!
# Which scope a name belongs to

Before a program runs, every reference to a local variable gets a distance: how
many scopes lie between the reference and the scope that declares its name.  A
reference without a distance means a global variable.  The same walk rejects
programs that misuse scopes, `return`, `this` or `super`.

The walk is written over an explicit `Analysis`, with which a host may go on
after an error.  Scopes and functions that were entered are left however their
part ends.  A class is left only once its heading has passed: an error in its
name or its superclass leaves the analysis inside the class.
-/

/-- The kind of class that the code at hand belongs to. -/
inductive ClassContext where
  | outside
  | plain
  | derived
deriving Repr, DecidableEq

/-- An analysis part way through a program. -/
structure Analysis where
  /-- The local scopes around the code at hand, innermost first. -/
  scopes : List Scope := []
  /-- The code at hand belongs to a function, a method or an initializer.  Which
  of them it is makes no difference: it is asked only where a `return`
  stands. -/
  inFunction : Bool := false
  inClass : ClassContext := .outside
  distances : Distances := {}

/-- A step of an analysis. -/
abbrev Resolve := EStateM ScopeError Analysis

namespace Resolve

/-- Fails at a token. -/
def fail (fault : ScopeFault) (token : Token) : Resolve α :=
  throw ⟨fault, token.lexeme, token.line⟩

/-- Declares a name in the innermost scope, not yet ready; at the top level
nothing happens. -/
def declare (name : Token) : Resolve Unit := do
  match (← get).scopes with
  | [] => return
  | scope :: outer =>
      modify fun analysis =>
        { analysis with scopes := scope.insert name.lexeme false :: outer }
      if scope.contains name.lexeme then fail .alreadyDeclared name

/-- Makes a name of the innermost scope ready. -/
def define (name : Token) : Resolve Unit :=
  modify fun analysis =>
    match analysis.scopes with
    | [] => analysis
    | scope :: outer =>
        { analysis with scopes := scope.insert name.lexeme true :: outer }

/-- Files the distance from a node to the nearest scope that declares its
name. -/
def file (id : NodeId) (name : Token) : Resolve Unit :=
  modify fun analysis =>
    match Scope.distance? name.lexeme analysis.scopes with
    | some distance =>
        { analysis with distances := analysis.distances.insert id distance }
    | none => analysis

/-- Runs a step inside one more scope, which is left however the step ends. -/
def within (scope : Scope) (step : Resolve α) : Resolve α := fun analysis =>
  match step { analysis with scopes := scope :: analysis.scopes } with
  | .ok value after => .ok value { after with scopes := after.scopes.tail }
  | .error error after =>
      .error error { after with scopes := after.scopes.tail }

/-- Runs a step as part of a function, and forgets that however the step
ends. -/
def withinFunction (step : Resolve α) : Resolve α := fun analysis =>
  match step { analysis with inFunction := true } with
  | .ok value after =>
      .ok value { after with inFunction := analysis.inFunction }
  | .error error after =>
      .error error { after with inFunction := analysis.inFunction }

/-- Runs a step, after which the code at hand belongs to `context` however the
step ends. -/
def leavingClass (context : ClassContext) (step : Resolve α) : Resolve α :=
  fun analysis =>
    match step analysis with
    | .ok value after => .ok value { after with inClass := context }
    | .error error after => .error error { after with inClass := context }

/-- From here on the code at hand belongs to a class of this kind. -/
def enterClass (context : ClassContext) : Resolve Unit :=
  modify fun analysis => { analysis with inClass := context }

/-- A variable is read. -/
def read (id : NodeId) (name : Token) : Resolve Unit := do
  match (← get).scopes with
  | scope :: _ =>
      if scope.find? name.lexeme == some false then
        fail .readInOwnInitializer name
  | [] => pure ()
  file id name

/-- `this` is used. -/
def useThis (id : NodeId) (keyword : Token) : Resolve Unit := do
  match (← get).inClass with
  | .outside => fail .thisOutsideClass keyword
  | .plain | .derived => file id keyword

/-- `super` is used. -/
def useSuper (id : NodeId) (keyword : Token) : Resolve Unit := do
  match (← get).inClass with
  | .outside => fail .superOutsideClass keyword
  | .plain => fail .superWithoutSuperclass keyword
  | .derived => file id keyword

/-- Declares a parameter, which is ready at once. -/
def declareParameter (name : Token) : Resolve Unit := do
  declare name
  define name

/-- A `return` is met. -/
def allowReturn (keyword : Token) : Resolve Unit := do
  if !(← get).inFunction then fail .topLevelReturn keyword

/-- A superclass is named in the declaration of a class. -/
def inherit (name : Token) (superclass : SuperclassRef) : Resolve Unit := do
  enterClass .derived
  if superclass.name.lexeme = name.lexeme then
    fail .selfInheritance superclass.name
  read superclass.id superclass.name

/-- The scopes around the methods of a class. -/
def withinClass (superclass : Option SuperclassRef) (methods : Resolve Unit) :
    Resolve Unit :=
  match superclass with
  | some _ => within Scope.ofSuper (within Scope.ofThis methods)
  | none => within Scope.ofThis methods

end Resolve

open Resolve

mutual

/-- Analyses an expression; what is stored somewhere comes before the place it
is stored in. -/
def Expr.resolve : Expr → Resolve Unit
  | .literal _ => return
  | .grouping inner => inner.resolve
  | .unary _ operand => operand.resolve
  | .binary left _ right => do
      left.resolve
      right.resolve
  | .logical left _ right => do
      left.resolve
      right.resolve
  | .reference id name => read id name
  | .assign id name value => do
      value.resolve
      file id name
  | .call callee _ arguments => do
      callee.resolve
      Expr.resolveAll arguments
  | .get object _ => object.resolve
  | .set object _ value => do
      value.resolve
      object.resolve
  | .thisRef id keyword => useThis id keyword
  | .superRef id keyword _ => useSuper id keyword

/-- Analyses expressions in order. -/
def Expr.resolveAll : List Expr → Resolve Unit
  | [] => return
  | first :: rest => do
      first.resolve
      Expr.resolveAll rest

end

/-- Analyses an expression that may be absent. -/
def resolveOptional : Option Expr → Resolve Unit
  | some value => value.resolve
  | none => return

mutual

/-- Analyses a statement. -/
def Stmt.resolve : Stmt → Resolve Unit
  | .print value => value.resolve
  | .expression value => value.resolve
  | .varDecl name initializer => do
      declare name
      resolveOptional initializer
      define name
  | .block body => within NameMap.empty (Stmt.resolveAll body)
  | .conditional condition thenBranch none => do
      condition.resolve
      thenBranch.resolve
  | .conditional condition thenBranch (some elseBranch) => do
      condition.resolve
      thenBranch.resolve
      elseBranch.resolve
  | .loop condition body => do
      condition.resolve
      body.resolve
  | .funDecl declaration => do
      declare declaration.name
      define declaration.name
      declaration.resolve
  | .ret keyword value => do
      allowReturn keyword
      resolveOptional value
  | .classDecl name superclass methods => do
      let enclosing := (← get).inClass
      enterClass .plain
      declare name
      define name
      if let some named := superclass then Resolve.inherit name named
      leavingClass enclosing
        (withinClass superclass (FunctionDecl.resolveAll methods))
  | .require _ _ => return

/-- Analyses statements in order. -/
def Stmt.resolveAll : List Stmt → Resolve Unit
  | [] => return
  | first :: rest => do
      first.resolve
      Stmt.resolveAll rest

/-- Analyses a function: its parameters and its body share one scope. -/
def FunctionDecl.resolve : FunctionDecl → Resolve Unit
  | ⟨_, params, body⟩ =>
      withinFunction <| within NameMap.empty do
        params.forM declareParameter
        Stmt.resolveAll body

/-- Analyses functions in order. -/
def FunctionDecl.resolveAll : List FunctionDecl → Resolve Unit
  | [] => return
  | first :: rest => do
      first.resolve
      FunctionDecl.resolveAll rest

end

/-- The distances of a whole program, or how it misuses its scopes. -/
def resolveProgram (statements : List Stmt) : Except ScopeError Distances :=
  match Stmt.resolveAll statements {} with
  | .ok _ analysis => .ok analysis.distances
  | .error error _ => .error error

end LoxScript
