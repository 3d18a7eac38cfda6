import LoxScript.Machine
import LoxScript.Program
import LoxScript.Proofs.Tree.Orderly

namespace LoxScript

/-!
# Analysis without scopes for iterations

A `for` loop with an increment repeats a block of its body and the increment.
Here such a block, if it is chosen, is no scope: the names in it are looked for
in the scopes around the loop.  All else is analysed as ever.
-/

open Resolve

/-- A choice of blocks that are iterations.  Such a block holds a statement that
declares nothing, and then an expression: in this form a `for` loop with an
increment repeats its body and the increment. -/
structure Iterations where
  chooses : List Stmt → Bool
  shape :
    ∀ body, chooses body = true →
      ∃ repeated increment, body = [repeated, .expression increment] ∧
        repeated.declared? = none

/-- What may be an iteration declares nothing. -/
theorem Iterations.plain
    (iterations : Iterations)
    {body : List Stmt}
    (isIteration : iterations.chooses body = true) :
    ∀ statement ∈ body, statement.declared? = none := by
  obtain ⟨repeated, increment, rfl, plain⟩ := iterations.shape body isIteration
  simpa [Stmt.declared?] using plain

section Directly

variable (iterations : Iterations)

mutual

/-- Analyses a statement in which iterations have no scopes of their own. -/
def Stmt.resolveDirectly : Stmt → Resolve Unit
  | .block body => within NameMap.empty (Stmt.resolveAllDirectly body)
  | .conditional condition thenBranch none => do
      condition.resolve
      thenBranch.resolveDirectly
  | .conditional condition thenBranch (some elseBranch) => do
      condition.resolve
      thenBranch.resolveDirectly
      elseBranch.resolveDirectly
  | .loop condition (.block body) => do
      condition.resolve
      if iterations.chooses body then Stmt.resolveAllDirectly body
      else within NameMap.empty (Stmt.resolveAllDirectly body)
  | .loop condition body => do
      condition.resolve
      body.resolveDirectly
  | .funDecl declaration => do
      declare declaration.name
      define declaration.name
      declaration.resolveDirectly
  | .classDecl name superclass methods => do
      let enclosing := (← get).inClass
      enterClass .plain
      declare name
      define name
      if let some named := superclass then Resolve.inherit name named
      leavingClass enclosing
        (withinClass superclass (FunctionDecl.resolveAllDirectly methods))
  | other => other.resolve

/-- Analyses statements in order. -/
def Stmt.resolveAllDirectly : List Stmt → Resolve Unit
  | [] => return
  | first :: rest => do
      first.resolveDirectly
      Stmt.resolveAllDirectly rest

/-- Analyses a function in which iterations have no scopes of their own. -/
def FunctionDecl.resolveDirectly : FunctionDecl → Resolve Unit
  | ⟨_, params, body⟩ =>
      withinFunction <| within NameMap.empty do
        params.forM declareParameter
        Stmt.resolveAllDirectly body

/-- Analyses functions in order. -/
def FunctionDecl.resolveAllDirectly : List FunctionDecl → Resolve Unit
  | [] => return
  | first :: rest => do
      first.resolveDirectly
      FunctionDecl.resolveAllDirectly rest

end

/-- The distances of a whole program in which iterations have no scopes of their
own. -/
def resolveProgramDirectly (statements : List Stmt) :
    Except ScopeError Distances :=
  match Stmt.resolveAllDirectly iterations statements {} with
  | .ok _ analysis => .ok analysis.distances
  | .error error _ => .error error

namespace Program

/-- The program of a list of statements in which iterations have no scopes of
their own. -/
def ofStatementsDirectly (statements : List Stmt) :
    Except StaticError Program := do
  let distances ← (resolveProgramDirectly iterations statements).mapError .scope
  return ⟨statements, distances⟩

/-- The program of a source, given how one is made of its statements, and the
next identity of a node. -/
def compileBy
    (make : List Stmt → Except StaticError Program)
    (source : ByteArray)
    (nextNode : NodeId) : Except StaticError Program × NodeId :=
  match tokens source with
  | .error error => (.error error, nextNode)
  | .ok scanned =>
      match parseProgram scanned nextNode with
      | (.error error, next) => (.error (.parse error), next)
      | (.ok statements, next) => (make statements, next)

/-- The program of a source in which iterations have no scopes of their own. -/
def compileDirectly (source : ByteArray) (nextNode : NodeId) :
    Except StaticError Program × NodeId :=
  compileBy (ofStatementsDirectly iterations) source nextNode

/-- Programs are compiled in the same way. -/
theorem compileBy_ofStatements : compileBy ofStatements = compile :=
  rfl

end Program

/-- The program of a source in which iterations have no scopes of their own,
with identities for its nodes that no other node has. -/
def Machine.compileDirectly (machine : Machine) (source : ByteArray) :
    Except StaticError Program × Machine :=
  let (program, next) :=
    Program.compileDirectly iterations source machine.nextNode
  (program, { machine with nextNode := next })

end Directly

end LoxScript
