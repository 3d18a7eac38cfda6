import LoxScript.Program

namespace LoxScript

/-!
# Which sources a program may ask for

The paths of all `require` statements of a program, however deep they stand.  A
host that cannot read files while a script runs fetches them beforehand.
-/

mutual

/-- The paths that a statement requires. -/
def Stmt.requirements : Stmt → List String
  | .print _ => []
  | .expression _ => []
  | .varDecl _ _ => []
  | .block body => Stmt.requirementsAll body
  | .conditional _ thenBranch none => thenBranch.requirements
  | .conditional _ thenBranch (some elseBranch) =>
      thenBranch.requirements ++ elseBranch.requirements
  | .loop _ body => body.requirements
  | .funDecl declaration => declaration.requirements
  | .ret _ _ => []
  | .classDecl _ _ methods => FunctionDecl.requirementsAll methods
  | .require _ path => [path]

/-- The paths that statements require, in order. -/
def Stmt.requirementsAll : List Stmt → List String
  | [] => []
  | first :: rest => first.requirements ++ Stmt.requirementsAll rest

/-- The paths that a function requires. -/
def FunctionDecl.requirements : FunctionDecl → List String
  | ⟨_, _, body⟩ => Stmt.requirementsAll body

/-- The paths that functions require, in order. -/
def FunctionDecl.requirementsAll : List FunctionDecl → List String
  | [] => []
  | first :: rest => first.requirements ++ FunctionDecl.requirementsAll rest

end

/-- The paths that a source requires; none if the source is rejected. -/
def Program.requirements (source : ByteArray) : List String :=
  match (Program.compile source 0).1 with
  | .ok program => Stmt.requirementsAll program.statements
  | .error _ => []

end LoxScript
