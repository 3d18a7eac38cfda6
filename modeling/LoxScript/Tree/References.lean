import LoxScript.Tree

namespace LoxScript

/-!
# References in source order

The nodes of a program that refer to variables, in the order in which they are
listed to a host: an assignment before its value, the left of two operands
before the right, a property's object before the value stored in it.
-/

/-- The ways in which a node refers to a variable. -/
inductive ReferenceKind where
  | read
  | write
  | this
  | super
deriving Repr, DecidableEq

/-- A node that refers to a variable. -/
structure Reference where
  kind : ReferenceKind
  id : NodeId
  /-- The name, `this` or `super` as it stands in the source. -/
  token : Token
deriving Repr

mutual

/-- The references of an expression. -/
def Expr.references : Expr → List Reference
  | .literal _ => []
  | .grouping inner => inner.references
  | .unary _ operand => operand.references
  | .binary left _ right => left.references ++ right.references
  | .logical left _ right => left.references ++ right.references
  | .reference id name => [⟨.read, id, name⟩]
  | .assign id name value => ⟨.write, id, name⟩ :: value.references
  | .call callee _ arguments =>
      callee.references ++ Expr.referencesAll arguments
  | .get object _ => object.references
  | .set object _ value => object.references ++ value.references
  | .thisRef id keyword => [⟨.this, id, keyword⟩]
  | .superRef id keyword _ => [⟨.super, id, keyword⟩]

/-- The references of several expressions in order. -/
def Expr.referencesAll : List Expr → List Reference
  | [] => []
  | first :: rest => first.references ++ Expr.referencesAll rest

end

/-- The reference that names a superclass. -/
def SuperclassRef.references (superclass : SuperclassRef) : List Reference :=
  [⟨.read, superclass.id, superclass.name⟩]

/-- The references of an expression that may be absent. -/
def optionalReferences : Option Expr → List Reference
  | some value => value.references
  | none => []

mutual

/-- The references of a statement. -/
def Stmt.references : Stmt → List Reference
  | .print value => value.references
  | .expression value => value.references
  | .varDecl _ initializer => optionalReferences initializer
  | .block body => Stmt.referencesAll body
  | .conditional condition thenBranch none =>
      condition.references ++ thenBranch.references
  | .conditional condition thenBranch (some elseBranch) =>
      condition.references ++ thenBranch.references ++ elseBranch.references
  | .loop condition body => condition.references ++ body.references
  | .funDecl declaration => declaration.references
  | .ret _ value => optionalReferences value
  | .classDecl _ none methods => FunctionDecl.referencesAll methods
  | .classDecl _ (some superclass) methods =>
      superclass.references ++ FunctionDecl.referencesAll methods
  | .require _ _ => []

/-- The references of a program in order. -/
def Stmt.referencesAll : List Stmt → List Reference
  | [] => []
  | first :: rest => first.references ++ Stmt.referencesAll rest

/-- The references of a function's body. -/
def FunctionDecl.references : FunctionDecl → List Reference
  | ⟨_, _, body⟩ => Stmt.referencesAll body

/-- The references of several functions in order. -/
def FunctionDecl.referencesAll : List FunctionDecl → List Reference
  | [] => []
  | first :: rest => first.references ++ FunctionDecl.referencesAll rest

end

end LoxScript
