import LoxScript.Tree

namespace LoxScript

/-!
# Trees with other identities and tokens

One tree made of another by changing the identities of its nodes and its tokens,
place by place.
-/

section Mapped

variable (node : NodeId → NodeId) (token : Token → Token)

mutual

/-- The expression with other identities and tokens. -/
def Expr.mapped : Expr → Expr
  | .literal value => .literal value
  | .grouping inner => .grouping inner.mapped
  | .unary operator operand => .unary (token operator) operand.mapped
  | .binary left operator right =>
      .binary left.mapped (token operator) right.mapped
  | .logical left operator right =>
      .logical left.mapped (token operator) right.mapped
  | .reference id name => .reference (node id) (token name)
  | .assign id name value => .assign (node id) (token name) value.mapped
  | .call callee paren arguments =>
      .call callee.mapped (token paren) (Expr.mappedAll arguments)
  | .get object name => .get object.mapped (token name)
  | .set object name value => .set object.mapped (token name) value.mapped
  | .thisRef id keyword => .thisRef (node id) (token keyword)
  | .superRef id keyword method =>
      .superRef (node id) (token keyword) (token method)

/-- All expressions with other identities and tokens. -/
def Expr.mappedAll : List Expr → List Expr
  | [] => []
  | first :: rest => first.mapped :: Expr.mappedAll rest

end

/-- The superclass with another identity and token. -/
def SuperclassRef.mapped (superclass : SuperclassRef) : SuperclassRef :=
  ⟨node superclass.id, token superclass.name⟩

mutual

/-- The statement with other identities and tokens. -/
def Stmt.mapped : Stmt → Stmt
  | .print value => .print (value.mapped node token)
  | .expression value => .expression (value.mapped node token)
  | .varDecl name initializer =>
      .varDecl (token name) (initializer.map (Expr.mapped node token))
  | .block body => .block (Stmt.mappedAll body)
  | .conditional condition thenBranch none =>
      .conditional (condition.mapped node token) thenBranch.mapped none
  | .conditional condition thenBranch (some elseBranch) =>
      .conditional (condition.mapped node token) thenBranch.mapped
        (some elseBranch.mapped)
  | .loop condition body => .loop (condition.mapped node token) body.mapped
  | .funDecl declaration => .funDecl declaration.mapped
  | .ret keyword value =>
      .ret (token keyword) (value.map (Expr.mapped node token))
  | .classDecl name superclass methods =>
      .classDecl (token name) (superclass.map (SuperclassRef.mapped node token))
        (FunctionDecl.mappedAll methods)
  | .require keyword path => .require (token keyword) path

/-- All statements with other identities and tokens. -/
def Stmt.mappedAll : List Stmt → List Stmt
  | [] => []
  | first :: rest => first.mapped :: Stmt.mappedAll rest

/-- The function with other identities and tokens. -/
def FunctionDecl.mapped : FunctionDecl → FunctionDecl
  | ⟨name, params, body⟩ => ⟨token name, params.map token, Stmt.mappedAll body⟩

/-- All functions with other identities and tokens. -/
def FunctionDecl.mappedAll : List FunctionDecl → List FunctionDecl
  | [] => []
  | first :: rest => first.mapped :: FunctionDecl.mappedAll rest

end

/-- All expressions are changed one by one. -/
theorem Expr.mappedAll_eq_map
    (values : List Expr) :
    Expr.mappedAll node token values = values.map (Expr.mapped node token) := by
  induction values with
  | nil => rfl
  | cons value values inductionHypothesis =>
      simp [Expr.mappedAll, inductionHypothesis]

/-- All statements are changed one by one. -/
theorem Stmt.mappedAll_eq_map
    (values : List Stmt) :
    Stmt.mappedAll node token values = values.map (Stmt.mapped node token) := by
  induction values with
  | nil => rfl
  | cons value values inductionHypothesis =>
      simp [Stmt.mappedAll, inductionHypothesis]

/-- All functions are changed one by one. -/
theorem FunctionDecl.mappedAll_eq_map
    (values : List FunctionDecl) :
    FunctionDecl.mappedAll node token values =
      values.map (FunctionDecl.mapped node token) := by
  induction values with
  | nil => rfl
  | cons value values inductionHypothesis =>
      simp [FunctionDecl.mappedAll, inductionHypothesis]

end Mapped

/-- The expression without the identities of its nodes. -/
def Expr.unnumbered : Expr → Expr :=
  Expr.mapped (fun _ => 0) id

/-- The superclass without its identity. -/
def SuperclassRef.unnumbered : SuperclassRef → SuperclassRef :=
  SuperclassRef.mapped (fun _ => 0) fun token => token

/-- The statement without the identities of its nodes. -/
def Stmt.unnumbered : Stmt → Stmt :=
  Stmt.mapped (fun _ => 0) id

/-- The statements without the identities of their nodes. -/
def Stmt.unnumberedAll : List Stmt → List Stmt :=
  Stmt.mappedAll (fun _ => 0) id

end LoxScript
