import Mathlib.Data.List.Forall2
import Mathlib.Logic.Equiv.Basic
import LoxScript.Machine.Evaluation
import LoxScript.Proofs.Machine.Fitting
import LoxScript.Proofs.Renaming.Tree

namespace LoxScript

/-!
# Code with other names

Two pieces of code are twins if they differ only in the names of some local
variables.  In some scopes, which are marked, one name is exchanged for another:
where such a scope declares a variable, and at the nodes whose distances lead to
such a scope.  Everything else, functions, classes, properties and global
variables among it, is called the same on both sides.
-/

/-- A renaming in a program that runs. -/
structure Relabelling extends Renaming where
  /-- The first identity of the program's nodes. -/
  first : NodeId
  /-- The identity after those of the program's nodes. -/
  bound : NodeId
  /-- The store in which the program starts. -/
  start : Store

namespace Marks

/-- No scope is marked. -/
def Plain (marks : Marks) : Prop :=
  ∀ distance, marks.marked distance = false

/-- Outside of all scopes nothing is marked. -/
theorem plain_nil : Plain [] :=
  fun _ => rfl

/-- One more scope that is not marked. -/
theorem Plain.cons
    {marks : Marks}
    (plain : marks.Plain) :
    Plain (false :: marks) := by
  intro distance
  cases distance with
  | zero => rfl
  | succ further => exact plain further

/-- The scopes of a class are not marked. -/
theorem Plain.ofClass
    {marks : Marks}
    (plain : marks.Plain)
    (superclass : Option SuperclassRef) :
    (Marks.ofClass superclass marks).Plain := by
  cases superclass with
  | none => exact plain.cons
  | some named => exact plain.cons.cons

end Marks

/-- A name as it is spelled in a scope that is marked or not: there the two
names are exchanged. -/
def Renaming.spelled (n : Renaming) (marked : Bool) (name : String) : String :=
  if marked then Equiv.swap n.old n.new name else name

namespace Relabelling

variable (r : Relabelling)

/-- Neither of the two names is reserved, and there is a global frame at the
start. -/
structure Proper : Prop where
  rooted : r.start.Rooted
  oldThis : r.old ≠ "this"
  oldSuper : r.old ≠ "super"
  newThis : r.new ≠ "this"
  newSuper : r.new ≠ "super"

/-- One node with two names: the second is the first, exchanged if the node
leads to a marked scope.  Where scopes are marked, the node is one of the
program, in which the new name does not occur. -/
structure Refers (marks : Marks) (id : NodeId) (name image : Token) : Prop where
  line : image.line = name.line
  lexeme : image.lexeme = r.spelled (r.leads marks id) name.lexeme
  known : (r.first ≤ id ∧ id < r.bound) ∨ marks.Plain
  fresh : r.leads marks id = true → name.lexeme ≠ r.new

/-- A function or class of this name is called the same in the innermost
scope. -/
def Spares (marks : Marks) (name : Token) : Prop :=
  r.spelled marks.here name.lexeme = name.lexeme

variable {r} {marks : Marks}

@[simp] theorem spelled_false
    (name : String) :
    r.spelled false name = name :=
  rfl

/-- Different names stay different. -/
@[simp] theorem spelled_inj
    {marked : Bool}
    {name other : String} :
    r.spelled marked name = r.spelled marked other ↔ name = other := by
  cases marked with
  | false => rfl
  | true => exact (Equiv.swap r.old r.new).apply_eq_iff_eq

/-- Exchanging twice changes nothing. -/
@[simp] theorem spelled_spelled
    (marked : Bool)
    (name : String) :
    r.spelled marked (r.spelled marked name) = name := by
  cases marked with
  | false => rfl
  | true => exact Equiv.swap_apply_self r.old r.new name

/-- Other names are not exchanged. -/
theorem spelled_of_ne
    {name : String}
    (isNotOld : name ≠ r.old)
    (isNotNew : name ≠ r.new)
    (marked : Bool) :
    r.spelled marked name = name := by
  cases marked with
  | false => rfl
  | true => exact Equiv.swap_apply_of_ne_of_ne isNotOld isNotNew

/-- `this` is not exchanged. -/
theorem Proper.spelled_this
    (proper : r.Proper)
    (marked : Bool) :
    r.spelled marked "this" = "this" :=
  spelled_of_ne proper.oldThis.symm proper.newThis.symm marked

/-- `super` is not exchanged. -/
theorem Proper.spelled_super
    (proper : r.Proper)
    (marked : Bool) :
    r.spelled marked "super" = "super" :=
  spelled_of_ne proper.oldSuper.symm proper.newSuper.symm marked

/-- Where nothing is marked, no node leads to a marked scope. -/
theorem leads_of_plain
    (plain : marks.Plain)
    (id : NodeId) :
    r.leads marks id = false := by
  unfold Renaming.leads
  split
  · exact plain _
  · rfl

/-- Where nothing is marked, a node has one name. -/
theorem refers_self
    (plain : marks.Plain)
    (id : NodeId)
    (name : Token) :
    r.Refers marks id name name := by
  have nowhere : r.leads marks id = false := leads_of_plain plain id
  refine ⟨rfl, by rw [nowhere, spelled_false], .inr plain, ?_⟩
  rw [nowhere]
  exact nofun

/-- Where nothing is marked, functions and classes are called the same. -/
theorem spares_of_plain
    (plain : marks.Plain)
    (name : Token) :
    r.Spares marks name := by
  unfold Spares Marks.here
  rw [plain 0, spelled_false]

end Relabelling

variable (r : Relabelling)

/-- Expressions that differ in names only. -/
inductive Expr.Twin (marks : Marks) : Expr → Expr → Prop where
  | literal {value} :
      Twin marks (.literal value) (.literal value)
  | grouping {inner inner'} :
      Twin marks inner inner' →
      Twin marks (.grouping inner) (.grouping inner')
  | unary {operator operand operand'} :
      Twin marks operand operand' →
      Twin marks (.unary operator operand) (.unary operator operand')
  | binary {left left' operator right right'} :
      Twin marks left left' → Twin marks right right' →
      Twin marks (.binary left operator right) (.binary left' operator right')
  | logical {left left' operator right right'} :
      Twin marks left left' → Twin marks right right' →
      Twin marks (.logical left operator right) (.logical left' operator right')
  | reference {id name image} :
      r.Refers marks id name image →
      Twin marks (.reference id name) (.reference id image)
  | assign {id name image value value'} :
      r.Refers marks id name image → Twin marks value value' →
      Twin marks (.assign id name value) (.assign id image value')
  | call {callee callee' paren arguments arguments'} :
      Twin marks callee callee' →
      List.Forall₂ (Twin marks) arguments arguments' →
      Twin marks (.call callee paren arguments) (.call callee' paren arguments')
  | get {object object' name} :
      Twin marks object object' →
      Twin marks (.get object name) (.get object' name)
  | set {object object' name value value'} :
      Twin marks object object' → Twin marks value value' →
      Twin marks (.set object name value) (.set object' name value')
  | thisRef {id keyword} :
      keyword.lexeme = "this" ∨ marks.Plain →
      Twin marks (.thisRef id keyword) (.thisRef id keyword)
  | superRef {id keyword method} :
      Twin marks (.superRef id keyword method) (.superRef id keyword method)

/-- Superclasses that differ in names only. -/
def SuperclassRef.Twin (marks : Marks) (superclass image : SuperclassRef) :
    Prop :=
  image.id = superclass.id ∧
    r.Refers marks superclass.id superclass.name image.name

mutual

/-- Statements that differ in names only. -/
inductive Stmt.Twin : Marks → Stmt → Stmt → Prop where
  | print {marks value value'} :
      Expr.Twin r marks value value' →
      Stmt.Twin marks (.print value) (.print value')
  | expression {marks value value'} :
      Expr.Twin r marks value value' →
      Stmt.Twin marks (.expression value) (.expression value')
  | varDecl {marks name image initializer initializer'} :
      image.lexeme = r.spelled (Marks.here marks) name.lexeme →
      Option.Rel (Expr.Twin r marks) initializer initializer' →
      Stmt.Twin marks (.varDecl name initializer) (.varDecl image initializer')
  | block {marks body body'} (marked : Bool) :
      Stmt.Twins (marked :: marks) body body' →
      Stmt.Twin marks (.block body) (.block body')
  | when {marks condition condition' thenBranch thenBranch'} :
      Expr.Twin r marks condition condition' →
      Stmt.Twin marks thenBranch thenBranch' →
      Stmt.Twin marks (.conditional condition thenBranch none)
        (.conditional condition' thenBranch' none)
  | conditional
    {marks condition condition' thenBranch thenBranch' elseBranch elseBranch'} :
      Expr.Twin r marks condition condition' →
      Stmt.Twin marks thenBranch thenBranch' →
      Stmt.Twin marks elseBranch elseBranch' →
      Stmt.Twin marks (.conditional condition thenBranch (some elseBranch))
        (.conditional condition' thenBranch' (some elseBranch'))
  | loop {marks condition condition' body body'} :
      Expr.Twin r marks condition condition' → Stmt.Twin marks body body' →
      Stmt.Twin marks (.loop condition body) (.loop condition' body')
  | funDecl {marks declaration declaration'} :
      r.Spares marks declaration.name →
      FunctionDecl.Twin marks declaration declaration' →
      Stmt.Twin marks (.funDecl declaration) (.funDecl declaration')
  | ret {marks keyword value value'} :
      Option.Rel (Expr.Twin r marks) value value' →
      Stmt.Twin marks (.ret keyword value) (.ret keyword value')
  | classDecl {marks name superclass superclass' methods methods'} :
      r.Spares marks name →
      Option.Rel (SuperclassRef.Twin r marks) superclass superclass' →
      FunctionDecl.Twins (Marks.ofClass superclass marks) methods methods' →
      Stmt.Twin marks (.classDecl name superclass methods)
        (.classDecl name superclass' methods')
  | require {marks keyword path} :
      Stmt.Twin marks (.require keyword path) (.require keyword path)

/-- Statements that differ one by one in names only. -/
inductive Stmt.Twins : Marks → List Stmt → List Stmt → Prop where
  | nil {marks} :
      Stmt.Twins marks [] []
  | cons {marks first first' rest rest'} :
      Stmt.Twin marks first first' → Stmt.Twins marks rest rest' →
      Stmt.Twins marks (first :: rest) (first' :: rest')

/-- Functions that differ in the names of variables only; they are called the
same. -/
inductive FunctionDecl.Twin : Marks → FunctionDecl → FunctionDecl → Prop where
  | intro {marks name params params' body body'} (marked : Bool) :
      params'.map Token.lexeme =
        (params.map Token.lexeme).map (r.spelled marked) →
      Stmt.Twins (marked :: marks) body body' →
      FunctionDecl.Twin marks ⟨name, params, body⟩ ⟨name, params', body'⟩

/-- Functions that differ one by one in the names of variables only. -/
inductive FunctionDecl.Twins : Marks → List FunctionDecl → List FunctionDecl →
    Prop where
  | nil {marks} :
      FunctionDecl.Twins marks [] []
  | cons {marks first first' rest rest'} :
      FunctionDecl.Twin marks first first' →
      FunctionDecl.Twins marks rest rest' →
      FunctionDecl.Twins marks (first :: rest) (first' :: rest')

end

variable {r} {marks : Marks}

/-- Twins are called the same. -/
theorem FunctionDecl.Twin.name
    {declaration image : FunctionDecl}
    (twin : FunctionDecl.Twin r marks declaration image) :
    image.name = declaration.name := by
  cases twin
  rfl

/-- Twins have equally many parameters. -/
theorem FunctionDecl.Twin.arity
    {declaration image : FunctionDecl}
    (twin : FunctionDecl.Twin r marks declaration image) :
    image.params.length = declaration.params.length := by
  cases twin with
  | intro marked names body =>
      have sameLength := congrArg List.length names
      simpa using sameLength

/-- The parameters of twins are spelled as in one scope, in which their bodies
are twins. -/
theorem FunctionDecl.Twin.parts
    {declaration image : FunctionDecl}
    (twin : FunctionDecl.Twin r marks declaration image) :
    ∃ marked,
      image.params.map Token.lexeme =
        (declaration.params.map Token.lexeme).map (r.spelled marked) ∧
      Stmt.Twins r (marked :: marks) declaration.body image.body := by
  cases twin with
  | intro marked names bodies => exact ⟨marked, names, bodies⟩

mutual

/-- Where nothing is marked, an expression is its own twin. -/
theorem Expr.twin_self
    (plain : marks.Plain) :
    (expr : Expr) → Expr.Twin r marks expr expr
  | .literal _ => .literal
  | .grouping inner => .grouping (inner.twin_self plain)
  | .unary _ operand => .unary (operand.twin_self plain)
  | .binary left _ right =>
      .binary (left.twin_self plain) (right.twin_self plain)
  | .logical left _ right =>
      .logical (left.twin_self plain) (right.twin_self plain)
  | .reference id name => .reference (Relabelling.refers_self plain id name)
  | .assign id name value =>
      .assign (Relabelling.refers_self plain id name) (value.twin_self plain)
  | .call callee _ arguments =>
      .call (callee.twin_self plain) (Expr.twins_self plain arguments)
  | .get object _ => .get (object.twin_self plain)
  | .set object _ value => .set (object.twin_self plain) (value.twin_self plain)
  | .thisRef _ _ => .thisRef (.inr plain)
  | .superRef _ _ _ => .superRef

/-- Where nothing is marked, expressions are their own twins. -/
theorem Expr.twins_self
    (plain : marks.Plain) :
    (exprs : List Expr) → List.Forall₂ (Expr.Twin r marks) exprs exprs
  | [] => .nil
  | first :: rest => .cons (first.twin_self plain) (Expr.twins_self plain rest)

end

/-- Where nothing is marked, an expression that may be absent is its own
twin. -/
theorem Expr.twinOptional_self
    (plain : marks.Plain)
    (value : Option Expr) :
    Option.Rel (Expr.Twin r marks) value value := by
  cases value with
  | none => exact .none
  | some value => exact .some (value.twin_self plain)

/-- Where nothing is marked, a superclass is its own twin. -/
theorem SuperclassRef.twinOptional_self
    (plain : marks.Plain)
    (superclass : Option SuperclassRef) :
    Option.Rel (SuperclassRef.Twin r marks) superclass superclass := by
  cases superclass with
  | none => exact .none
  | some named =>
      exact .some ⟨rfl, Relabelling.refers_self plain named.id named.name⟩

mutual

/-- Where nothing is marked, a statement is its own twin. -/
theorem Stmt.twin_self
    {marks : Marks}
    (plain : marks.Plain) :
    (statement : Stmt) → Stmt.Twin r marks statement statement
  | .print value => .print (value.twin_self plain)
  | .expression value => .expression (value.twin_self plain)
  | .varDecl _ initializer =>
      .varDecl (by rw [Marks.here, plain 0, Relabelling.spelled_false])
        (Expr.twinOptional_self plain initializer)
  | .block body => .block false (Stmt.twins_self plain.cons body)
  | .conditional condition thenBranch none =>
      .when (condition.twin_self plain) (thenBranch.twin_self plain)
  | .conditional condition thenBranch (some elseBranch) =>
      .conditional (condition.twin_self plain) (thenBranch.twin_self plain)
        (elseBranch.twin_self plain)
  | .loop condition body =>
      .loop (condition.twin_self plain) (body.twin_self plain)
  | .funDecl declaration =>
      .funDecl (Relabelling.spares_of_plain plain _)
        (declaration.twin_self plain)
  | .ret _ value => .ret (Expr.twinOptional_self plain value)
  | .classDecl _ superclass methods =>
      .classDecl (Relabelling.spares_of_plain plain _)
        (SuperclassRef.twinOptional_self plain superclass)
        (FunctionDecl.twins_self (plain.ofClass superclass) methods)
  | .require _ _ => .require

/-- Where nothing is marked, statements are their own twins. -/
theorem Stmt.twins_self
    {marks : Marks}
    (plain : marks.Plain) :
    (statements : List Stmt) → Stmt.Twins r marks statements statements
  | [] => .nil
  | first :: rest => .cons (first.twin_self plain) (Stmt.twins_self plain rest)

/-- Where nothing is marked, a function is its own twin. -/
theorem FunctionDecl.twin_self
    {marks : Marks}
    (plain : marks.Plain) :
    (declaration :
      FunctionDecl) → FunctionDecl.Twin r marks declaration declaration
  | ⟨_, params, body⟩ =>
      .intro false (by simp) (Stmt.twins_self plain.cons body)

/-- Where nothing is marked, functions are their own twins. -/
theorem FunctionDecl.twins_self
    {marks : Marks}
    (plain : marks.Plain) :
    (declarations : List FunctionDecl) →
      FunctionDecl.Twins r marks declarations declarations
  | [] => .nil
  | first :: rest =>
      .cons (first.twin_self plain) (FunctionDecl.twins_self plain rest)

end

end LoxScript
