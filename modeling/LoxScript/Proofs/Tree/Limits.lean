import LoxScript.Proofs.Tree.Shape.Derived

namespace LoxScript

/-!
# How long the lists in a tree are

A tree keeps a limit if no call in it passes more arguments and no function in
it declares more parameters.  What the grammar derives keeps the limit of the
grammar: the tree of a `for` statement is built from the trees of its parts and
has no call or function of its own.
-/

section Definitions

variable (limit : Nat)

mutual

/-- No call in the expression passes more arguments than the limit. -/
def Expr.KeepsLimit : Expr → Prop
  | .literal _ => True
  | .grouping inner => inner.KeepsLimit
  | .unary _ operand => operand.KeepsLimit
  | .binary left _ right => left.KeepsLimit ∧ right.KeepsLimit
  | .logical left _ right => left.KeepsLimit ∧ right.KeepsLimit
  | .reference _ _ => True
  | .assign _ _ value => value.KeepsLimit
  | .call callee _ arguments =>
      callee.KeepsLimit ∧ arguments.length ≤ limit ∧ Expr.AllKeepLimit arguments
  | .get object _ => object.KeepsLimit
  | .set object _ value => object.KeepsLimit ∧ value.KeepsLimit
  | .thisRef _ _ => True
  | .superRef _ _ _ => True

/-- No call in the expressions passes more arguments than the limit. -/
def Expr.AllKeepLimit : List Expr → Prop
  | [] => True
  | first :: rest => first.KeepsLimit ∧ Expr.AllKeepLimit rest

end

mutual

/-- No call in the statement passes more arguments than the limit, and no
function in it declares more parameters. -/
def Stmt.KeepsLimit : Stmt → Prop
  | .print value => value.KeepsLimit limit
  | .expression value => value.KeepsLimit limit
  | .varDecl _ initializer => ∀ value ∈ initializer, value.KeepsLimit limit
  | .block body => Stmt.AllKeepLimit body
  | .conditional condition thenBranch none =>
      condition.KeepsLimit limit ∧ thenBranch.KeepsLimit
  | .conditional condition thenBranch (some elseBranch) =>
      condition.KeepsLimit limit ∧ thenBranch.KeepsLimit ∧ elseBranch.KeepsLimit
  | .loop condition body => condition.KeepsLimit limit ∧ body.KeepsLimit
  | .funDecl declaration => declaration.KeepsLimit
  | .ret _ value => ∀ result ∈ value, result.KeepsLimit limit
  | .classDecl _ _ methods => FunctionDecl.AllKeepLimit methods
  | .require _ _ => True

/-- No call or function in the statements has a longer list than the limit. -/
def Stmt.AllKeepLimit : List Stmt → Prop
  | [] => True
  | first :: rest => first.KeepsLimit ∧ Stmt.AllKeepLimit rest

/-- The function declares no more parameters than the limit, and its body keeps
the limit. -/
def FunctionDecl.KeepsLimit : FunctionDecl → Prop
  | ⟨_, params, body⟩ => params.length ≤ limit ∧ Stmt.AllKeepLimit body

/-- No function declares more parameters than the limit, and their bodies keep
it. -/
def FunctionDecl.AllKeepLimit : List FunctionDecl → Prop
  | [] => True
  | first :: rest => first.KeepsLimit ∧ FunctionDecl.AllKeepLimit rest

end

end Definitions

open Grammar

mutual

/-- An expression that has the shape of the grammar keeps its limit. -/
theorem Expr.Shaped.keepsLimit :
    (value : Expr) → value.Shaped → value.KeepsLimit argumentLimit
  | .literal _, _ => trivial
  | .grouping inner, shaped => Expr.Shaped.keepsLimit inner shaped
  | .unary _ operand, ⟨_, _, shaped⟩ => Expr.Shaped.keepsLimit operand shaped
  | .binary left _ right, ⟨_, _, _, _, shapedLeft, _, shapedRight⟩ =>
      ⟨Expr.Shaped.keepsLimit left shapedLeft,
        Expr.Shaped.keepsLimit right shapedRight⟩
  | .logical left _ right, ⟨_, _, _, _, shapedLeft, _, shapedRight⟩ =>
      ⟨Expr.Shaped.keepsLimit left shapedLeft,
        Expr.Shaped.keepsLimit right shapedRight⟩
  | .reference _ _, _ => trivial
  | .assign _ _ value, ⟨_, shaped⟩ => Expr.Shaped.keepsLimit value shaped
  | .call callee _ arguments, ⟨_, shaped, _, few, shapedAll⟩ =>
      ⟨Expr.Shaped.keepsLimit callee shaped, few,
        Expr.ShapedAll.keepLimit arguments shapedAll⟩
  | .get object _, ⟨_, shaped, _⟩ => Expr.Shaped.keepsLimit object shaped
  | .set object _ value, ⟨_, shapedObject, _, shaped⟩ =>
      ⟨Expr.Shaped.keepsLimit object shapedObject,
        Expr.Shaped.keepsLimit value shaped⟩
  | .thisRef _ _, _ => trivial
  | .superRef _ _ _, _ => trivial

/-- Expressions that have the shape of the grammar keep its limit. -/
theorem Expr.ShapedAll.keepLimit :
    (values : List Expr) → Expr.ShapedAll values →
      Expr.AllKeepLimit argumentLimit values
  | [], _ => trivial
  | first :: rest, ⟨shaped, shapedAll⟩ =>
      ⟨Expr.Shaped.keepsLimit first shaped,
        Expr.ShapedAll.keepLimit rest shapedAll⟩

end

/-- A derived expression keeps the limit. -/
theorem Phrase.Derives.keepsLimit
    {rank : Nat}
    {value : Expr}
    {first next : NodeId}
    {tokens : List Token}
    (derives : Phrase.Derives (.expr rank value) first tokens next) :
    value.KeepsLimit argumentLimit :=
  Expr.Shaped.keepsLimit value derives.tells.1

/-- A derived expression that may be missing keeps the limit. -/
theorem DerivesOptional.keepsLimit
    {value : Option Expr}
    {first next : NodeId}
    {tokens : List Token}
    (derives : DerivesOptional value first tokens next) :
    ∀ result ∈ value, result.KeepsLimit argumentLimit :=
  fun result member =>
    Expr.Shaped.keepsLimit result (derives.tells.1 result member)

/-- A derived variable keeps the limit. -/
theorem DerivesVariable.keepsLimit
    {value : Stmt}
    {first next : NodeId}
    {tokens : List Token}
    (derives : DerivesVariable value first tokens next) :
    value.KeepsLimit argumentLimit := by
  cases derives with
  | bare => exact nofun
  | initialized _ _ derives =>
      exact fun _ isValue => Option.some.inj isValue ▸ derives.keepsLimit

/-- The derived first clause of a `for` statement keeps the limit. -/
theorem DerivesInitializer.keepsLimit
    {value : Option Stmt}
    {first next : NodeId}
    {tokens : List Token}
    (derives : DerivesInitializer value first tokens next) :
    ∀ statement ∈ value, statement.KeepsLimit argumentLimit := by
  cases derives with
  | absent => exact nofun
  | declared _ derives =>
      exact fun _ isValue => Option.some.inj isValue ▸ derives.keepsLimit
  | evaluated derives =>
      exact fun _ isValue => Option.some.inj isValue ▸ derives.keepsLimit

/-- A `for` loop keeps the limit that its parts keep. -/
theorem Stmt.keepsLimit_forLoop
    {limit : Nat}
    {initializer : Option Stmt}
    {condition increment : Option Expr}
    {body : Stmt}
    (keepsFirst : ∀ statement ∈ initializer, statement.KeepsLimit limit)
    (keepsCondition : ∀ value ∈ condition, value.KeepsLimit limit)
    (keepsIncrement : ∀ value ∈ increment, value.KeepsLimit limit)
    (keepsBody : body.KeepsLimit limit) :
    (Stmt.forLoop initializer condition increment body).KeepsLimit limit := by
  cases initializer <;> cases condition <;> cases increment <;>
    simp_all [Stmt.forLoop, Stmt.KeepsLimit, Stmt.AllKeepLimit, Expr.KeepsLimit]

/-- All trees in the clause keep the limit of the grammar. -/
def Clause.KeepsLimit : Clause → Prop
  | .statement value _ => value.KeepsLimit argumentLimit
  | .declaration value _ => value.KeepsLimit argumentLimit
  | .sequence values => Stmt.AllKeepLimit argumentLimit values
  | .function value => value.KeepsLimit argumentLimit
  | .methods values => FunctionDecl.AllKeepLimit argumentLimit values

/-- What the grammar derives keeps its limit. -/
theorem Clause.Derives.keepsLimit
    {clause : Clause}
    {first next : NodeId}
    {tokens : List Token}
    (derives : clause.Derives first tokens next) :
    clause.KeepsLimit := by
  induction derives with
  | print _ derives => exact derives.keepsLimit
  | expression derives => exact derives.keepsLimit
  | ret _ derives => exact derives.keepsLimit
  | require => trivial
  | block _ _ _ keeps => exact keeps
  | loop _ _ derives _ _ keeps => exact ⟨derives.keepsLimit, keeps⟩
  | «when» _ _ derives _ _ keeps => exact ⟨derives.keepsLimit, keeps⟩
  | conditional _ _ derives _ _ _ _ keeps keepsElse =>
      exact ⟨derives.keepsLimit, keeps, keepsElse⟩
  | forLoop _ _ derivesFirst derivesCondition _ derivesIncrement _ _ keeps =>
      exact Stmt.keepsLimit_forLoop derivesFirst.keepsLimit
        derivesCondition.keepsLimit derivesIncrement.keepsLimit keeps
  | plain _ keeps => exact keeps
  | varDecl _ derives => exact derives.keepsLimit
  | funDecl _ _ keeps => exact keeps
  | classDecl _ _ _ _ _ _ keeps => exact keeps
  | noStatements => trivial
  | andThen _ _ keeps keepsNext => exact ⟨keeps, keepsNext⟩
  | function _ _ derives _ _ _ _ keeps => exact ⟨derives.tells.2.1, keeps⟩
  | noMethods => trivial
  | method _ _ keeps keepsNext => exact ⟨keeps, keepsNext⟩

end LoxScript
