import LoxScript.Token
import LoxScript.Decimal.Written

namespace LoxScript

/-!
# Syntax trees

Expressions and statements as the evaluator walks them.  Trees keep the tokens
whose text or line a later stage reports, and every node that refers to a
variable carries an identity of its own, under which its scope distance is
filed.
-/

/-- The identity of a node that refers to a variable. -/
abbrev NodeId := Nat

/-- A value written out in the source. -/
inductive Literal where
  | nil
  | boolean (value : Bool)
  | number (value : Float)
  | string (value : String)
deriving Repr, BEq

/-- The text of a literal's value. -/
def Literal.text : Literal → String
  | .nil => "nil"
  | .boolean value => if value then "true" else "false"
  | .number value => Decimal.write value
  | .string value => value

/-- Expressions. -/
inductive Expr where
  | literal (value : Literal)
  | grouping (inner : Expr)
  | unary (operator : Token) (operand : Expr)
  | binary (left : Expr) (operator : Token) (right : Expr)
  | logical (left : Expr) (operator : Token) (right : Expr)
  | reference (id : NodeId) (name : Token)
  | assign (id : NodeId) (name : Token) (value : Expr)
  | call (callee : Expr) (paren : Token) (arguments : List Expr)
  | get (object : Expr) (name : Token)
  | set (object : Expr) (name : Token) (value : Expr)
  | thisRef (id : NodeId) (keyword : Token)
  | superRef (id : NodeId) (keyword : Token) (method : Token)
deriving Repr

/-- The superclass that a class declaration names. -/
structure SuperclassRef where
  id : NodeId
  name : Token
deriving Repr

/-- The reference that evaluates to the named superclass. -/
def SuperclassRef.expr (superclass : SuperclassRef) : Expr :=
  .reference superclass.id superclass.name

mutual

/-- Statements. -/
inductive Stmt where
  | print (value : Expr)
  | expression (value : Expr)
  | varDecl (name : Token) (initializer : Option Expr)
  | block (body : List Stmt)
  | conditional (condition : Expr) (thenBranch : Stmt)
    (elseBranch : Option Stmt)
  | loop (condition : Expr) (body : Stmt)
  | funDecl (declaration : FunctionDecl)
  | ret (keyword : Token) (value : Option Expr)
  | classDecl (name : Token) (superclass : Option SuperclassRef)
    (methods : List FunctionDecl)
  | require (keyword : Token) (path : String)

/-- A function or method as declared. -/
structure FunctionDecl where
  name : Token
  params : List Token
  body : List Stmt

end

/-- The name under which a method makes new instances ready. -/
def initializerName : String :=
  "init"

/-- Whether the declaration, as a method, makes new instances ready. -/
def FunctionDecl.isInitializer (declaration : FunctionDecl) : Bool :=
  declaration.name.lexeme == initializerName

/-- A `for` loop in terms of the other statements: the increment follows the
body, a missing condition is true, and the initializer gets a scope of its own
around the loop. -/
def Stmt.forLoop
    (initializer : Option Stmt)
    (condition : Option Expr)
    (increment : Option Expr)
    (body : Stmt) : Stmt :=
  let repeated := match increment with
    | some step => .block [body, .expression step]
    | none => body
  let loop := Stmt.loop (condition.getD (.literal (.boolean true))) repeated
  match initializer with
  | some first => .block [first, loop]
  | none => loop

end LoxScript
