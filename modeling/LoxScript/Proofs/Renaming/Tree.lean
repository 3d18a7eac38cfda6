import LoxScript.Scope

namespace LoxScript

/-!
# Renaming local variables

A scope of a program is found by a site: the way to it, child by child.  To
rename a variable in some scopes is to rename it where these scopes declare it,
as a variable or a parameter, and at exactly those nodes whose distances lead
there.  Functions, classes and properties keep their names.
-/

/-- Which of the scopes around a piece of code are marked, innermost first. -/
abbrev Marks := List Bool

namespace Marks

/-- Whether the scope a number of scopes out is marked. -/
def marked (marks : Marks) (distance : Nat) : Bool :=
  marks.getD distance false

/-- Whether the innermost scope is marked. -/
def here (marks : Marks) : Bool :=
  marks.marked 0

/-- The scopes around the methods of a class: none of those it puts there is
marked. -/
def ofClass : Option SuperclassRef → Marks → Marks
  | some _, marks => false :: false :: marks
  | none, marks => false :: marks

end Marks

/-- A name that gives way to another in a program with a table of distances. -/
structure Renaming where
  old : String
  new : String
  /-- The distances of the program. -/
  table : Distances

namespace Renaming

variable (n : Renaming)

/-- Whether the node leads to a marked scope. -/
def leads (marks : Marks) (id : NodeId) : Bool :=
  match n.table[id]? with
  | some distance => marks.marked distance
  | none => false

/-- A token, renamed if it stands for a variable of a marked scope. -/
def token (marked : Bool) (name : Token) : Token :=
  if marked = true ∧ name.lexeme = n.old then
    ⟨.identifier n.new, n.new, name.line⟩ else name

end Renaming

variable (n : Renaming)

mutual

/-- The expression with the variables of marked scopes renamed. -/
def Expr.renamed (marks : Marks) : Expr → Expr
  | .literal value => .literal value
  | .grouping inner => .grouping (inner.renamed marks)
  | .unary operator operand => .unary operator (operand.renamed marks)
  | .binary left operator right =>
      .binary (left.renamed marks) operator (right.renamed marks)
  | .logical left operator right =>
      .logical (left.renamed marks) operator (right.renamed marks)
  | .reference id name => .reference id (n.token (n.leads marks id) name)
  | .assign id name value =>
      .assign id (n.token (n.leads marks id) name) (value.renamed marks)
  | .call callee paren arguments =>
      .call (callee.renamed marks) paren (Expr.renamedAll marks arguments)
  | .get object name => .get (object.renamed marks) name
  | .set object name value =>
      .set (object.renamed marks) name (value.renamed marks)
  | .thisRef id keyword => .thisRef id keyword
  | .superRef id keyword method => .superRef id keyword method

/-- The expressions with the variables of marked scopes renamed. -/
def Expr.renamedAll (marks : Marks) : List Expr → List Expr
  | [] => []
  | first :: rest => first.renamed marks :: Expr.renamedAll marks rest

end

/-- The superclass with the variables of marked scopes renamed. -/
def SuperclassRef.renamed (marks : Marks) (superclass : SuperclassRef) :
    SuperclassRef :=
  ⟨superclass.id, n.token (n.leads marks superclass.id) superclass.name⟩

/-- The way to a scope of a program, child by child.  The children of a block,
of a function or of a list of statements are its statements, those of a
conditional its branches, and those of a class its methods. -/
abbrev Site := List Nat

/-- The scopes that are chosen for renaming, by their sites. -/
abbrev Choice := Site → Bool

namespace Choice

/-- The scopes chosen in a child. -/
def inside (chosen : Choice) (child : Nat) : Choice :=
  fun site => chosen (child :: site)

/-- The scopes chosen after the first child. -/
def next (chosen : Choice) : Choice
  | [] => false
  | child :: site => chosen ((child + 1) :: site)

end Choice

mutual

/-- The statement with a variable renamed in the chosen scopes, given which of
the scopes around it are chosen. -/
def Stmt.renamed (chosen : Choice) (marks : Marks) : Stmt → Stmt
  | .print value => .print (value.renamed n marks)
  | .expression value => .expression (value.renamed n marks)
  | .varDecl name initializer =>
      .varDecl (n.token marks.here name)
        (initializer.map (Expr.renamed n marks))
  | .block body => .block (Stmt.renamedAll chosen (chosen [] :: marks) body)
  | .conditional condition thenBranch none =>
      .conditional (condition.renamed n marks)
        (thenBranch.renamed (chosen.inside 0) marks) none
  | .conditional condition thenBranch (some elseBranch) =>
      .conditional (condition.renamed n marks)
        (thenBranch.renamed (chosen.inside 0) marks)
        (some (elseBranch.renamed (chosen.inside 1) marks))
  | .loop condition body =>
      .loop (condition.renamed n marks) (body.renamed (chosen.inside 0) marks)
  | .funDecl declaration => .funDecl (declaration.renamed chosen marks)
  | .ret keyword value => .ret keyword (value.map (Expr.renamed n marks))
  | .classDecl name superclass methods =>
      .classDecl name (superclass.map (SuperclassRef.renamed n marks))
        (FunctionDecl.renamedAll chosen
          (Marks.ofClass superclass marks) methods)
  | .require keyword path => .require keyword path

/-- The statements with a variable renamed in the chosen scopes. -/
def Stmt.renamedAll (chosen : Choice) (marks : Marks) : List Stmt → List Stmt
  | [] => []
  | first :: rest =>
      first.renamed (chosen.inside 0) marks ::
        Stmt.renamedAll chosen.next marks rest

/-- The function with a variable renamed in the chosen scopes. -/
def FunctionDecl.renamed (chosen : Choice) (marks : Marks) : FunctionDecl →
    FunctionDecl
  | ⟨name, params, body⟩ =>
      ⟨name, params.map (n.token (chosen [])),
        Stmt.renamedAll chosen (chosen [] :: marks) body⟩

/-- The functions with a variable renamed in the chosen scopes. -/
def FunctionDecl.renamedAll (chosen : Choice) (marks : Marks) :
    List FunctionDecl → List FunctionDecl
  | [] => []
  | first :: rest =>
      first.renamed (chosen.inside 0) marks ::
        FunctionDecl.renamedAll chosen.next marks rest

end

/-- A scope as it stands in a program: the parameters and the statements that
may declare names in it. -/
structure Region where
  params : List Token
  body : List Stmt

/-- The scope has a variable or a parameter of this name. -/
def Region.Declares (region : Region) (name : String) : Prop :=
  (∃ param ∈ region.params, param.lexeme = name) ∨
    ∃ token initializer, Stmt.varDecl token initializer ∈ region.body ∧
      token.lexeme = name

mutual

/-- The scope at a site of a statement. -/
def Stmt.regionAt? : Stmt → Site → Option Region
  | .block body, [] => some ⟨[], body⟩
  | .block body, child :: site => Stmt.regionOf? body child site
  | .conditional _ thenBranch none, child :: site =>
      if child = 0 then thenBranch.regionAt? site else none
  | .conditional _ thenBranch (some elseBranch), child :: site =>
      if child = 0 then thenBranch.regionAt? site
      else if child = 1 then elseBranch.regionAt? site
      else none
  | .loop _ body, child :: site =>
      if child = 0 then body.regionAt? site else none
  | .funDecl declaration, site => declaration.regionAt? site
  | .classDecl _ _ methods, child :: site =>
      FunctionDecl.regionOf? methods child site
  | _, _ => none

/-- The scope at a site of one of several statements. -/
def Stmt.regionOf? : List Stmt → Nat → Site → Option Region
  | [], _, _ => none
  | first :: _, 0, site => first.regionAt? site
  | _ :: rest, child + 1, site => Stmt.regionOf? rest child site

/-- The scope at a site of a function. -/
def FunctionDecl.regionAt? : FunctionDecl → Site → Option Region
  | ⟨_, params, body⟩, [] => some ⟨params, body⟩
  | ⟨_, _, body⟩, child :: site => Stmt.regionOf? body child site

/-- The scope at a site of one of several functions. -/
def FunctionDecl.regionOf? : List FunctionDecl → Nat → Site → Option Region
  | [], _, _ => none
  | first :: _, 0, site => first.regionAt? site
  | _ :: rest, child + 1, site => FunctionDecl.regionOf? rest child site

end

end LoxScript
