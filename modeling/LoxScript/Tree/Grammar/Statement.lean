import LoxScript.Tree.Grammar.Expression

namespace LoxScript.Grammar

/-!
# The grammar of statements

Every form of statement has a parser over the parsers of its parts.  A
declaration may stand wherever statements follow one another; the branches of an
`if` and the body of a loop take statements that declare nothing.
-/

open Parse

/-- Statements up to the first token at which `stop` holds or the input ends. -/
def statementsUntil (stop : Kind → Bool) (declaration : Parse Stmt) :
    Nat → Parse (List Stmt)
  | 0 => fail .outOfDepth
  | depth + 1 => do
      let kind ← currentKind
      if stop kind || kind matches .endOfInput then return []
      else
        let first ← declaration
        return first :: (← statementsUntil stop declaration depth)

/-- Whether the token closes a block. -/
def closesBlock : Kind → Bool
  | .symbol .rightBrace => true
  | _ => false

/-- The statements of a block after its opening brace, and the closing one. -/
def blockBody (declaration : Parse Stmt) (depth : Nat) : Parse (List Stmt) := do
  let body ← statementsUntil closesBlock declaration depth
  let _ ← expectSymbol .rightBrace .blockClosing
  return body

/-- Parameters up to the first that no comma follows, given how many came
before. -/
def parameters : Nat → Nat → Parse (List Token)
  | 0, _ => fail .outOfDepth
  | depth + 1, count => do
      if argumentLimit ≤ count then fail .tooManyParameters
      let first ← expectName .parameterName
      if ← acceptSymbol .comma then
        return first :: (← parameters depth (count + 1))
      else return [first]

/-- A function or method from its name on. -/
def function
    (declaration : Parse Stmt)
    (depth : Nat)
    (role : FunctionRole) : Parse FunctionDecl := do
  let name ← expectName (.functionName role)
  let _ ← expectSymbol .leftParen (.parametersOpening role)
  let params ← if ← seesSymbol .rightParen then pure [] else parameters depth 0
  let _ ← expectSymbol .rightParen .parametersClosing
  let _ ← expectSymbol .leftBrace (.bodyOpening role)
  let body ← blockBody declaration depth
  return ⟨name, params, body⟩

/-- Methods up to the closing brace of a class or the end of the input. -/
def methods (method : Parse FunctionDecl) : Nat → Parse (List FunctionDecl)
  | 0 => fail .outOfDepth
  | depth + 1 => do
      let kind ← currentKind
      if closesBlock kind || kind matches .endOfInput then return []
      else
        let first ← method
        return first :: (← methods method depth)

/-- A class after the word `class`. -/
def classDeclaration (declaration : Parse Stmt) (depth : Nat) : Parse Stmt := do
  let name ← expectName .className
  let superclass ←
    if ← acceptSymbol .less then
      let superclassName ← expectName .superclassName
      pure (some ⟨← freshNode, superclassName⟩)
    else pure none
  let _ ← expectSymbol .leftBrace .classOpening
  let declared ← methods (function declaration depth .method) depth
  let _ ← expectSymbol .rightBrace .classClosing
  return .classDecl name superclass declared

/-- A variable after the word `var`. -/
def variableDeclaration (expression : Parse Expr) : Parse Stmt := do
  let name ← expectName .variableName
  let initializer ←
    if ← acceptSymbol .equal then some <$> expression else pure none
  let _ ← expectSymbol .semicolon .variableEnd
  return .varDecl name initializer

/-- An expression that stands as a statement. -/
def expressionStatement (expression : Parse Expr) : Parse Stmt := do
  let value ← expression
  let _ ← expectSymbol .semicolon .expressionEnd
  return .expression value

/-- A `print` statement after its keyword. -/
def printStatement (expression : Parse Expr) : Parse Stmt := do
  let value ← expression
  let _ ← expectSymbol .semicolon .printEnd
  return .print value

/-- A `return` statement after its keyword. -/
def returnStatement (expression : Parse Expr) (keyword : Token) :
    Parse Stmt := do
  let value ← if ← seesSymbol .semicolon then pure none else some <$> expression
  let _ ← expectSymbol .semicolon .returnEnd
  return .ret keyword value

/-- A `require` statement after its keyword. -/
def requireStatement (keyword : Token) : Parse Stmt := do
  match ← currentKind with
  | .string path =>
      let _ ← advance
      let _ ← expectSymbol .semicolon .requireEnd
      return .require keyword path
  | _ => fail (.expected .requirePath)

/-- A `while` statement after its keyword. -/
def whileStatement (expression : Parse Expr) (statement : Parse Stmt) :
    Parse Stmt := do
  let _ ← expectSymbol .leftParen .whileOpening
  let condition ← expression
  let _ ← expectSymbol .rightParen .whileClosing
  return .loop condition (← statement)

/-- An `if` statement after its keyword; an `else` belongs to the nearest open
`if`. -/
def ifStatement (expression : Parse Expr) (statement : Parse Stmt) :
    Parse Stmt := do
  let _ ← expectSymbol .leftParen .ifOpening
  let condition ← expression
  let _ ← expectSymbol .rightParen .ifClosing
  let thenBranch ← statement
  let elseBranch ←
    if ← acceptKeyword .elseWord then some <$> statement else pure none
  return .conditional condition thenBranch elseBranch

/-- The first clause of a `for` statement with its semicolon. -/
def forInitializer (expression : Parse Expr) : Parse (Option Stmt) := do
  if ← acceptSymbol .semicolon then return none
  else if ← acceptKeyword .varWord then
    return some (← variableDeclaration expression)
  else return some (← expressionStatement expression)

/-- A `for` statement after its keyword. -/
def forStatement (expression : Parse Expr) (statement : Parse Stmt) :
    Parse Stmt := do
  let _ ← expectSymbol .leftParen .forOpening
  let initializer ← forInitializer expression
  let condition ←
    if ← seesSymbol .semicolon then pure none else some <$> expression
  let _ ← expectSymbol .semicolon .forConditionEnd
  let increment ←
    if ← seesSymbol .rightParen then pure none else some <$> expression
  let _ ← expectSymbol .rightParen .forClosing
  return Stmt.forLoop initializer condition increment (← statement)

mutual

/-- A statement that declares nothing in the scope it stands in. -/
def statement : Nat → Parse Stmt
  | 0 => fail .outOfDepth
  | depth + 1 => do
      match ← currentKind with
      | .keyword .ifWord =>
          let _ ← advance
          ifStatement (expression depth) (statement depth)
      | .keyword .printWord =>
          let _ ← advance
          printStatement (expression depth)
      | .keyword .returnWord =>
          returnStatement (expression depth) (← advance)
      | .keyword .requireWord =>
          requireStatement (← advance)
      | .symbol .leftBrace =>
          let _ ← advance
          return .block (← blockBody (declaration depth) depth)
      | .keyword .whileWord =>
          let _ ← advance
          whileStatement (expression depth) (statement depth)
      | .keyword .forWord =>
          let _ ← advance
          forStatement (expression depth) (statement depth)
      | _ => expressionStatement (expression depth)

/-- A declaration or a statement. -/
def declaration : Nat → Parse Stmt
  | 0 => fail .outOfDepth
  | depth + 1 => do
      match ← currentKind with
      | .keyword .varWord =>
          let _ ← advance
          variableDeclaration (expression depth)
      | .keyword .funWord =>
          let _ ← advance
          return .funDecl (← function (declaration depth) depth .function)
      | .keyword .classWord =>
          let _ ← advance
          classDeclaration (declaration depth) depth
      | _ => statement depth

end

end LoxScript.Grammar
