import LoxScript.Token

namespace LoxScript

/-!
# Why tokens do not form a program

A parser fails at one token, for one reason: the grammar asks for something else
there, a list is too long, or the left side of an assignment cannot be assigned
to.
-/

/-- What a function declaration declares. -/
inductive FunctionRole where
  | function
  | method
deriving Repr, DecidableEq

/-- How messages call the role of a function. -/
def FunctionRole.name : FunctionRole → String
  | .function => "function"
  | .method => "method"

/-- What the grammar asks for at a point. -/
inductive Expectation where
  | className
  | superclassName
  | classOpening
  | classClosing
  | functionName (role : FunctionRole)
  | parametersOpening (role : FunctionRole)
  | parameterName
  | parametersClosing
  | bodyOpening (role : FunctionRole)
  | variableName
  | variableEnd
  | forOpening
  | forConditionEnd
  | forClosing
  | whileOpening
  | whileClosing
  | ifOpening
  | ifClosing
  | blockClosing
  | printEnd
  | returnEnd
  | requirePath
  | requireEnd
  | expressionEnd
  | propertyName
  | argumentsClosing
  | superDot
  | superMethodName
  | groupClosing
  | expression
deriving Repr, DecidableEq

/-- The wording of an expectation. -/
def Expectation.message : Expectation → String
  | .className => "Expect class name."
  | .superclassName => "Expect superclass name."
  | .classOpening => "Expect '\x7b' before class body."
  | .classClosing => "Expect '\x7d' after class body."
  | .functionName role => "Expect " ++ role.name ++ " name."
  | .parametersOpening role => "Expect '(' after " ++ role.name ++ " name."
  | .parameterName => "Expect parameter name."
  | .parametersClosing => "Expect ')' after parameters."
  | .bodyOpening role => "Expect '\x7b' before " ++ role.name ++ " body."
  | .variableName => "Expect variable name."
  | .variableEnd => "Expect ';' after variable declaration."
  | .forOpening => "Expect '(' after 'for'."
  | .forConditionEnd => "Expect ';' after loop condition."
  | .forClosing => "Expect ')' after for clauses."
  | .whileOpening => "Expect '(' after 'while'."
  | .whileClosing => "Expect ')' after condition."
  | .ifOpening => "Expect '(' after 'if'."
  | .ifClosing => "Expect ')' after if condition."
  | .blockClosing => "Expect '\x7d' after block."
  | .printEnd => "Expect ';' after value."
  | .returnEnd => "Expect ';' after return value."
  | .requirePath => "Expect path string after 'require'."
  | .requireEnd => "Expect ';' after require path."
  | .expressionEnd => "Expect ';' after expression."
  | .propertyName => "Expect property name after '.'."
  | .argumentsClosing => "Expect ')' after arguments."
  | .superDot => "Expect '.' after 'super'."
  | .superMethodName => "Expect superclass method name."
  | .groupClosing => "Expect ')' after expression."
  | .expression => "Expect expression."

/-- Why tokens do not form a program. -/
inductive ParseFault where
  | endless
  | expected (item : Expectation)
  | invalidTarget
  | tooManyParameters
  | tooManyArguments
  /-- A parser may not go down any further.  No list of tokens is refused for
  this. -/
  | outOfDepth
deriving Repr, DecidableEq

/-- The wording of a fault. -/
def ParseFault.message : ParseFault → String
  | .endless => "Expect token stream to end with EOF."
  | .expected item => item.message
  | .invalidTarget => "Invalid assignment target."
  | .tooManyParameters => "Can't have more than 255 parameters."
  | .tooManyArguments => "Can't have more than 255 arguments."
  | .outOfDepth => "Out of depth."

/-- A fault with the token at which it was noticed. -/
structure ParseError where
  fault : ParseFault
  lexeme : String
  line : Int
deriving Repr, DecidableEq

/-- A fault at a token. -/
def ParseError.atToken (fault : ParseFault) (token : Token) : ParseError :=
  ⟨fault, token.lexeme, token.line⟩

/-- The wording of a parse error. -/
def ParseError.message (error : ParseError) : String :=
  s!"[line {error.line}] Parse Error at '{error.lexeme}': {error.fault.message}"

end LoxScript
