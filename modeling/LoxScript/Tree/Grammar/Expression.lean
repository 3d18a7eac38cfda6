import LoxScript.Tree.Grammar.Cursor

namespace LoxScript

/-!
# The grammar of expressions

Operators between two operands come in levels, each of which joins operands of
the next tighter one from left to right.  The parsers of the parts are arguments
of the parsers of the whole; only `expression` and `unary` refer back to
themselves.  They count down a depth that starts above the number of tokens, and
so do the parsers of lists.  To run out of it is a fault of its own, which is
never met: going back takes in a token.
-/

open Parse

/-- The levels of operators between two operands, from loose to tight. -/
inductive Level where
  | disjunction
  | conjunction
  | equality
  | comparison
  | sum
  | product
deriving Repr, DecidableEq

namespace Level

/-- All levels from loose to tight. -/
def all : List Level :=
  [.disjunction, .conjunction, .equality, .comparison, .sum, .product]

/-- Whether the token kind is an operator of the level. -/
def accepts : Level → Kind → Bool
  | .disjunction, .keyword .orWord => true
  | .conjunction, .keyword .andWord => true
  | .equality, .symbol .bangEqual => true
  | .equality, .symbol .equalEqual => true
  | .comparison, .symbol .greater => true
  | .comparison, .symbol .greaterEqual => true
  | .comparison, .symbol .less => true
  | .comparison, .symbol .lessEqual => true
  | .sum, .symbol .minus => true
  | .sum, .symbol .plus => true
  | .product, .symbol .slash => true
  | .product, .symbol .star => true
  | _, _ => false

/-- The expression that an operator of the level makes of its operands. -/
def join : Level → Expr → Token → Expr → Expr
  | .disjunction, left, operator, right => .logical left operator right
  | .conjunction, left, operator, right => .logical left operator right
  | _, left, operator, right => .binary left operator right

end Level

namespace Grammar

/-- The most parameters a function may declare and the most arguments a call may
pass. -/
def argumentLimit : Nat :=
  255

/-- Joins the operands that follow with operators of one level to `left`, from
left to right. -/
def chainRest (level : Level) (operand : Parse Expr) : Nat → Expr → Parse Expr
  | 0, _ => fail .outOfDepth
  | depth + 1, left => do
      if level.accepts (← currentKind) then
        let operator ← advance
        let right ← operand
        chainRest level operand depth (level.join left operator right)
      else return left

/-- Operands joined by operators of one level. -/
def chain (level : Level) (operand : Parse Expr) (depth : Nat) :
    Parse Expr := do
  let first ← operand
  chainRest level operand depth first

/-- Operands joined by operators of every level. -/
def operators (operand : Parse Expr) (depth : Nat) : Parse Expr :=
  Level.all.foldr (fun level tighter => chain level tighter depth) operand

/-- The expression that stores a value in a target, if the target can be stored
to. -/
def assignTo (target : Expr) (equals : Token) (value : Expr) : Parse Expr := do
  match target with
  | .reference _ name => return .assign (← freshNode) name value
  | .get object name => return .set object name value
  | _ => throw (ParseError.atToken .invalidTarget equals)

/-- An assignment, or the expression that would have been its target. -/
def assignment (target value : Parse Expr) : Parse Expr := do
  let left ← target
  if ← seesSymbol .equal then
    let equals ← advance
    assignTo left equals (← value)
  else return left

/-- Arguments up to the first that no comma follows, given how many came
before. -/
def arguments (expression : Parse Expr) : Nat → Nat → Parse (List Expr)
  | 0, _ => fail .outOfDepth
  | depth + 1, count => do
      if argumentLimit ≤ count then fail .tooManyArguments
      let first ← expression
      if ← acceptSymbol .comma then
        return first :: (← arguments expression depth (count + 1))
      else return [first]

/-- The arguments of a call after its opening parenthesis, and the closing
one. -/
def finishCall (expression : Parse Expr) (depth : Nat) (callee : Expr) :
    Parse Expr := do
  let passed ←
    if ← seesSymbol .rightParen then pure [] else arguments expression depth 0
  let paren ← expectSymbol .rightParen .argumentsClosing
  return .call callee paren passed

/-- Calls and property accesses behind `object`, from left to right. -/
def postfixRest (expression : Parse Expr) : Nat → Expr → Parse Expr
  | 0, _ => fail .outOfDepth
  | depth + 1, object => do
      if ← acceptSymbol .leftParen then
        postfixRest expression depth (← finishCall expression depth object)
      else if ← acceptSymbol .dot then
        let name ← expectName .propertyName
        postfixRest expression depth (.get object name)
      else return object

/-- An expression in parentheses, after the opening one. -/
def group (expression : Parse Expr) : Parse Expr := do
  let inner ← expression
  let _ ← expectSymbol .rightParen .groupClosing
  return .grouping inner

/-- A method of the superclass, after the word `super`. -/
def superMethod (keyword : Token) : Parse Expr := do
  let _ ← expectSymbol .dot .superDot
  let method ← expectName .superMethodName
  return .superRef (← freshNode) keyword method

/-- The literal that a kind of token stands for. -/
def literal? : Kind → Option Literal
  | .keyword .falseWord => some (.boolean false)
  | .keyword .trueWord => some (.boolean true)
  | .keyword .nilWord => some .nil
  | .number value => some (.number value)
  | .string text => some (.string text)
  | _ => none

/-- An expression without operators, calls or property accesses. -/
def primary (expression : Parse Expr) : Parse Expr := do
  let kind ← currentKind
  match literal? kind with
  | some value =>
      let _ ← advance
      return .literal value
  | none =>
      match kind with
      | .identifier _ =>
          let name ← advance
          return .reference (← freshNode) name
      | .keyword .thisWord =>
          let keyword ← advance
          return .thisRef (← freshNode) keyword
      | .keyword .superWord =>
          superMethod (← advance)
      | .symbol .leftParen =>
          let _ ← advance
          group expression
      | _ => fail (.expected .expression)

mutual

/-- An expression. -/
def expression : Nat → Parse Expr
  | 0 => fail .outOfDepth
  | depth + 1 => assignment (operators (unary depth) depth) (expression depth)

/-- An operand of the tightest operators. -/
def unary : Nat → Parse Expr
  | 0 => fail .outOfDepth
  | depth + 1 => do
      match ← currentKind with
      | .symbol .bang | .symbol .minus =>
          let operator ← advance
          return .unary operator (← unary depth)
      | _ =>
          let object ← primary (expression depth)
          postfixRest (expression depth) depth object

end

end Grammar

end LoxScript
