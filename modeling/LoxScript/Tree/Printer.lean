import LoxScript.Tree
import LoxScript.Text.Quoted

namespace LoxScript

/-!
# Expressions in full parentheses

The printed form of an expression shows how its parts were grouped: every
compound expression stands in parentheses behind its operator or the name of its
form.
-/

/-- The printed form of a literal. -/
def Literal.printed : Literal → String
  | .string value => Text.quoted value
  | literal => literal.text

/-- A form in parentheses, given its head and its parts. -/
def parenthesized (head : String) (parts : List String) : String :=
  "(" ++ String.intercalate " " (head :: parts) ++ ")"

mutual

/-- The printed form of an expression. -/
def Expr.printed : Expr → String
  | .literal value => value.printed
  | .grouping inner => parenthesized "group" [inner.printed]
  | .unary operator operand => parenthesized operator.lexeme [operand.printed]
  | .binary left operator right =>
      parenthesized operator.lexeme [left.printed, right.printed]
  | .logical left operator right =>
      parenthesized operator.lexeme [left.printed, right.printed]
  | .reference _ name => name.lexeme
  | .assign _ name value => parenthesized "assign" [name.lexeme, value.printed]
  | .call callee _ arguments =>
      parenthesized "call" (callee.printed :: Expr.printedAll arguments)
  | .get object name => parenthesized "get" [object.printed, name.lexeme]
  | .set object name value =>
      parenthesized "set" [object.printed, name.lexeme, value.printed]
  | .thisRef _ _ => "this"
  | .superRef _ _ method => parenthesized "super" [method.lexeme]

/-- The printed forms of several expressions. -/
def Expr.printedAll : List Expr → List String
  | [] => []
  | first :: rest => first.printed :: Expr.printedAll rest

end

end LoxScript
