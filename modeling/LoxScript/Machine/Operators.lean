import LoxScript.Fault
import LoxScript.Value

namespace LoxScript

/-!
# Operators

What the operators make of values that are already there.  Equality is defined
for all values, addition for numbers and for strings, everything else for
numbers alone.
-/

namespace Operator

/-- The failure of an operator on its operands. -/
def fault (operator : Token) (reason : OperandFault) : RuntimeError :=
  .operand operator.kind operator.line reason

/-- The value of an operator on one operand. -/
def unary (operator : Token) (operand : Value) : Except RuntimeError Value :=
  match operator.kind, operand with
  | .symbol .minus, .number value => .ok (.number (-value))
  | .symbol .minus, _ => .error (fault operator .notANumber)
  | .symbol .bang, value => .ok (.boolean !value.isTruthy)
  | _, _ => .error (fault operator .unknownUnary)

/-- The sum of two numbers, or one string after the other. -/
def add (operator : Token) (left right : Value) : Except RuntimeError Value :=
  match left, right with
  | .number first, .number second => .ok (.number (first + second))
  | .string first, .string second => .ok (.string (first ++ second))
  | _, _ => .error (fault operator .notNumbersOrStrings)

/-- The value of an operator on two numbers. -/
def arithmetic (operator : Token) (left right : Float) :
    Except RuntimeError Value :=
  match operator.kind with
  | .symbol .minus => .ok (.number (left - right))
  | .symbol .slash => .ok (.number (left / right))
  | .symbol .star => .ok (.number (left * right))
  | .symbol .greater => .ok (.boolean (left > right))
  | .symbol .greaterEqual => .ok (.boolean (left ≥ right))
  | .symbol .less => .ok (.boolean (left < right))
  | .symbol .lessEqual => .ok (.boolean (left ≤ right))
  | _ => .error (fault operator .unknownBinary)

/-- The value of an operator on two operands. -/
def binary (operator : Token) (left right : Value) :
    Except RuntimeError Value :=
  match operator.kind with
  | .symbol .equalEqual => .ok (.boolean (left.same right))
  | .symbol .bangEqual => .ok (.boolean !left.same right)
  | .symbol .plus => add operator left right
  | _ =>
      match left, right with
      | .number first, .number second => arithmetic operator first second
      | _, _ => .error (fault operator .notNumbers)

/-- Whether a logical operator is settled by its left operand. -/
def isSettled (operator : Token) (left : Value) : Bool :=
  match operator.kind with
  | .keyword .orWord => left.isTruthy
  | .keyword .andWord => !left.isTruthy
  | _ => false

end Operator

end LoxScript
