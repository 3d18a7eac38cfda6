import LoxScript.Program
import LoxScript.Library
import LoxScript.Sink

namespace LoxScript

/-!
# How a run can fail

A run fails for one reason: its source is rejected, it cannot be read, a
statement fails, or the run is asked to stop.  The wording of every reason is
here.
-/

/-- What is wrong with the operands of an operator. -/
inductive OperandFault where
  | notANumber
  | notNumbers
  | notNumbersOrStrings
  | unknownUnary
  | unknownBinary
deriving Repr, DecidableEq

/-- The wording of an operand fault. -/
def OperandFault.message : OperandFault → String
  | .notANumber => "Operand must be a number."
  | .notNumbers => "Operands must be numbers."
  | .notNumbersOrStrings => "Operands must be two numbers or two strings."
  | .unknownUnary => "Unknown unary operator."
  | .unknownBinary => "Unknown binary operator."

/-- Why a required source does not run at all. -/
inductive RequireCause where
  | rejected (error : StaticError)
  | unreadable (failure : ReadFailure)
deriving Repr, DecidableEq

/-- How a statement can fail. -/
inductive RuntimeError where
  | operand (operator : Kind) (line : Int) (fault : OperandFault)
  | undefinedVariable (name : String) (line : Int)
  | undefinedProperty (name : String) (line : Int)
  | notAnInstance (name : String) (found : String) (line : Int)
  | arity (expected : Nat) (got : Nat) (line : Int)
  | notCallable (found : String) (line : Int)
  | superclassNotClass (line : Int)
  | native (name : String) (reason : String)
  | require (path : String) (line : Int) (cause : RequireCause)
  | cyclicRequire (path : String) (line : Int)
  | unresolvedLocal (name : String) (distance : Nat) (line : Int)
  | output (fault : SinkFault)
deriving Repr

/-- How a run can fail. -/
inductive RunError where
  | rejected (error : StaticError)
  | runtime (error : RuntimeError)
  | unreadable (path : String) (failure : ReadFailure)
  | cancelled
deriving Repr

/-- The wording of an unreadable path. -/
def unreadableMessage (path : String) (failure : ReadFailure) : String :=
  "reading " ++ path ++ ": " ++ failure.message

/-- The wording of a cause, given the path that was required. -/
def RequireCause.message (path : String) : RequireCause → String
  | .rejected error => error.message
  | .unreadable failure => unreadableMessage path failure

/-- The line of a fault, as messages show it. -/
def atLine (line : Int) (text : String) : String :=
  s!"[line {line}] " ++ text

/-- The wording of a runtime error. -/
def RuntimeError.message : RuntimeError → String
  | .operand operator line fault =>
      s!"operation \"{operator.name}\" at line {line}: {fault.message}"
  | .undefinedVariable name line =>
      atLine line ("Undefined variable '" ++ name ++ "'.")
  | .undefinedProperty name line =>
      atLine line ("Undefined property '" ++ name ++ "'.")
  | .notAnInstance name found line =>
      atLine line ("Only instances have properties, tried '" ++ name ++
        "' on " ++ found ++ ".")
  | .arity expected got line =>
      atLine line s!"Expected {expected} arguments but got {got}."
  | .notCallable found line =>
      atLine line ("Can only call functions and classes, not " ++ found ++ ".")
  | .superclassNotClass line => atLine line "Superclass must be a class."
  | .native name reason => "native function '" ++ name ++ "': " ++ reason
  | .require path line cause =>
      atLine line ("require \"" ++ path ++ "\": " ++ cause.message path)
  | .cyclicRequire path line =>
      atLine line ("require \"" ++ path ++ "\": cyclic require")
  | .unresolvedLocal name distance line =>
      atLine line ("Internal error: '" ++ name ++
        s!"' missing at scope distance {distance}.")
  | .output fault => "writing output: " ++ fault.message

/-- The wording of a failed run. -/
def RunError.message : RunError → String
  | .rejected error => error.message
  | .runtime error => error.message
  | .unreadable path failure => unreadableMessage path failure
  | .cancelled => "run cancelled"

/-- Whether the run failed before any statement ran, because of its source. -/
def RunError.isStatic : RunError → Bool
  | .rejected _ => true
  | _ => false

end LoxScript
