import Std.Data.TreeMap
import LoxScript.NameMap
import LoxScript.Tree

namespace LoxScript

/-!
# Scopes

A scope declares names.  The distance from a piece of code to a name is the
number of scopes between the code and the nearest scope around it that declares
the name.
-/

/-- Scope distances of references, by node.  Nodes without one refer to
globals. -/
abbrev Distances := Std.TreeMap NodeId Nat

/-- How a program can misuse its scopes. -/
inductive ScopeFault where
  | readInOwnInitializer
  | alreadyDeclared
  | topLevelReturn
  | thisOutsideClass
  | superOutsideClass
  | superWithoutSuperclass
  | selfInheritance
deriving Repr, DecidableEq

/-- The wording of a fault. -/
def ScopeFault.message : ScopeFault → String
  | .readInOwnInitializer =>
      "Cannot read local variable in its own initializer."
  | .alreadyDeclared =>
      "Variable with this name already declared in this scope."
  | .topLevelReturn => "Cannot return from top-level code."
  | .thisOutsideClass => "Cannot use 'this' outside of a class."
  | .superOutsideClass => "Cannot use 'super' outside of a class."
  | .superWithoutSuperclass =>
      "Cannot use 'super' in a class with no superclass."
  | .selfInheritance => "A class cannot inherit from itself."

/-- A fault with the token that shows it. -/
structure ScopeError where
  fault : ScopeFault
  lexeme : String
  line : Int
deriving Repr, DecidableEq

/-- The wording of a scope error. -/
def ScopeError.message (error : ScopeError) : String :=
  s!"[line {error.line}] Error at '{error.lexeme}': {error.fault.message}"

/-- The names that a scope declares, and whether each is ready to be read. -/
abbrev Scope := NameMap Bool

namespace Scope

/-- The scope that a subclass puts around its methods. -/
def ofSuper : Scope :=
  NameMap.empty.insert "super" true

/-- The scope that a class puts around its methods. -/
def ofThis : Scope :=
  NameMap.empty.insert "this" true

/-- The distance to the nearest scope that declares the name. -/
def distance? (name : String) : List Scope → Option Nat
  | [] => none
  | scope :: outer =>
      if scope.contains name then some 0 else (distance? name outer).map (· + 1)

end Scope

end LoxScript
