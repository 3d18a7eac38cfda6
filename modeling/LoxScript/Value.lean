import LoxScript.NameMap
import LoxScript.Tree

namespace LoxScript

/-!
# Values

What a script computes with.  Functions, natives, classes and instances have an
identity: two of them are equal only if they are the same one.  A function keeps
the frame it was declared in, an instance's fields live in the store under the
instance's identity.
-/

/-- The place of a frame in the store. -/
abbrev FrameId := Nat

/-- The place of an instance's fields in the store. -/
abbrev InstanceId := Nat

/-- A function or method together with the frame it sees. -/
structure Function where
  identity : Nat
  declaration : FunctionDecl
  closure : FrameId
  isInitializer : Bool

/-- A function of the host, by its place among the host's natives. -/
structure Native where
  slot : Nat
  name : String
  arity : Nat
deriving Repr, DecidableEq

/-- A class with its own methods and its superclass. -/
structure Class where
  identity : Nat
  name : String
  superclass : Option Class
  methods : NameMap Function

/-- An instance of a class. -/
structure Instance where
  identity : InstanceId
  blueprint : Class

/-- The values of the language. -/
inductive Value where
  | nil
  | boolean (value : Bool)
  | number (value : Float)
  | string (value : String)
  | function (function : Function)
  | native (native : Native)
  | blueprint (blueprint : Class)
  | object (object : Instance)

/-- What can be called. -/
inductive Callee where
  | function (function : Function)
  | native (native : Native)
  | blueprint (blueprint : Class)

namespace Function

/-- The name a function was declared with. -/
def name (function : Function) : String :=
  function.declaration.name.lexeme

/-- How many arguments a function takes. -/
def arity (function : Function) : Nat :=
  function.declaration.params.length

/-- The text of a function. -/
def text (function : Function) : String :=
  "<fn " ++ function.name ++ ">"

end Function

namespace Native

/-- The text of a native. -/
def text (_ : Native) : String :=
  "<native fn>"

/-- The text of a native with its name and arity. -/
def detail (native : Native) : String :=
  s!"<native fn {native.name}/{native.arity}>"

end Native

namespace Class

/-- The method of the nearest class in the chain of superclasses that has
one. -/
def findMethod? (name : String) : Class → Option Function
  | ⟨_, _, none, methods⟩ => methods.find? name
  | ⟨_, _, some superclass, methods⟩ =>
      match methods.find? name with
      | some method => some method
      | none => superclass.findMethod? name

/-- The method that makes new instances ready. -/
def initializer? (blueprint : Class) : Option Function :=
  blueprint.findMethod? initializerName

/-- How many arguments the construction of an instance takes. -/
def arity (blueprint : Class) : Nat :=
  match blueprint.initializer? with
  | some initializer => initializer.arity
  | none => 0

end Class

namespace Callee

/-- How many arguments a call takes. -/
def arity : Callee → Nat
  | .function called => called.arity
  | .native called => called.arity
  | .blueprint called => called.arity

end Callee

namespace Value

/-- The value of a literal. -/
def ofLiteral : Literal → Value
  | .nil => .nil
  | .boolean value => .boolean value
  | .number value => .number value
  | .string value => .string value

/-- Only `nil` and `false` do not hold. -/
def isTruthy : Value → Bool
  | .nil => false
  | .boolean value => value
  | _ => true

/-- The name of a value's type. -/
def typeName : Value → String
  | .nil => "nil"
  | .boolean _ => "boolean"
  | .number _ => "number"
  | .string _ => "string"
  | .function _ => "function"
  | .native _ => "function"
  | .blueprint _ => "class"
  | .object _ => "instance"

/-- The text that `print` shows. -/
def text : Value → String
  | .nil => "nil"
  | .boolean value => if value then "true" else "false"
  | .number value => Decimal.write value
  | .string value => value
  | .function value => value.text
  | .native value => value.text
  | .blueprint value => value.name
  | .object value => value.blueprint.name ++ " instance"

/-- Equality as scripts see it. -/
def same : Value → Value → Bool
  | .nil, .nil => true
  | .boolean left, .boolean right => left == right
  | .number left, .number right => left == right
  | .string left, .string right => left == right
  | .function left, .function right => left.identity == right.identity
  | .native left, .native right => left.slot == right.slot
  | .blueprint left, .blueprint right => left.identity == right.identity
  | .object left, .object right => left.identity == right.identity
  | _, _ => false

/-- The value as something to call. -/
def callee? : Value → Option Callee
  | .function value => some (.function value)
  | .native value => some (.native value)
  | .blueprint value => some (.blueprint value)
  | _ => none

end Value

end LoxScript
