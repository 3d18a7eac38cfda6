import LoxScript.Machine

namespace LoxScript

/-!
# Steps of a machine

The small steps that the evaluator is made of: reading and writing variables,
properties and fields, making functions and classes, calling natives and loading
required sources.  However the inner step ends, a step that enters a frame comes
back to the one it was in, and a step that starts a required source takes one
off the stack.
-/

namespace Run

/-- Fails. -/
@[inline] def fail (error : RuntimeError) : Run α :=
  throw (.failed error)

/-- Runs a step in a frame and comes back to the present one however it ends. -/
@[inline] def inFrame (frame : FrameId) (step : Run α) : Run α := fun machine =>
  let present := machine.active
  match step { machine with active := frame } with
  | .ok value after => .ok value { after with active := present }
  | .error halt after => .error halt { after with active := present }

/-- Runs a step as part of a required source: its path goes on the stack before
the step, and however the step ends, what is then on top of the stack is taken
off. -/
@[inline] def whileRequiring (path : String) (step : Run α) : Run α :=
  fun machine =>
    match step { machine with requiring := path :: machine.requiring } with
    | .ok value after =>
        .ok value { after with requiring := after.requiring.tail }
    | .error halt after =>
        .error halt { after with requiring := after.requiring.tail }

/-- Adds a frame and gives its place. -/
def allocate (frame : Frame) : Run FrameId :=
  modifyGet fun machine =>
    (machine.store.nextFrame,
      { machine with store := machine.store.allocate frame })

/-- An identity that nothing else has. -/
def freshIdentity : Run Nat :=
  modifyGet fun machine =>
    (machine.store.nextIdentity,
      { machine with store := machine.store.skipIdentity })

/-- A new instance of a class, without fields. -/
def allocateInstance (blueprint : Class) : Run Instance :=
  modifyGet fun machine =>
    (⟨machine.store.nextInstance, blueprint⟩,
      { machine with store := machine.store.allocateInstance })

/-- Gives a name a value in the active frame, new or not. -/
def define (name : String) (value : Value) : Run Unit :=
  modify fun machine =>
    { machine with store := machine.store.define machine.active name value }

/-- Gives a field of an instance a value, new or not. -/
def setField (object : Instance) (name : String) (value : Value) : Run Unit :=
  modify fun machine =>
    { machine with store := machine.store.setField object.identity name value }

/-- Writes a text to the output, as far as it is accepted. -/
def write (text : String) : Run Unit := do
  let bytes := text.toUTF8
  let fault := (← get).output.writeFault? bytes.size
  modify fun machine => { machine with output := machine.output.append bytes }
  match fault with
  | some fault => fail (.output fault)
  | none => return

/-- The value of a variable: at its distance if it has one, else a global. -/
def readVariable (id : NodeId) (name : Token) : Run Value := do
  let machine ← get
  match machine.distances[id]? with
  | some distance =>
      match machine.store.lookupAt? machine.active distance name.lexeme with
      | some value => return value
      | none => fail (.unresolvedLocal name.lexeme distance name.line)
  | none =>
      match machine.store.lookup? globalFrame name.lexeme with
      | some value => return value
      | none => fail (.undefinedVariable name.lexeme name.line)

/-- The frame that holds a variable which is to be assigned to. -/
def frameOf (id : NodeId) (name : Token) : Run FrameId := do
  let machine ← get
  match machine.distances[id]? with
  | some distance =>
      match machine.store.holderAt? machine.active distance name.lexeme with
      | some frame => return frame
      | none => fail (.unresolvedLocal name.lexeme distance name.line)
  | none =>
      if machine.store.holds globalFrame name.lexeme then return globalFrame
      else fail (.undefinedVariable name.lexeme name.line)

/-- Overwrites a variable. -/
def assignVariable (id : NodeId) (name : Token) (value : Value) : Run Unit := do
  let frame ← frameOf id name
  modify fun machine =>
    { machine with store := machine.store.define frame name.lexeme value }

/-- A function with the frame that its body sees, and with an identity of its
own. -/
def closeOver (declaration : FunctionDecl) (closure : FrameId)
    (isInitializer : Bool) : Run Function := do
  return ⟨← freshIdentity, declaration, closure, isInitializer⟩

/-- A method as a function of an instance: `this` is the instance in a frame of
its own. -/
def bind (method : Function) (object : Instance) : Run Function := do
  let frame ← allocate ⟨NameMap.empty.insert "this" (.object object),
    some method.closure⟩
  closeOver method.declaration frame method.isInitializer

/-- A property of an instance: a field, or else a method bound to the
instance. -/
def getProperty (object : Instance) (name : Token) : Run Value := do
  match (← get).store.field? object.identity name.lexeme with
  | some value => return value
  | none =>
      match object.blueprint.findMethod? name.lexeme with
      | some method => return .function (← bind method object)
      | none => fail (.undefinedProperty name.lexeme name.line)

/-- The superclass and the instance that `super` means at this point. -/
def superParts (id : NodeId) (keyword : Token) : Run (Class × Instance) := do
  let machine ← get
  let missing (name : String) (distance : Nat) : Run (Class × Instance) :=
    fail (.unresolvedLocal name distance keyword.line)
  match machine.distances[id]? with
  | none => missing "super" 0
  | some distance =>
      match machine.store.lookupAt? machine.active distance "super" with
      | some (.blueprint superclass) =>
          match distance with
          | 0 => missing "this" 0
          | inner + 1 =>
              match machine.store.lookupAt? machine.active inner "this" with
              | some (.object object) => return (superclass, object)
              | _ => missing "this" inner
      | _ => missing "super" distance

/-- A method of the superclass, bound to the instance at hand. -/
def readSuper (id : NodeId) (keyword method : Token) : Run Value := do
  let (superclass, object) ← superParts id keyword
  match superclass.findMethod? method.lexeme with
  | some found => return .function (← bind found object)
  | none => fail (.undefinedProperty method.lexeme method.line)

/-- Calls a native of the host. -/
def callNative (context : Context) (native : Native) (arguments : List Value) :
    Run Value := do
  let outcome ← modifyGet fun machine =>
    let (result, world) :=
      performNative context.natives native.slot arguments machine.world
    (result, { machine with world := world })
  match outcome with
  | .ok value => return value
  | .error reason => fail (.native native.name reason)

/-- The frame of a call: parameters with their arguments, above the function's
own frame. -/
def callFrame (function : Function) (arguments : List Value) : Frame :=
  let entries := (function.declaration.params.map Token.lexeme).zip arguments
  ⟨NameMap.ofList entries, some function.closure⟩

/-- What an initializer yields: the instance it was bound to. -/
def boundInstance (function : Function) : Run Value := do
  match (← get).store.lookup? function.closure "this" with
  | some value => return value
  | none => fail (.unresolvedLocal "this" 0 function.declaration.name.line)

/-- The value of a call whose body ended in this way. -/
def callResult (function : Function) (flow : Flow) : Run Value :=
  if function.isInitializer then boundInstance function
  else
    match flow with
    | .returned value => return value
    | .normal => return .nil

/-- The class that a declaration names as its superclass. -/
def readSuperclass (name : Token) (superclass : SuperclassRef) : Run Class := do
  match ← readVariable superclass.id superclass.name with
  | .blueprint found => return found
  | _ => fail (.superclassNotClass name.line)

/-- The methods of a class; of two with one name the later counts. -/
def closeOverMethods (closure : FrameId) :
    NameMap Function → List FunctionDecl → Run (NameMap Function)
  | table, [] => return table
  | table, declaration :: rest => do
      let method ← closeOver declaration closure declaration.isInitializer
      closeOverMethods closure
        (table.insert declaration.name.lexeme method) rest

/-- The frame that the methods of a class see: with a superclass, one more with
`super`. -/
def methodFrame (superclass : Option Class) : Run FrameId := do
  let active := (← get).active
  match superclass with
  | some found =>
      allocate ⟨NameMap.empty.insert "super" (.blueprint found), some active⟩
  | none => return active

/-- Declares a class in the active frame. -/
def declareClass
    (name : Token)
    (superclass : Option SuperclassRef)
    (methods : List FunctionDecl) : Run Unit := do
  let parent ← match superclass with
    | some named => some <$> readSuperclass name named
    | none => pure none
  define name.lexeme .nil
  let closure ← methodFrame parent
  let table ← closeOverMethods closure NameMap.empty methods
  define name.lexeme (.blueprint ⟨← freshIdentity, name.lexeme, parent, table⟩)

/-- Declares a function in the active frame. -/
def declareFunction (declaration : FunctionDecl) : Run Unit := do
  let function ← closeOver declaration (← get).active false
  define declaration.name.lexeme (.function function)

/-- Fails unless a call passes as many arguments as it has to. -/
def checkArity (callee : Callee) (arguments : List Value) (paren : Token) :
    Run Unit :=
  if callee.arity = arguments.length then return
  else fail (.arity callee.arity arguments.length paren.line)

/-- The program of a required source, ready to run. -/
def loadRequired (context : Context) (keyword : Token) (path : String) :
    Run Program := do
  let failWith (cause : RequireCause) : Run Program :=
    fail (.require path keyword.line cause)
  if (← get).requiring.contains path then
    fail (.cyclicRequire path keyword.line)
  match context.library path with
  | .error failure => failWith (.unreadable failure)
  | .ok source =>
      match ← modifyGet fun machine => machine.compile source with
      | .error error => failWith (.rejected error)
      | .ok program =>
          modify fun machine => machine.learn program.distances
          return program

end Run

end LoxScript
