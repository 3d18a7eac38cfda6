import LoxScript.Proofs.Machine.Declaration
import LoxScript.Proofs.Machine.Tasks

namespace LoxScript

/-!
# What running changes

All that the evaluator does to a machine is made of a few elementary changes,
which `Machine.Change` lists, and of entering a frame or a required source and
leaving it again.  A relation between machines that respects all of these holds
between the machines before and after every task, whatever the outcome.  Most
small steps neither declare a name nor set a field; they ask for less.
-/

open Run

/-- The elementary changes of a machine. -/
inductive Machine.Change : Machine → Machine → Prop where
  | allocate (machine : Machine) (added : Frame) :
      Change machine { machine with store := machine.store.allocate added }
  | define (machine : Machine) (name : String) (value : Value) :
      Change machine
        { machine with store := machine.store.define machine.active name value }
  | assign (machine : Machine) (frame : FrameId) (name : String)
    (value : Value) :
      machine.store.holds frame name = true →
      Change machine
        { machine with store := machine.store.define frame name value }
  | allocateInstance (machine : Machine) :
      Change machine { machine with store := machine.store.allocateInstance }
  | setField (machine : Machine) (object : InstanceId) (name : String)
    (value : Value) :
      Change machine
        { machine with store := machine.store.setField object name value }
  | skipIdentity (machine : Machine) :
      Change machine { machine with store := machine.store.skipIdentity }
  | append (machine : Machine) (bytes : ByteArray) :
      Change machine { machine with output := machine.output.append bytes }
  | perform (machine : Machine) (world : World) :
      Change machine { machine with world := world }
  | compile (machine : Machine) (source : ByteArray) :
      Change machine (machine.compile source).2
  | load (machine : Machine) {source : ByteArray} {program : Program}
    {next : NodeId} :
      Program.compile source machine.nextNode = (.ok program, next) →
      Change machine (machine.load program next)

/-- The elementary changes that neither declare a name nor set a field. -/
inductive Machine.QuietChange : Machine → Machine → Prop where
  | allocate (machine : Machine) (added : Frame) :
      QuietChange machine { machine with store := machine.store.allocate added }
  | assign (machine : Machine) (frame : FrameId) (name : String)
    (value : Value) :
      machine.store.holds frame name = true →
      QuietChange machine
        { machine with store := machine.store.define frame name value }
  | allocateInstance (machine : Machine) :
      QuietChange machine
        { machine with store := machine.store.allocateInstance }
  | skipIdentity (machine : Machine) :
      QuietChange machine { machine with store := machine.store.skipIdentity }
  | append (machine : Machine) (bytes : ByteArray) :
      QuietChange machine { machine with output := machine.output.append bytes }
  | perform (machine : Machine) (world : World) :
      QuietChange machine { machine with world := world }
  | compile (machine : Machine) (source : ByteArray) :
      QuietChange machine (machine.compile source).2
  | load (machine : Machine) {source : ByteArray} {program : Program}
    {next : NodeId} :
      Program.compile source machine.nextNode = (.ok program, next) →
      QuietChange machine (machine.load program next)

/-- Quiet changes are elementary changes. -/
theorem Machine.QuietChange.change
    {before after : Machine}
    (changes : before.QuietChange after) :
    before.Change after := by
  cases changes with
  | allocate added => exact .allocate before added
  | assign frame name value held => exact .assign before frame name value held
  | allocateInstance => exact .allocateInstance before
  | skipIdentity => exact .skipIdentity before
  | append bytes => exact .append before bytes
  | perform world => exact .perform before world
  | compile source => exact .compile before source
  | load accepted => exact .load before accepted

/-- The relation holds across quiet changes and sequences of them. -/
structure Machine.Quiet (related : Machine → Machine → Prop) : Prop where
  refl : ∀ machine, related machine machine
  trans : ∀ {before middle after}, related before middle →
    related middle after →
    related before after
  quiet : ∀ {before after}, Machine.QuietChange before after →
    related before after

/-- The relation holds across elementary changes and sequences of them, and
across all that is done in another frame or as part of a required source. -/
structure Machine.Respected (related : Machine → Machine → Prop) : Prop
    extends Machine.Quiet related where
  change : ∀ {before after}, Machine.Change before after → related before after
  quiet changes := change changes.change
  inFrame : ∀ {machine after} (frame : FrameId),
    related { machine with active := frame } after →
    related machine { after with active := machine.active }
  whileRequiring : ∀ {machine after} (path : String),
    related { machine with requiring := path :: machine.requiring } after →
    related machine { after with requiring := after.requiring.tail }

/-- Whatever its outcome, the step leaves a machine that is related to the one
before. -/
def Run.Keeps (related : Machine → Machine → Prop) (step : Run α) : Prop :=
  ∀ machine, Leads step machine (fun _ after => related machine after)
    (fun _ after => related machine after)

variable {related : Machine → Machine → Prop}

namespace Run.Keeps

/-- The machine that a step leaves is related to the one before. -/
theorem ok
    {step : Run α}
    {machine after : Machine}
    {value : α}
    (keeps : Keeps related step)
    (yields : step machine = .ok value after) :
    related machine after :=
  Leads.ok (keeps machine) yields

/-- The machine that a failing step leaves is related to the one before. -/
theorem error
    {step : Run α}
    {machine after : Machine}
    {halt : Halt}
    (keeps : Keeps related step)
    (fails : step machine = .error halt after) :
    related machine after :=
  Leads.error (keeps machine) fails

/-- A step that looks at the machine first. -/
theorem look
    {next : Machine → Run β}
    (keepsNext : ∀ machine, Keeps related (next machine)) :
    Keeps related (get >>= next) :=
  fun machine => keepsNext machine machine

/-- A step whose value is changed. -/
theorem map
    {step : Run α}
    {change : α → β}
    (keeps : Keeps related step) :
    Keeps related (change <$> step) :=
  fun machine => Leads.map (keeps machine)

end Run.Keeps

/-- Reading a variable changes nothing. -/
theorem Run.leads_readVariable
    (id : NodeId)
    (name : Token)
    (machine : Machine) :
    Leads (readVariable id name) machine (fun _ after => after = machine)
      (fun _ after => after = machine) := by
  apply Leads.look
  split
  · split
    · exact .ofPure rfl
    · exact .ofThrow rfl
  · split
    · exact .ofPure rfl
    · exact .ofThrow rfl

/-- The frame that a variable is found in holds its name, and nothing
changes. -/
theorem Run.leads_frameOf
    (id : NodeId)
    (name : Token)
    (machine : Machine) :
    Leads (frameOf id name) machine
      (fun frame after => after = machine ∧
        machine.store.holds frame name.lexeme = true)
      (fun _ after => after = machine) := by
  apply Leads.look
  split
  · split
    · rename_i frame isFrame
      exact .ofPure ⟨rfl, Store.holds_of_holderAt? isFrame⟩
    · exact .ofThrow rfl
  · split
    · rename_i held
      exact .ofPure ⟨rfl, held⟩
    · exact .ofThrow rfl

namespace Machine.Quiet

variable (quiet : Machine.Quiet related)

include quiet

/-- A step that only yields a value. -/
theorem keeps_pure
    (value : α) :
    Keeps related (pure value : Run α) :=
  quiet.refl

/-- A step that only fails. -/
theorem keeps_throw
    (halt : Halt) :
    Keeps related (throw halt : Run α) :=
  quiet.refl

/-- One step after the other. -/
theorem andThen
    {step : Run α}
    {next : α → Run β}
    (keeps : Keeps related step)
    (keepsNext : ∀ value, Keeps related (next value)) :
    Keeps related (step >>= next) := by
  intro machine
  apply Leads.bind
  apply (keeps machine).weaken
  · intro value middle first
    apply (keepsNext value middle).weaken
    · intro _ after second
      exact quiet.trans first second
    · intro _ after second
      exact quiet.trans first second
  · intro _ _ first
    exact first

/-- A quiet change. -/
theorem keeps_quietly
    {change : Machine → α × Machine}
    (changes : ∀ machine, Machine.QuietChange machine (change machine).2) :
    Keeps related (modifyGet change) :=
  fun machine => quiet.quiet (changes machine)

/-- The value of an operator. -/
theorem keeps_ofExcept
    (result : Except RuntimeError Value) :
    Keeps related (Run.ofExcept result) := by
  cases result with
  | ok value => exact quiet.keeps_pure value
  | error error => exact quiet.keeps_throw _

/-- Reading a variable. -/
theorem keeps_readVariable
    (id : NodeId)
    (name : Token) :
    Keeps related (readVariable id name) := by
  apply Keeps.look
  intro machine
  split
  · split
    · exact quiet.keeps_pure _
    · exact quiet.keeps_throw _
  · split
    · exact quiet.keeps_pure _
    · exact quiet.keeps_throw _

/-- Overwriting a variable. -/
theorem keeps_assignVariable
    (id : NodeId)
    (name : Token)
    (value : Value) :
    Keeps related (assignVariable id name value) := by
  intro machine
  apply Leads.bind
  apply (leads_frameOf id name machine).weaken
  · rintro frame after ⟨rfl, held⟩
    exact quiet.quiet (.assign after frame name.lexeme value held)
  · rintro halt after rfl
    exact quiet.refl after

/-- Adding a frame. -/
theorem keeps_allocate
    (added : Frame) :
    Keeps related (Run.allocate added) :=
  quiet.keeps_quietly fun machine => .allocate machine added

/-- Handing out an identity. -/
theorem keeps_freshIdentity : Keeps related freshIdentity :=
  quiet.keeps_quietly .skipIdentity

/-- Making a function. -/
theorem keeps_closeOver
    (declaration : FunctionDecl)
    (closure : FrameId)
    (isInitializer : Bool) :
    Keeps related (closeOver declaration closure isInitializer) :=
  quiet.andThen quiet.keeps_freshIdentity fun _ => quiet.keeps_pure _

/-- Binding a method. -/
theorem keeps_bind
    (method : Function)
    (object : Instance) :
    Keeps related (Run.bind method object) :=
  quiet.andThen (quiet.keeps_allocate _) fun _ => quiet.keeps_closeOver _ _ _

/-- Binding a method that is then a value. -/
theorem keeps_bound
    (method : Function)
    (object : Instance) :
    Keeps related (do return Value.function (← Run.bind method object)) :=
  quiet.andThen (quiet.keeps_bind method object) fun _ => quiet.keeps_pure _

/-- Reading a property. -/
theorem keeps_getProperty
    (object : Instance)
    (name : Token) :
    Keeps related (getProperty object name) := by
  apply Keeps.look
  intro machine
  split
  · exact quiet.keeps_pure _
  · split
    · exact quiet.keeps_bound _ object
    · exact quiet.keeps_throw _

/-- Reading a method of the superclass. -/
theorem keeps_readSuper
    (id : NodeId)
    (keyword method : Token) :
    Keeps related (readSuper id keyword method) := by
  apply quiet.andThen
  · apply Keeps.look
    intro machine
    dsimp only
    split
    · exact quiet.keeps_throw _
    · split
      · split
        · exact quiet.keeps_throw _
        · split
          · exact quiet.keeps_pure _
          · exact quiet.keeps_throw _
      · exact quiet.keeps_throw _
  · rintro ⟨superclass, object⟩
    dsimp only
    split
    · exact quiet.keeps_bound _ object
    · exact quiet.keeps_throw _

/-- Writing to the output. -/
theorem keeps_write
    (text : String) :
    Keeps related (write text) := by
  apply Keeps.look
  intro machine
  apply quiet.andThen
  · exact fun machine => quiet.quiet (.append machine text.toUTF8)
  · intro _
    split
    · exact quiet.keeps_throw _
    · exact quiet.keeps_pure _

/-- Calling a native. -/
theorem keeps_callNative
    (context : Context)
    (native : Native)
    (arguments : List Value) :
    Keeps related (callNative context native arguments) := by
  apply quiet.andThen
  · exact quiet.keeps_quietly fun machine => .perform machine _
  · intro outcome
    cases outcome with
    | ok value => exact quiet.keeps_pure value
    | error reason => exact quiet.keeps_throw _

/-- The result of a call. -/
theorem keeps_callResult
    (function : Function)
    (flow : Flow) :
    Keeps related (callResult function flow) := by
  unfold callResult
  split
  · apply Keeps.look
    intro machine
    split
    · exact quiet.keeps_pure _
    · exact quiet.keeps_throw _
  · split
    · exact quiet.keeps_pure _
    · exact quiet.keeps_pure _

/-- The methods of a class. -/
theorem keeps_closeOverMethods
    (closure : FrameId)
    (table : NameMap Function)
    (methods : List FunctionDecl) :
    Keeps related (closeOverMethods closure table methods) := by
  induction methods generalizing table with
  | nil =>
      exact quiet.keeps_pure table
  | cons declaration rest inductionHypothesis =>
      apply quiet.andThen
      · exact quiet.keeps_closeOver _ _ _
      · intro method
        exact inductionHypothesis _

/-- Finding the superclass of a class that is declared. -/
theorem keeps_findSuperclass
    (name : Token)
    (superclass : Option SuperclassRef) :
    Keeps related (findSuperclass name superclass) := by
  cases superclass with
  | none => exact quiet.keeps_pure none
  | some named =>
      apply Keeps.map
      apply quiet.andThen (quiet.keeps_readVariable _ _)
      intro value
      cases value with
      | blueprint found => exact quiet.keeps_pure found
      | _ => exact quiet.keeps_throw _

/-- The frame that the methods of a class see. -/
theorem keeps_methodFrame
    (superclass : Option Class) :
    Keeps related (methodFrame superclass) := by
  apply Keeps.look
  intro machine
  cases superclass with
  | none => exact quiet.keeps_pure _
  | some found => exact quiet.keeps_allocate _

/-- Checking the number of arguments. -/
theorem keeps_checkArity
    (callee : Callee)
    (arguments : List Value)
    (paren : Token) :
    Keeps related (checkArity callee arguments paren) := by
  unfold checkArity
  split
  · exact quiet.keeps_pure _
  · exact quiet.keeps_throw _

/-- Compiling a source and loading its program, or failing with why it is
rejected. -/
theorem keeps_load
    (source : ByteArray)
    (rejected : StaticError → Halt) :
    Keeps related (do
      match ← modifyGet fun machine => machine.compile source with
      | .error error => throw (rejected error)
      | .ok program =>
          modify fun machine => machine.learn program.distances
          return program) := by
  intro machine
  cases outcome : Program.compile source machine.nextNode with
  | mk verdict next =>
      unfold Leads
      rw [bind_of_ok (modifyGet_compile outcome)]
      cases verdict with
      | error error =>
          have compiled := quiet.quiet (.compile machine source)
          simp only [Machine.compile, outcome] at compiled
          exact compiled
      | ok program => exact quiet.quiet (.load machine outcome)

/-- Loading a required source. -/
theorem keeps_loadRequired
    (context : Context)
    (keyword : Token)
    (path : String) :
    Keeps related (loadRequired context keyword path) := by
  apply Keeps.look
  intro machine
  dsimp only
  cases context.library path with
  | error failure =>
      split
      · exact quiet.andThen (quiet.keeps_throw _) fun _ => quiet.keeps_throw _
      · exact quiet.keeps_throw _
  | ok source =>
      have loads := quiet.keeps_load source fun error =>
        .failed (.require path keyword.line (.rejected error))
      split
      · exact quiet.andThen (quiet.keeps_throw _) fun _ => loads
      · exact loads

end Machine.Quiet

namespace Machine.Respected

variable (respected : Machine.Respected related)

include respected

/-- An elementary change. -/
theorem keeps_modify
    {change : Machine → Machine}
    (changes : ∀ machine, Machine.Change machine (change machine)) :
    Keeps related (modify change) :=
  fun machine => respected.change (changes machine)

/-- An elementary change that yields a value. -/
theorem keeps_modifyGet
    {change : Machine → α × Machine}
    (changes : ∀ machine, Machine.Change machine (change machine).2) :
    Keeps related (modifyGet change) :=
  fun machine => respected.change (changes machine)

/-- A step in another frame. -/
theorem keeps_inFrame
    {step : Run α}
    (keeps : Keeps related step)
    (frame : FrameId) :
    Keeps related (Run.inFrame frame step) := by
  intro machine
  unfold Leads Run.inFrame
  cases outcome : step { machine with active := frame } with
  | ok value after =>
      exact respected.inFrame frame (keeps.ok outcome)
  | error halt after =>
      exact respected.inFrame frame (keeps.error outcome)

/-- A step as part of a required source. -/
theorem keeps_whileRequiring
    {step : Run α}
    (keeps : Keeps related step)
    (path : String) :
    Keeps related (Run.whileRequiring path step) := by
  intro machine
  unfold Leads Run.whileRequiring
  cases outcome :
    step { machine with requiring := path :: machine.requiring } with
  | ok value after =>
      exact respected.whileRequiring path (keeps.ok outcome)
  | error halt after =>
      exact respected.whileRequiring path (keeps.error outcome)

/-- Giving a name a value in the active frame. -/
theorem keeps_define
    (name : String)
    (value : Value) :
    Keeps related (Run.define name value) :=
  respected.keeps_modify fun machine => .define machine name value

/-- Declaring a class. -/
theorem keeps_declareClass
    (name : Token)
    (superclass : Option SuperclassRef)
    (methods : List FunctionDecl) :
    Keeps related (declareClass name superclass methods) := by
  rw [declareClass_eq]
  apply respected.andThen (respected.keeps_findSuperclass name superclass)
  intro parent
  apply respected.andThen (respected.keeps_define _ _)
  intro _
  apply respected.andThen (respected.keeps_methodFrame parent)
  intro closure
  apply respected.andThen (respected.keeps_closeOverMethods _ _ _)
  intro table
  apply respected.andThen respected.keeps_freshIdentity
  intro identity
  exact respected.keeps_define _ _

/-- Declaring a function. -/
theorem keeps_declareFunction
    (declaration : FunctionDecl) :
    Keeps related (declareFunction declaration) := by
  apply Keeps.look
  intro machine
  apply respected.andThen
  · exact respected.keeps_closeOver _ _ _
  · intro function
    exact respected.keeps_define _ _

section Steps

variable {context : Context} {steps : Nat}
variable (keeps : ∀ task : Task, Keeps related (task.run context steps))

include keeps

/-- An expression, from the tasks that take one step less. -/
theorem keeps_eval_succ
    (expr : Expr) :
    Keeps related (eval context (steps + 1) expr) := by
  have evals (inner : Expr) : Keeps related (eval context steps inner) :=
    keeps (.eval inner)
  cases expr with
  | literal value =>
      exact respected.keeps_pure _
  | grouping inner =>
      exact evals inner
  | unary operator operand =>
      exact respected.andThen (evals operand) fun _ =>
        respected.keeps_ofExcept _
  | binary left operator right =>
      apply respected.andThen (evals left)
      intro first
      exact respected.andThen (evals right) fun _ => respected.keeps_ofExcept _
  | logical left operator right =>
      apply respected.andThen (evals left)
      intro first
      split
      · exact respected.keeps_pure first
      · exact evals right
  | reference id name =>
      exact respected.keeps_readVariable id name
  | assign id name value =>
      apply respected.andThen (evals value)
      intro stored
      exact respected.andThen (respected.keeps_assignVariable id name stored)
        fun _ =>
          respected.keeps_pure stored
  | call callee paren arguments =>
      apply respected.andThen (evals callee)
      intro called
      apply respected.andThen (keeps (.evalAll arguments))
      intro passed
      cases called.callee? with
      | none => exact respected.keeps_throw _
      | some callable =>
          exact respected.andThen
              (respected.keeps_checkArity callable passed paren) fun _ =>
            keeps (.apply callable passed)
  | get object name =>
      apply respected.andThen (evals object)
      intro held
      cases held with
      | object found => exact respected.keeps_getProperty found name
      | _ => exact respected.keeps_throw _
  | set object name value =>
      apply respected.andThen (evals object)
      intro held
      cases held with
      | object found =>
          apply respected.andThen (evals value)
          intro stored
          apply respected.andThen
          · exact respected.keeps_modify fun machine => .setField machine _ _ _
          · intro _
            exact respected.keeps_pure stored
      | _ => exact respected.keeps_throw _
  | thisRef id keyword =>
      exact respected.keeps_readVariable id keyword
  | superRef id keyword method =>
      exact respected.keeps_readSuper id keyword method

/-- A call of anything, from the tasks that take one step less. -/
theorem keeps_apply_succ
    (callee : Callee)
    (arguments : List Value) :
    Keeps related (apply context (steps + 1) callee arguments) := by
  cases callee with
  | function function =>
      exact keeps (.call function arguments)
  | native native =>
      exact respected.keeps_callNative context native arguments
  | blueprint blueprint =>
      apply respected.andThen
      · exact respected.keeps_modifyGet .allocateInstance
      · intro object
        cases blueprint.initializer? with
        | none => exact respected.keeps_pure _
        | some initializer =>
            apply respected.andThen (respected.keeps_bind initializer object)
            intro bound
            exact respected.andThen (keeps (.call bound arguments)) fun _ =>
              respected.keeps_pure _

/-- A statement, from the tasks that take one step less. -/
theorem keeps_exec_succ
    (statement : Stmt) :
    Keeps related (exec context (steps + 1) statement) := by
  have evals (expr : Expr) : Keeps related (eval context steps expr) :=
    keeps (.eval expr)
  have normally {α : Type} {step : Run α} (keepsStep : Keeps related step) :
      Keeps related (do let _ ← step; return Flow.normal) :=
    respected.andThen keepsStep fun _ => respected.keeps_pure _
  cases statement with
  | print value =>
      exact respected.andThen (evals value) fun _ =>
        normally (respected.keeps_write _)
  | expression value =>
      exact normally (evals value)
  | varDecl name initializer =>
      cases initializer with
      | none => exact normally (respected.keeps_define _ _)
      | some value =>
          exact respected.andThen (evals value) fun _ =>
            normally (respected.keeps_define _ _)
  | block body =>
      apply Keeps.look
      intro machine
      apply respected.andThen (respected.keeps_allocate _)
      intro frame
      exact respected.keeps_inFrame (keeps (.execAll body)) frame
  | conditional condition thenBranch elseBranch =>
      apply respected.andThen (evals condition)
      intro value
      split
      · exact keeps (.exec thenBranch)
      · cases elseBranch with
        | none => exact respected.keeps_pure _
        | some branch => exact keeps (.exec branch)
  | loop condition body =>
      exact keeps (.execLoop condition body)
  | funDecl declaration =>
      exact normally (respected.keeps_declareFunction declaration)
  | ret keyword value =>
      cases value with
      | none => exact respected.keeps_pure _
      | some value =>
          exact respected.andThen (evals value) fun _ => respected.keeps_pure _
  | classDecl name superclass methods =>
      exact normally (respected.keeps_declareClass name superclass methods)
  | require keyword path =>
      apply respected.andThen
        (respected.keeps_loadRequired context keyword path)
      intro program
      apply normally
      apply respected.keeps_whileRequiring
      exact respected.keeps_inFrame (keeps (.execAll program.statements))
        globalFrame

/-- A task, from the tasks that take one step less. -/
theorem keeps_succ
    (task : Task) :
    Keeps related (task.run context (steps + 1)) := by
  cases task with
  | eval expr =>
      exact respected.keeps_eval_succ keeps expr
  | evalAll exprs =>
      cases exprs with
      | nil => exact respected.keeps_pure _
      | cons first rest =>
          apply respected.andThen (keeps (.eval first))
          intro value
          exact respected.andThen (keeps (.evalAll rest)) fun _ =>
            respected.keeps_pure _
  | apply callee arguments =>
      exact respected.keeps_apply_succ keeps callee arguments
  | call function arguments =>
      apply respected.andThen (respected.keeps_allocate _)
      intro frame
      apply respected.andThen
      · exact respected.keeps_inFrame
          (keeps (.execAll function.declaration.body)) frame
      · intro flow
        exact respected.keeps_callResult function flow
  | result function flow =>
      exact respected.keeps_callResult function flow
  | exec statement =>
      exact respected.keeps_exec_succ keeps statement
  | execAll statements =>
      cases statements with
      | nil => exact respected.keeps_pure _
      | cons first rest =>
          apply respected.andThen (keeps (.exec first))
          intro flow
          cases flow with
          | normal => exact keeps (.execAll rest)
          | returned value => exact respected.keeps_pure _
  | execLoop condition body =>
      apply respected.andThen (keeps (.eval condition))
      intro value
      split
      · apply respected.andThen (keeps (.exec body))
        intro flow
        cases flow with
        | normal => exact keeps (.execLoop condition body)
        | returned value => exact respected.keeps_pure _
      · exact respected.keeps_pure _

end Steps

/-- Every task, done in any number of steps and with any outcome, leaves a
machine that is related to the one before. -/
theorem keeps_task
    (context : Context)
    (steps : Nat)
    (task : Task) :
    Keeps related (task.run context steps) := by
  induction steps generalizing task with
  | zero =>
      cases task with
      | result function flow => exact respected.keeps_callResult function flow
      | _ => exact respected.keeps_throw _
  | succ steps inductionHypothesis =>
      exact respected.keeps_succ inductionHypothesis task

end Machine.Respected

/-- How the machine that a task is asked for in comes about from the one that
has been got to. -/
inductive Calls.Seats (context : Context) (machine : Machine) :
    Task → Task → Machine → Machine → Prop where
  /-- It is that machine. -/
  | here {task other middle} :
      Seats context machine task other middle middle
  /-- A frame is entered that has just been added. -/
  | frame {task other middle} :
      Seats context machine task other middle
        { middle with active := machine.store.nextFrame }
  /-- The global frame is entered to execute a source that has just been
  loaded. -/
  | source {keyword path program middle} :
      loadRequired context keyword path machine = .ok program middle →
      Seats context machine (.exec (.require keyword path))
        (.execAll program.statements) middle
        { middle with
          requiring := path :: middle.requiring, active := globalFrame }

/-- What a task asks for is asked for after machines that are related, but for
entering a frame or a source. -/
theorem Calls.between
    {context : Context}
    {steps : Nat}
    {task other : Task}
    {machine after : Machine}
    (calls : Calls context steps task machine other after)
    (respected : Machine.Respected related) :
    ∃ middle, related machine middle ∧
      Calls.Seats context machine task other middle after := by
  have keeps (task : Task) := respected.keeps_task context steps task
  have same := respected.refl machine
  have allocates (added : Frame) :
      related machine { machine with store := machine.store.allocate added } :=
    respected.change (.allocate machine added)
  cases calls with
  | binaryRight left => exact ⟨_, (keeps (.eval _)).ok left, .here⟩
  | logicalRight left _ => exact ⟨_, (keeps (.eval _)).ok left, .here⟩
  | arguments callee => exact ⟨_, (keeps (.eval _)).ok callee, .here⟩
  | applied callee arguments _ _ =>
      exact ⟨_, respected.trans ((keeps (.eval _)).ok callee)
        ((keeps (.evalAll _)).ok arguments), .here⟩
  | stored object => exact ⟨_, (keeps (.eval _)).ok object, .here⟩
  | restExprs first => exact ⟨_, (keeps (.eval _)).ok first, .here⟩
  | initializer added _ binds =>
      cases added
      exact ⟨_, respected.trans (respected.change (.allocateInstance machine))
        ((respected.keeps_bind _ _).ok binds), .here⟩
  | body added | block added =>
      cases added
      exact ⟨_, allocates _, .frame⟩
  | @result function _ _ _ _ _ _ added flow =>
      cases added
      have inside := respected.keeps_inFrame
        (keeps (.execAll function.declaration.body)) machine.store.nextFrame
      exact ⟨_, respected.trans (allocates _) (inside.ok flow), .here⟩
  | thenBranch condition _ | elseBranch condition _ | repeated condition _ =>
      exact ⟨_, (keeps (.eval _)).ok condition, .here⟩
  | required loads =>
      exact ⟨_, (respected.keeps_loadRequired context _ _).ok loads,
        .source loads⟩
  | restStmts first => exact ⟨_, (keeps (.exec _)).ok first, .here⟩
  | again condition _ body =>
      exact ⟨_, respected.trans ((keeps (.eval _)).ok condition)
        ((keeps (.exec _)).ok body), .here⟩
  | _ => exact ⟨_, same, .here⟩

end LoxScript
