import LoxScript.Proofs.Machine.Declaration
import LoxScript.Proofs.Machine.Tasks
import LoxScript.Proofs.Outcome

namespace LoxScript

/-!
# How tasks are composed

A task is a sequence of small steps and of the tasks that it asks for, some of
them in another frame or as part of a required source.  Only writing to the
output looks at the output, only loading a source looks at the sources that are
being executed, and only natives look at the world; the other small steps are
silent.  What holds of silent steps, and of all that is composed of steps it
holds of, holds of a task as soon as it holds of the tasks that it asks for, of
its writing, of its loading and of the natives that it calls.
-/

open Run

/-- The machine with other required sources being executed, another output and
another world. -/
def Machine.aside
    (stack : List String)
    (sink : Sink)
    (world : World)
    (machine : Machine) : Machine :=
  { machine with requiring := stack, output := sink, world := world }

/-- The outcome of a step with the machine changed in that way. -/
def Run.outcomeAside
    (stack : List String)
    (sink : Sink)
    (world : World) :
    EStateM.Result Halt Machine α → EStateM.Result Halt Machine α
  | .ok value after => .ok value (after.aside stack sink world)
  | .error halt after => .error halt (after.aside stack sink world)

/-- The step does the same whatever sources are being executed, whatever the
output is and whatever the world is like, and leaves all three as they are. -/
def Run.Silent (step : Run α) : Prop :=
  ∀ machine stack sink world,
    step (machine.aside stack sink world) =
      outcomeAside stack sink world (step machine)

namespace Run.Silent

variable {step : Run α}

theorem ofPure
    (value : α) :
    Silent (pure value : Run α) :=
  fun _ _ _ _ => rfl

theorem ofFail
    (error : RuntimeError) :
    Silent (fail error : Run α) :=
  fun _ _ _ _ => rfl

theorem ofExhausted :
    Silent (throw .exhausted : Run α) :=
  fun _ _ _ _ => rfl

/-- One step after the other. -/
theorem andThen
    {next : α → Run β}
    (silent : Silent step)
    (silentNext : ∀ value, Silent (next value)) :
    Silent (step >>= next) := by
  intro machine stack sink world
  have first := silent machine stack sink world
  cases outcome : step machine with
  | ok value after =>
      rw [outcome] at first
      rw [bind_of_ok outcome, bind_of_ok first]
      exact silentNext value after stack sink world
  | error halt after =>
      rw [outcome] at first
      rw [bind_of_error outcome, bind_of_error first]
      rfl

/-- A step that looks at the rest of the machine first. -/
theorem look
    {next : Machine → Run α}
    (alike : ∀ machine stack sink world, next (machine.aside stack sink world) =
      next machine)
    (silentNext : ∀ machine, Silent (next machine)) :
    Silent (get >>= next) := by
  intro machine stack sink world
  rw [bind_get, bind_get, alike machine stack sink world]
  exact silentNext machine machine stack sink world

/-- A step whose value is changed. -/
theorem map
    (silent : Silent step)
    (change : α → β) :
    Silent (change <$> step) := by
  intro machine stack sink world
  simp only [Functor.map, EStateM.map, silent machine stack sink world]
  cases step machine <;> rfl

/-- A step that is refused in some cases. -/
theorem guarded
    {refused : Bool}
    {error : RuntimeError}
    (silent : Silent step) :
    Silent (do
      if refused then fail error
      step) := by
  cases refused with
  | true => exact .andThen (.ofFail error) fun _ => silent
  | false => exact silent

end Run.Silent

section Steps

/-- The value of an operator. -/
theorem silent_ofExcept
    (result : Except RuntimeError Value) :
    Silent (Run.ofExcept result) := by
  cases result with
  | ok value => exact .ofPure value
  | error error => exact .ofFail error

/-- Reading a variable. -/
theorem silent_readVariable
    (id : NodeId)
    (name : Token) :
    Silent (readVariable id name) := by
  refine .look (fun _ _ _ _ => rfl) fun machine => ?_
  split
  · split
    · exact .ofPure _
    · exact .ofFail _
  · split
    · exact .ofPure _
    · exact .ofFail _

/-- Overwriting a variable. -/
theorem silent_assignVariable
    (id : NodeId)
    (name : Token)
    (value : Value) :
    Silent (assignVariable id name value) := by
  refine .andThen (.look (fun _ _ _ _ => rfl) fun machine => ?_) fun frame =>
    fun _ _ _ _ => rfl
  split
  · split
    · exact .ofPure _
    · exact .ofFail _
  · split
    · exact .ofPure _
    · exact .ofFail _

/-- Reading a property. -/
theorem silent_getProperty
    (object : Instance)
    (name : Token) :
    Silent (getProperty object name) := by
  refine .look (fun _ _ _ _ => rfl) fun machine => ?_
  split
  · exact .ofPure _
  · split
    · exact fun _ _ _ _ => rfl
    · exact .ofFail _

/-- Finding the superclass and the instance at hand. -/
theorem silent_superParts
    (id : NodeId)
    (keyword : Token) :
    Silent (superParts id keyword) := by
  refine .look (fun _ _ _ _ => rfl) fun machine => ?_
  dsimp only
  split
  · exact .ofFail _
  · split
    · split
      · exact .ofFail _
      · split
        · exact .ofPure _
        · exact .ofFail _
    · exact .ofFail _

/-- Reading a method of the superclass. -/
theorem silent_readSuper
    (id : NodeId)
    (keyword method : Token) :
    Silent (readSuper id keyword method) := by
  refine (silent_superParts id keyword).andThen fun found => ?_
  dsimp only
  split
  · exact fun _ _ _ _ => rfl
  · exact .ofFail _

/-- The result of a call. -/
theorem silent_callResult
    (function : Function)
    (flow : Flow) :
    Silent (callResult function flow) := by
  unfold callResult
  split
  · refine .look (fun _ _ _ _ => rfl) fun machine => ?_
    split
    · exact .ofPure _
    · exact .ofFail _
  · cases flow <;> exact .ofPure _

/-- Checking the number of arguments. -/
theorem silent_checkArity
    (callee : Callee)
    (arguments : List Value)
    (paren : Token) :
    Silent (checkArity callee arguments paren) := by
  unfold checkArity
  split
  · exact .ofPure _
  · exact .ofFail _

/-- Making the methods of a class. -/
theorem silent_closeOverMethods
    (closure : FrameId)
    (table : NameMap Function)
    (methods : List FunctionDecl) :
    Silent (closeOverMethods closure table methods) := by
  induction methods generalizing table with
  | nil => exact .ofPure table
  | cons declaration rest inductionHypothesis =>
      exact .andThen (fun _ _ _ _ => rfl) fun method => inductionHypothesis _

/-- Declaring a class. -/
theorem silent_declareClass
    (name : Token)
    (superclass : Option SuperclassRef)
    (methods : List FunctionDecl) :
    Silent (declareClass name superclass methods) := by
  rw [declareClass_eq]
  refine .andThen ?_ fun parent =>
    .andThen (fun _ _ _ _ => rfl) fun _ =>
    .andThen ?_ fun closure =>
    .andThen (silent_closeOverMethods _ _ _) fun table => fun _ _ _ _ => rfl
  · cases superclass with
    | none => exact .ofPure none
    | some named =>
        refine .map (.andThen (silent_readVariable _ _) fun value => ?_) some
        cases value with
        | blueprint found => exact .ofPure found
        | _ => exact .ofFail _
  · cases parent <;> exact fun _ _ _ _ => rfl

/-- Loading a source while these sources are being executed. -/
def Run.loadAmid
    (context : Context)
    (keyword : Token)
    (path : String)
    (stack : List String) : Run Program := do
  if stack.contains path then fail (.cyclicRequire path keyword.line)
  match context.library path with
  | .error failure => fail (.require path keyword.line (.unreadable failure))
  | .ok source =>
      match ← modifyGet fun machine => machine.compile source with
      | .error error => fail (.require path keyword.line (.rejected error))
      | .ok program =>
          modify fun machine => machine.learn program.distances
          return program

/-- Loading a source looks at the sources that are being executed first. -/
theorem loadRequired_eq_look
    (context : Context)
    (keyword : Token)
    (path : String) :
    loadRequired context keyword path =
      get >>= fun machine => loadAmid context keyword path machine.requiring :=
  rfl

/-- Once it has looked at the sources that are being executed, loading is
silent. -/
theorem silent_loadAmid
    (context : Context)
    (keyword : Token)
    (path : String)
    (stack : List String) :
    Silent (loadAmid context keyword path stack) := by
  apply Silent.guarded
  cases context.library path with
  | error failure => exact .ofFail _
  | ok source =>
      refine .andThen (fun _ _ _ _ => rfl) fun verdict => ?_
      cases verdict with
      | error error => exact .ofFail _
      | ok program => exact fun _ _ _ _ => rfl

end Steps

/-- What holds of a step in a machine holds of silent steps, and of what is
composed of steps that it holds of. -/
structure Run.Composes (law : {α : Type} → Run α → Machine → Prop) : Prop where
  silent : ∀ {α : Type} {step : Run α} {machine : Machine},
    Silent step → law step machine
  andThen : ∀ {α β : Type} {step : Run α} {next : α → Run β}
    {machine : Machine}, law step machine →
      (∀ value after, step machine = .ok value after → law (next value) after) →
      law (step >>= next) machine
  look : ∀ {α : Type} {next : Machine → Run α} {machine : Machine},
    (∀ stack sink world, next (machine.aside stack sink world) = next machine) →
      law (next machine) machine → law (get >>= next) machine
  inFrame : ∀ {α : Type} {step : Run α} {frame : FrameId} {machine : Machine},
    law step { machine with active := frame } →
      law (Run.inFrame frame step) machine
  whileRequiring :
    ∀ {α : Type} {step : Run α} {path : String} {machine : Machine},
    law step { machine with requiring := path :: machine.requiring } →
      law (Run.whileRequiring path step) machine

namespace Run.Composes

variable {law : {α : Type} → Run α → Machine → Prop} (composes : Composes law)
variable {context : Context} {steps : Nat} {machine : Machine}

include composes

/-- A step that is followed by a silent one. -/
theorem quietly
    {step : Run α}
    {next : α → Run β}
    (holds : law step machine)
    (silent : ∀ value, Silent (next value)) :
    law (step >>= next) machine :=
  composes.andThen holds fun value _ _ => composes.silent (silent value)

/-- Calling what an expression yields. -/
theorem call_succ
    {callee : Expr}
    {paren : Token}
    {arguments : List Expr}
    (asked : ∀ other after,
      Calls context steps (.eval (.call callee paren arguments)) machine
        other after →
        law (other.run context steps) after) :
    law (eval context (steps + 1) (.call callee paren arguments)) machine := by
  unfold eval
  refine composes.andThen (asked _ _ .callee) fun called middle yields => ?_
  refine composes.andThen (asked _ _ (.arguments yields))
    fun passed after yieldsAll => ?_
  split
  · rename_i callable isCallable
    refine composes.andThen (composes.silent (silent_checkArity _ _ _))
      fun _ checked isChecked => ?_
    unfold checkArity at isChecked
    split at isChecked
    · rename_i complete
      cases isChecked
      exact asked _ _ (.applied yields yieldsAll isCallable complete)
    · cases isChecked
  · exact composes.silent (.ofFail _)

/-- The value of an expression. -/
theorem eval_succ
    {expr : Expr}
    (asked :
      ∀ other after, Calls context steps (.eval expr) machine other after →
      law (other.run context steps) after) :
    law (eval context (steps + 1) expr) machine := by
  cases expr with
  | literal value => exact composes.silent (.ofPure _)
  | grouping inner => exact asked _ _ .grouping
  | unary operator operand =>
      exact composes.quietly (asked _ _ .operand) fun _ => silent_ofExcept _
  | binary left operator right =>
      refine composes.andThen (asked _ _ .binaryLeft)
        fun first middle yields => ?_
      exact composes.quietly (asked _ _ (.binaryRight yields)) fun _ =>
        silent_ofExcept _
  | logical left operator right =>
      refine composes.andThen (asked _ _ .logicalLeft)
        fun first middle yields => ?_
      split
      · exact composes.silent (.ofPure _)
      · rename_i unsettled
        exact asked _ _ (.logicalRight yields (by simpa using unsettled))
  | reference id name => exact composes.silent (silent_readVariable id name)
  | assign id name value =>
      refine composes.quietly (asked _ _ .assigned) fun stored => ?_
      exact (silent_assignVariable id name stored).andThen fun _ => .ofPure _
  | call callee paren arguments => exact composes.call_succ asked
  | get object name =>
      refine composes.quietly (asked _ _ .object) fun holder => ?_
      cases holder with
      | object found => exact silent_getProperty found name
      | _ => exact .ofFail _
  | set object name value =>
      refine composes.andThen (asked _ _ .holder) fun holder middle yields => ?_
      cases holder with
      | object found =>
          exact composes.quietly (asked _ _ (.stored yields)) fun _ =>
            fun _ _ _ _ => rfl
      | _ => exact composes.silent (.ofFail _)
  | thisRef id keyword => exact composes.silent (silent_readVariable id keyword)
  | superRef id keyword method =>
      exact composes.silent (silent_readSuper id keyword method)

/-- The value of a call, whatever is called, if the law holds of the native that
it may be. -/
theorem apply_succ
    {callee : Callee}
    {arguments : List Value}
    (asked : ∀ other after, Calls context steps (.apply callee arguments)
      machine other after →
      law (other.run context steps) after)
    (performs : ∀ native, callee = .native native →
      law (callNative context native arguments) machine) :
    law (apply context (steps + 1) callee arguments) machine := by
  cases callee with
  | native native => exact performs native rfl
  | function function => exact asked _ _ .function
  | blueprint blueprint =>
      have allocates : Silent (allocateInstance blueprint) := fun _ _ _ _ => rfl
      refine composes.andThen (composes.silent allocates)
        fun object middle yields => ?_
      split
      · rename_i initializer isInitializer
        have binds : Silent (Run.bind initializer object) := fun _ _ _ _ => rfl
        refine composes.andThen (composes.silent binds)
          fun bound after yieldsBound => ?_
        exact composes.quietly
          (asked _ _ (.initializer yields isInitializer yieldsBound))
          fun _ => .ofPure _
      · exact composes.silent (.ofPure _)

/-- Executing a statement, if the law holds of what it writes and of what it
loads. -/
theorem exec_succ
    {statement : Stmt}
    (asked :
      ∀ other after, Calls context steps (.exec statement) machine other after →
      law (other.run context steps) after)
    (prints : ∀ value shown after, statement = .print value →
      eval context steps value machine = .ok shown after →
        law (write (shown.text ++ "\n")) after)
    (loads : ∀ keyword path, statement = .require keyword path →
      law (loadRequired context keyword path) machine) :
    law (exec context (steps + 1) statement) machine := by
  cases statement with
  | print value =>
      refine composes.andThen (asked _ _ .printed) fun shown after yields => ?_
      exact composes.quietly (prints value shown after rfl yields)
        fun _ => .ofPure _
  | expression value =>
      exact composes.quietly (asked _ _ .stated) fun _ => .ofPure _
  | varDecl name initializer =>
      cases initializer with
      | none => exact composes.silent fun _ _ _ _ => rfl
      | some initializer =>
          exact composes.quietly (asked _ _ .initialized) fun _ =>
            fun _ _ _ _ => rfl
  | block body =>
      refine composes.look (fun _ _ _ => rfl) ?_
      have allocates : Silent (allocate ⟨NameMap.empty, some machine.active⟩) :=
        fun _ _ _ _ => rfl
      refine composes.andThen (composes.silent allocates)
        fun frame after yields => ?_
      exact composes.inFrame (asked _ _ (.block yields))
  | conditional condition thenBranch elseBranch =>
      refine composes.andThen (asked _ _ .condition)
        fun value middle yields => ?_
      split
      · rename_i truthy
        exact asked _ _ (.thenBranch yields truthy)
      · rename_i falsy
        cases elseBranch with
        | none => exact composes.silent (.ofPure _)
        | some branch =>
            exact asked _ _ (.elseBranch yields (by simpa using falsy))
  | loop condition body => exact asked _ _ .loop
  | funDecl declaration => exact composes.silent fun _ _ _ _ => rfl
  | ret keyword value =>
      cases value with
      | none => exact composes.silent (.ofPure _)
      | some value =>
          exact composes.quietly (asked _ _ .returned) fun _ => .ofPure _
  | classDecl name superclass methods =>
      exact composes.silent
        ((silent_declareClass _ _ _).andThen fun _ => .ofPure _)
  | require keyword path =>
      refine composes.andThen (loads keyword path rfl)
        fun program middle yields => ?_
      refine composes.quietly (composes.whileRequiring (composes.inFrame ?_))
        fun _ => .ofPure _
      exact asked _ _ (.required yields)

/-- Executing statements. -/
theorem execAll_succ
    {statements : List Stmt}
    (asked : ∀ other after, Calls context steps (.execAll statements) machine
      other after →
      law (other.run context steps) after) :
    law (execAll context (steps + 1) statements) machine := by
  cases statements with
  | nil => exact composes.silent (.ofPure _)
  | cons first rest =>
      refine composes.andThen (asked _ _ .firstStmt)
        fun flow middle yields => ?_
      cases flow with
      | normal => exact asked _ _ (.restStmts yields)
      | returned value => exact composes.silent (.ofPure _)

/-- Executing a loop. -/
theorem execLoop_succ
    {condition : Expr}
    {body : Stmt}
    (asked : ∀ other after, Calls context steps (.execLoop condition body)
      machine other after →
      law (other.run context steps) after) :
    law (execLoop context (steps + 1) condition body) machine := by
  refine composes.andThen (asked _ _ .guard) fun value middle yields => ?_
  split
  · rename_i truthy
    refine composes.andThen (asked _ _ (.repeated yields truthy))
      fun flow after yieldsBody => ?_
    cases flow with
    | normal => exact asked _ _ (.again yields truthy yieldsBody)
    | returned value => exact composes.silent (.ofPure _)
  · exact composes.silent (.ofPure _)

/-- With one step more, the law holds of a task if it holds of what the task
asks for, of what it writes, of what it loads and of the native that it
calls. -/
theorem task_succ
    {task : Task}
    (asked : ∀ other after, Calls context steps task machine other after →
      law (other.run context steps) after)
    (prints : ∀ value shown after, task = .exec (.print value) →
      eval context steps value machine = .ok shown after →
        law (write (shown.text ++ "\n")) after)
    (loads : ∀ keyword path, task = .exec (.require keyword path) →
      law (loadRequired context keyword path) machine)
    (performs : ∀ native arguments, task = .apply (.native native) arguments →
      law (callNative context native arguments) machine) :
    law (task.run context (steps + 1)) machine := by
  cases task with
  | eval expr => exact composes.eval_succ asked
  | evalAll exprs =>
      cases exprs with
      | nil => exact composes.silent (.ofPure _)
      | cons first rest =>
          refine composes.andThen (asked _ _ .firstExpr)
            fun value middle yields => ?_
          exact composes.quietly (asked _ _ (.restExprs yields))
            fun _ => .ofPure _
  | apply callee arguments =>
      refine composes.apply_succ asked fun native isNative =>
        performs native arguments ?_
      rw [isNative]
  | call function arguments =>
      have allocates : Silent (allocate (callFrame function arguments)) :=
        fun _ _ _ _ => rfl
      refine composes.andThen (composes.silent allocates)
        fun frame middle yields => ?_
      exact composes.quietly (composes.inFrame (asked _ _ (.body yields)))
        fun _ =>
          silent_callResult _ _
  | result function flow =>
      exact composes.silent (silent_callResult function flow)
  | exec statement =>
      exact composes.exec_succ asked (fun value shown after isPrint =>
        prints value shown after
        (congrArg Task.exec isPrint)) fun keyword path isRequire =>
          loads keyword path (congrArg Task.exec isRequire)
  | execAll statements => exact composes.execAll_succ asked
  | execLoop condition body => exact composes.execLoop_succ asked

/-- Without any step, only the end of a call is done. -/
theorem task_zero
    (task : Task)
    (machine : Machine) :
    law (task.run context 0) machine := by
  cases task with
  | result function flow =>
      exact composes.silent (silent_callResult function flow)
  | _ => exact composes.silent .ofExhausted

end Run.Composes

end LoxScript
