import LoxScript.Proofs.Machine.Obeying

namespace LoxScript

/-!
# Runs that obey a regime

A task that may be done in an intact machine obeys the regime in any number of
steps: all stages on the way keep what they have to of the stages before them,
and whatever the evaluator comes to may be done there.
-/

open Run

variable {regime : Regime} {context : Context} {allowed : Stage → Prop}
variable {machine middle after : Machine} {steps : Nat}

namespace Regime

/-- The task may be done in the machine, which is intact, and all that it comes
to is allowed. -/
structure Starts
    (regime : Regime)
    (context : Context)
    (allowed : Stage → Prop)
    (steps : Nat)
    (task : Task)
    (machine : Machine) : Prop where
  intact : regime.intact machine
  admits : regime.admits machine task
  allowed : ∀ stage ∈ task.stages context steps machine, allowed stage

/-- Whatever may be done obeys the regime in so many steps. -/
def Rules
    (regime : Regime)
    (context : Context)
    (allowed : Stage → Prop)
    (steps : Nat) : Prop :=
  ∀ task machine, regime.Starts context allowed steps task machine →
    Obeys regime (task.stages context steps machine)
      (task.run context steps) machine
      fun out after => regime.yields after task out

namespace Starts

variable {task other : Task} {whole part : Part}

/-- What is passed in the tasks that the task asks for is allowed. -/
theorem allows
    (starts : regime.Starts context allowed (steps + 1) task machine)
    (calls : Calls context steps task machine other after) :
    ∀ stage ∈ other.stages context steps after, allowed stage :=
  fun stage member =>
    starts.allowed stage (Task.mem_stages_of_calls calls member)

/-- So is the task itself. -/
theorem isAllowed
    (starts : regime.Starts context allowed steps task machine) :
    allowed (.task task machine) :=
  starts.allowed _ (Task.mem_stages_self context steps task machine)

/-- So is what the task does itself before it asks for others. -/
theorem opens
    (starts : regime.Starts context allowed (steps + 1) task machine) :
    ∀ stage ∈ task.opening machine, allowed stage :=
  fun stage member =>
    starts.allowed stage
      (.tail _ (List.mem_append_left _ (List.mem_append_left _ member)))

/-- So is what the task does itself afterwards. -/
theorem closes
    (starts : regime.Starts context allowed (steps + 1) task machine) :
    ∀ stage ∈ task.closing context steps machine, allowed stage :=
  fun stage member =>
    starts.allowed stage (.tail _ (List.mem_append_right _ member))

end Starts

/-- The machine is intact, and the part may be executed in the active frame. -/
structure Seats (regime : Regime) (machine : Machine) (part : Part) : Prop where
  intact : regime.intact machine
  hosts : regime.hosts machine machine.active part

section Rules

variable (lawful : regime.Lawful context allowed)
variable {task other : Task} {whole part : Part}

include lawful

/-- What is done where a part is may be done where the part may be. -/
theorem Seats.covered
    (seats : regime.Seats machine whole)
    (covers : whole.Covers part) :
    regime.Seats machine part :=
  ⟨seats.intact, lawful.covered seats.hosts covers⟩

/-- What may be executed may be so later. -/
theorem Seats.later
    (seats : regime.Seats machine whole)
    (moves : regime.Moves machine after)
    (same : machine.SameContext after) :
    regime.Seats after whole := by
  refine ⟨moves.intact, ?_⟩
  rw [same.active]
  exact lawful.laterCode moves.keeps seats.hosts

variable (rules : regime.Rules context allowed steps)

include rules

/-- After an expression, what may be executed may be so, and the value is as
asked. -/
theorem Seats.afterEval
    {expr : Expr}
    {value : Value}
    (seats : regime.Seats machine whole)
    (covers : whole.Covers (.expr expr))
    (allows : ∀ stage ∈ (Task.eval expr).stages context steps machine,
      allowed stage)
    (yields : eval context steps expr machine = .ok value after) :
    regime.Seats after whole ∧ regime.Moves machine after ∧
      regime.value after value := by
  have here := seats.covered lawful covers
  obtain ⟨passes, isValue⟩ :=
    Leads.ok (rules (.eval expr) machine ⟨here.intact, here.hosts, allows⟩)
      yields
  have same :=
    (Machine.respected_sameContext.keeps_task context steps (.eval expr)).ok
    yields
  exact ⟨seats.later lawful passes.moves same, passes.moves, isValue⟩

/-- After a statement, what may be executed may be so. -/
theorem Seats.afterExec
    {statement : Stmt}
    {flow : Flow}
    (seats : regime.Seats machine whole)
    (covers : whole.Covers (.stmt statement))
    (allows : ∀ stage ∈ (Task.exec statement).stages context steps machine,
      allowed stage)
    (yields : exec context steps statement machine = .ok flow after) :
    regime.Seats after whole := by
  have here := seats.covered lawful covers
  obtain ⟨passes, -⟩ :=
    Leads.ok (rules (.exec statement) machine ⟨here.intact, here.hosts, allows⟩)
      yields
  have same :=
    (Machine.respected_sameContext.keeps_task context steps
      (.exec statement)).ok yields
  exact seats.later lawful passes.moves same

end Rules

/-- What may be executed in a frame may be so once the frame is active. -/
theorem Lawful.entering
    (lawful : regime.Lawful context allowed)
    {frame : FrameId}
    {part : Part}
    (intact : regime.intact machine)
    (hosts : regime.hosts machine frame part) :
    regime.Seats { machine with active := frame } part := by
  have enters : regime.Moves machine { machine with active := frame } :=
    lawful.movesAside intact rfl rfl rfl
  exact ⟨enters.intact, lawful.laterCode enters.keeps hosts⟩

/-- In the frame of a call, the function's body may be executed. -/
theorem Lawful.seatsCall
    (lawful : regime.Lawful context allowed)
    {function : Function}
    {arguments : List Value}
    (intact : regime.intact machine)
    (isFunction : regime.function machine function)
    (areValues : ∀ argument ∈ arguments, regime.value machine argument) :
    regime.Moves machine
        { machine with
          store := machine.store.allocate (callFrame function arguments) } ∧
      regime.Seats (machine.entering (callFrame function arguments))
        (.stmts function.declaration.body) := by
  obtain ⟨moves, hosts⟩ := lawful.call intact isFunction areValues
  exact ⟨moves, lawful.entering moves.intact hosts⟩

end Regime

/-- The initializer of a new instance is bound before the construction asks for
anything. -/
theorem mem_opening_of_initializer
    {blueprint : Class}
    {object : Instance}
    {initializer : Function}
    {stage : Stage}
    (arguments : List Value)
    (allocates : allocateInstance blueprint machine = .ok object middle)
    (isInitializer : blueprint.initializer? = some initializer)
    (member : stage ∈ Stage.binding initializerName initializer object middle) :
    stage ∈ (Task.apply (.blueprint blueprint) arguments).opening machine := by
  rw [Task.opening, mem_onwards_iff]
  refine ⟨_, _, allocates, ?_⟩
  rw [isInitializer]
  exact member

/-- A task that is asked for by one that may be done may be done where it is
asked for. -/
theorem Calls.starts
    {task other : Task}
    (calls : Calls context steps task machine other after)
    (lawful : regime.Lawful context allowed)
    (rules : regime.Rules context allowed steps)
    (starts : regime.Starts context allowed (steps + 1) task machine) :
    regime.Starts context allowed steps other after := by
  suffices good : regime.intact after ∧ regime.admits after other from
    ⟨good.1, good.2, starts.allows calls⟩
  have seats {whole : Part}
      (hosts : regime.hosts machine machine.active whole) :
      regime.Seats machine whole := ⟨starts.intact, hosts⟩
  have both {whole part : Part} {last : Machine}
      (seats : regime.Seats last whole)
      (covers : whole.Covers part) :
      regime.intact last ∧ regime.hosts last last.active part :=
    ⟨seats.intact, lawful.covered seats.hosts covers⟩
  have admits := starts.admits
  cases calls with
  | grouping => exact both (seats admits) (.included .grouping)
  | operand => exact both (seats admits) (.included .operand)
  | binaryLeft => exact both (seats admits) (.included .binaryLeft)
  | binaryRight yields =>
      obtain ⟨seatsAfter, -⟩ :=
        (seats admits).afterEval lawful rules (.included .binaryLeft)
        (starts.allows .binaryLeft) yields
      exact both seatsAfter (.included .binaryRight)
  | logicalLeft => exact both (seats admits) (.included .logicalLeft)
  | logicalRight yields _ =>
      obtain ⟨seatsAfter, -⟩ :=
        (seats admits).afterEval lawful rules (.included .logicalLeft)
        (starts.allows .logicalLeft) yields
      exact both seatsAfter (.included .logicalRight)
  | assigned => exact both (seats admits) (.included .assigned)
  | callee => exact both (seats admits) (.included .callee)
  | arguments yields =>
      obtain ⟨seatsAfter, -⟩ :=
        (seats admits).afterEval lawful rules (.included .callee)
        (starts.allows .callee) yields
      exact both seatsAfter (.included .arguments)
  | applied yields yieldsAll callable complete =>
      obtain ⟨seatsMiddle, -, isCallee⟩ := (seats admits).afterEval lawful rules
        (.included .callee) (starts.allows .callee) yields
      have passing := seatsMiddle.covered lawful (.included .arguments)
      obtain ⟨passes, areValues⟩ := Leads.ok (rules (.evalAll _) _
        ⟨passing.intact, passing.hosts, starts.allows (.arguments yields)⟩)
        yieldsAll
      exact ⟨passes.moves.intact,
        (lawful.laterValue passes.moves.keeps isCallee).callee callable,
        areValues⟩
  | object => exact both (seats admits) (.included .object)
  | holder => exact both (seats admits) (.included .holder)
  | stored yields =>
      obtain ⟨seatsAfter, -⟩ :=
        (seats admits).afterEval lawful rules (.included .holder)
        (starts.allows .holder) yields
      exact both seatsAfter (.included .stored)
  | firstExpr => exact both (seats admits) (.included .firstExpr)
  | restExprs yields =>
      obtain ⟨seatsAfter, -⟩ :=
        (seats admits).afterEval lawful rules (.included .firstExpr)
        (starts.allows .firstExpr) yields
      exact both seatsAfter (.included .restExprs)
  | function => exact ⟨starts.intact, admits⟩
  | @initializer _ arguments _ _ _ _ _ _ allocates isInitializer binds =>
      obtain ⟨isClass, areValues⟩ := admits
      obtain ⟨moves, isObject⟩ := lawful.allocateInstance starts.intact isClass
      have isStage :=
        mem_opening_of_initializer arguments allocates isInitializer
        (mem_onwards_iff.mpr ⟨_, _, binds, List.mem_cons_self⟩)
      cases allocates
      have isMethod :=
        lawful.methodOf (lawful.laterBlueprint moves.keeps isClass)
        isInitializer
      obtain ⟨movesOn, isFunction, -⟩ :=
        moves_bind lawful moves.intact isMethod isObject binds
        (starts.opens _ isStage)
      have keeps := lawful.trans moves.keeps movesOn.keeps
      exact ⟨movesOn.intact, isFunction,
        fun argument member =>
          lawful.laterValue keeps (areValues argument member)⟩
  | body allocates =>
      cases allocates
      obtain ⟨-, seatsBody⟩ := lawful.seatsCall starts.intact admits.1 admits.2
      exact ⟨seatsBody.intact, seatsBody.hosts⟩
  | result allocates yields =>
      cases allocates
      obtain ⟨moves, seatsBody⟩ :=
        lawful.seatsCall starts.intact admits.1 admits.2
      have inside := rules (.execAll _) _
        ⟨seatsBody.intact, seatsBody.hosts, starts.allows (.body rfl)⟩
      obtain ⟨passes, last, isFlow, leaves⟩ :=
        Leads.ok (Obeys.inFrame lawful moves.intact inside) yields
      exact ⟨passes.moves.intact,
        lawful.laterFunction (lawful.trans moves.keeps passes.moves.keeps)
          admits.1,
        lawful.laterFlow leaves isFlow⟩
  | printed => exact both (seats admits) (.included .printed)
  | stated => exact both (seats admits) (.included .stated)
  | initialized => exact both (seats admits) .initializer
  | block allocates =>
      cases allocates
      obtain ⟨moves, hosts⟩ := lawful.block starts.intact admits
      have enters := lawful.entering moves.intact hosts
      exact ⟨enters.intact, enters.hosts⟩
  | condition => exact both (seats admits) (.included .condition)
  | thenBranch yields _ =>
      obtain ⟨seatsAfter, -⟩ :=
        (seats admits).afterEval lawful rules (.included .condition)
        (starts.allows .condition) yields
      exact both seatsAfter (.included .thenBranch)
  | elseBranch yields _ =>
      obtain ⟨seatsAfter, -⟩ :=
        (seats admits).afterEval lawful rules (.included .condition)
        (starts.allows .condition) yields
      exact both seatsAfter (.included .elseBranch)
  | loop => exact ⟨starts.intact, admits⟩
  | returned => exact both (seats admits) (.included .returned)
  | superclass => exact both (seats admits) .superclass
  | @required _ path _ _ last loads =>
      obtain ⟨passes, hosts⟩ :=
        Leads.ok (obeys_loadRequired lawful starts.intact _ _) loads
      have enters : regime.Moves last
          { last with
            requiring := path :: last.requiring, active := globalFrame } :=
        lawful.movesAside passes.moves.intact rfl rfl rfl
      exact ⟨enters.intact, lawful.laterCode enters.keeps hosts⟩
  | firstStmt => exact both (seats admits) (.included .firstStmt)
  | restStmts yields =>
      have seatsAfter :=
        (seats admits).afterExec lawful rules (.included .firstStmt)
        (starts.allows .firstStmt) yields
      exact both seatsAfter .rest
  | guard => exact both (seats admits) (.included .guard)
  | repeated yields _ =>
      obtain ⟨seatsAfter, -⟩ :=
        (seats admits).afterEval lawful rules (.included .guard)
        (starts.allows .guard) yields
      exact both seatsAfter (.included .repeated)
  | again yields truthy yieldsBody =>
      obtain ⟨seatsMiddle, -⟩ :=
        (seats admits).afterEval lawful rules (.included .guard)
        (starts.allows .guard) yields
      have seatsAfter :=
        seatsMiddle.afterExec lawful rules (.included .repeated)
        (starts.allows (.repeated yields truthy)) yieldsBody
      exact ⟨seatsAfter.intact, seatsAfter.hosts⟩

/-- Reading a variable passes nothing else. -/
theorem Task.stages_reference
    (context : Context)
    (steps : Nat)
    (id : NodeId)
    (name : Token)
    (machine : Machine) :
    (Task.eval (.reference id name)).stages context steps machine =
      [.task (.eval (.reference id name)) machine] := by
  cases steps <;> rfl

section Steps

variable (lawful : regime.Lawful context allowed)
  (rules : regime.Rules context allowed steps)

include lawful rules

/-- What a task asks for obeys the regime. -/
theorem Calls.obeys
    {task other : Task}
    (calls : Calls context steps task machine other after)
    (starts : regime.Starts context allowed (steps + 1) task machine) :
    Obeys regime (other.stages context steps after)
      (other.run context steps) after
      fun out last => regime.yields last other out :=
  rules other after (calls.starts lawful rules starts)

/-- An expression, from the tasks that take one step less. -/
theorem obeys_eval_succ
    {expr : Expr}
    (starts : regime.Starts context allowed (steps + 1) (.eval expr) machine) :
    Obeys regime
      ((Task.eval expr).inner context steps machine ++
        (Task.eval expr).closing context steps machine)
      (eval context (steps + 1) expr) machine fun value after =>
        regime.value after value := by
  have asks {other : Task} {after : Machine}
      (calls : Calls context steps (.eval expr) machine other after) :=
    calls.obeys lawful rules starts
  have isPure (value : Value) {after : Machine} (intact : regime.intact after)
      (isValue : regime.value after value) :
      Obeys regime [] (pure value) after fun value after =>
        regime.value after value :=
    .ofPure lawful intact isValue
  cases expr <;>
    simp only [Task.inner, Task.calls, Task.closing, List.flatMap_cons,
      List.flatMap_nil, List.append_nil, List.nil_append, flatMap_onwards]
  case literal value =>
    exact isPure _ starts.intact
      (Regime.value_of_isAtom (Value.isAtom_ofLiteral value))
  case grouping inner => exact asks .grouping
  case unary operator operand =>
    refine (asks .operand).followed lawful fun value after _ passes _ => ?_
    exact obeys_ofExcept lawful passes.moves.intact fun _ =>
      Operator.isAtom_unary
  case binary left operator right =>
    refine (asks .binaryLeft).andThen lawful
      fun value after yields passes _ => ?_
    refine (asks (.binaryRight yields)).followed lawful fun _ _ _ passes _ => ?_
    exact obeys_ofExcept lawful passes.moves.intact fun _ =>
      Operator.isAtom_binary
  case logical left operator right =>
    refine (asks .logicalLeft).andThen lawful
      fun value after yields passes isValue => ?_
    cases settled : Operator.isSettled operator value
    · simp only [Bool.false_eq_true, if_false, List.flatMap_singleton]
      exact asks (.logicalRight yields settled)
    · simp only [if_true]
      exact isPure value passes.moves.intact isValue
  case reference id name =>
    exact (obeys_readVariable lawful starts.intact starts.admits id name).weaken
      fun _ _ _ holds => holds.1 ▸ holds.2
  case assign id name value =>
    refine (asks .assigned).followed lawful
      fun stored after yields passes isValue => ?_
    have same :=
      (Machine.respected_sameContext.keeps_task context steps (.eval value)).ok
      yields
    have hosts := lawful.laterCode passes.moves.keeps starts.admits
    rw [← same.active] at hosts
    refine (obeys_assignVariable lawful passes.moves.intact hosts
      isValue).followed lawful ?_
    exact fun _ _ _ passes isStored =>
      isPure stored passes.moves.intact isStored
  case call callee paren arguments =>
    refine (asks .callee).andThen lawful fun called after yields _ _ => ?_
    refine (asks (.arguments yields)).andThen lawful
      fun passed last yieldsAll passes _ => ?_
    cases callable : called.callee? with
    | none => exact .ofThrow lawful passes.moves.intact _
    | some found =>
        unfold checkArity
        by_cases fits : found.arity = passed.length
        · simp only [fits, if_true, List.flatMap_singleton]
          exact asks (.applied yields yieldsAll callable fits)
        · simp only [fits, if_false]
          exact .ofThrow lawful passes.moves.intact _
  case get object name =>
    refine (asks .object).andThen lawful
      fun held after yields passes isValue => ?_
    cases held with
    | object found =>
        refine obeys_getProperty lawful passes.moves.intact isValue ?_
        intro method isMethod stage member
        refine starts.closes stage (mem_onwards_iff.mpr ⟨_, _, yields, ?_⟩)
        simpa only [isMethod] using member
    | _ => exact .ofThrow lawful passes.moves.intact _
  case set object name value =>
    refine (asks .holder).andThen lawful
      fun held after yields passes isValue => ?_
    cases held with
    | object found =>
        simp only [List.flatMap_singleton]
        refine (asks (.stored yields)).followed lawful
          fun stored last _ passes isStored => ?_
        have isObject := lawful.laterObject passes.moves.keeps isValue
        have moves : regime.Moves last
            { last with
              store :=
                last.store.setField found.identity name.lexeme stored } :=
          lawful.setField passes.moves.intact isObject isStored
        exact .ofOk rfl moves (lawful.laterValue moves.keeps isStored)
    | _ => exact .ofThrow lawful passes.moves.intact _
  case thisRef id keyword =>
    exact (obeys_readVariable lawful starts.intact starts.admits id
      keyword).weaken
      fun _ _ _ holds => holds.1 ▸ holds.2
  case superRef id keyword method =>
    exact obeys_readSuper lawful starts.intact starts.admits starts.closes

/-- A call of anything, from the tasks that take one step less. -/
theorem obeys_apply_succ
    {callee : Callee}
    {arguments : List Value}
    (starts : regime.Starts context allowed (steps + 1)
      (.apply callee arguments) machine) :
    Obeys regime
      ((Task.apply callee arguments).opening machine ++
        (Task.apply callee arguments).inner context steps machine)
      (apply context (steps + 1) callee arguments) machine
      fun value after => regime.value after value := by
  have asks {other : Task} {after : Machine}
      (calls :
        Calls context steps (.apply callee arguments) machine other after) :=
    calls.obeys lawful rules starts
  obtain ⟨isCallee, areValues⟩ := starts.admits
  cases callee with
  | native native =>
      exact obeys_callNative lawful starts.intact starts.isAllowed areValues
  | function function =>
      simp only [Task.opening, Task.inner, Task.calls, List.flatMap_singleton,
        List.nil_append]
      exact asks .function
  | blueprint blueprint =>
      obtain ⟨moves, isObject⟩ := lawful.allocateInstance starts.intact isCallee
      have allocates : Obeys regime [] (allocateInstance blueprint) machine
          fun object after =>
          regime.object after object ∧ regime.blueprint after blueprint :=
        .ofOk rfl moves ⟨isObject, lawful.laterBlueprint moves.keeps isCallee⟩
      simp only [Task.opening, Task.inner, Task.calls, flatMap_onwards,
        onwards_append]
      refine allocates.behind lawful ?_
      rintro object after yields moves ⟨isObject, isClass⟩
      cases found : blueprint.initializer? with
      | none => exact .ofPure lawful moves.intact isObject
      | some initializer =>
          simp only [flatMap_onwards, List.flatMap_singleton]
          have isMethod := lawful.methodOf isClass found
          have areAllowed :
              ∀ stage ∈ Stage.binding initializerName initializer object after,
              allowed stage :=
            fun stage member =>
              starts.opens stage
                (mem_opening_of_initializer arguments yields found member)
          refine (obeys_bind lawful moves.intact isMethod isObject
            areAllowed).andThen lawful ?_
          intro bound last binds passes _
          refine (asks (.initializer yields found binds)).followed lawful ?_
          intro _ final _ further _
          have keeps := lawful.trans passes.moves.keeps further.moves.keeps
          exact .ofPure lawful further.moves.intact
            (lawful.laterObject keeps isObject)

/-- A call of a function, from the tasks that take one step less. -/
theorem obeys_call_succ
    {function : Function}
    {arguments : List Value}
    (starts : regime.Starts context allowed (steps + 1)
      (.call function arguments) machine) :
    Obeys regime
      ((Task.call function arguments).inner context steps machine ++
        (Task.call function arguments).closing context steps machine)
      (call context (steps + 1) function arguments) machine
      fun value after => regime.value after value := by
  obtain ⟨isFunction, areValues⟩ := starts.admits
  obtain ⟨moves, -⟩ := lawful.seatsCall starts.intact isFunction areValues
  have allocates :
      Obeys regime [] (allocate (callFrame function arguments)) machine
      fun _ _ => True :=
    .ofOk rfl moves trivial
  have calls :
      Obeys regime ((Task.call function arguments).inner context steps machine)
      (call context (steps + 1) function arguments) machine fun value after =>
        regime.value after value ∧
          (function.isInitializer = true →
            after.store.lookup? function.closure "this" = some value) := by
    simp only [Task.inner, Task.calls, flatMap_onwards, List.flatMap_cons,
      List.flatMap_nil, List.append_nil]
    refine allocates.behind lawful fun frame after yields moves _ => ?_
    have inside := Calls.obeys lawful rules (.body yields) starts
    refine (Obeys.inFrame lawful moves.intact inside).andThen lawful ?_
    intro flow last yieldsFlow _ _
    have ends := Calls.starts (.result yields yieldsFlow) lawful rules starts
    have result :=
      obeys_callResult lawful ends.intact ends.admits.1 ends.admits.2
    cases steps <;> exact result.task lawful ends.intact ends.admits
  have noted := calls.noting lawful (.called function arguments)
    (fun _ _ => rfl) (fun _ _ => rfl) fun _ _ _ good => good
  exact noted.weaken fun _ _ _ good => good.1

/-- A statement, from the tasks that take one step less. -/
theorem obeys_exec_succ
    {statement : Stmt}
    (starts :
      regime.Starts context allowed (steps + 1) (.exec statement) machine) :
    Obeys regime
      ((Task.exec statement).inner context steps machine ++
        (Task.exec statement).closing context steps machine)
      (exec context (steps + 1) statement) machine fun flow after =>
        regime.flow after flow := by
  have asks {other : Task} {after : Machine}
      (calls : Calls context steps (.exec statement) machine other after) :=
    calls.obeys lawful rules starts
  have normally {α : Type} {step : Run α} {start : Machine}
      {stages : List Stage}
      {good : α → Machine → Prop}
      (obeys : Obeys regime stages step start good) :
      Obeys regime stages (do let _ ← step; return Flow.normal) start
        fun flow after => regime.flow after flow :=
    obeys.followed lawful fun _ _ _ passes _ =>
      .ofPure lawful passes.moves.intact trivial
  cases statement with
  | require keyword path =>
      simp only [Task.inner, Task.calls, Task.closing, List.append_nil,
        flatMap_onwards, List.flatMap_singleton]
      refine (obeys_loadRequired lawful starts.intact keyword path).behind
        lawful ?_
      intro program after loads moves _
      have enters : regime.Moves after
          { after with requiring := path :: after.requiring } :=
        lawful.movesAside moves.intact rfl rfl rfl
      have inside := asks (.required loads)
      exact normally
        (.whileRequiring lawful moves.intact
          (.inFrame lawful enters.intact inside))
  | print value =>
      simp only [Task.inner, Task.calls, Task.closing, List.append_nil,
        List.flatMap_singleton]
      refine (asks .printed).followed lawful fun shown after _ passes _ => ?_
      exact normally (obeys_write lawful passes.moves.intact _)
  | expression value =>
      simp only [Task.inner, Task.calls, Task.closing, List.append_nil,
        List.flatMap_singleton]
      exact normally (asks .stated)
  | varDecl name initializer =>
      cases initializer with
      | none =>
          have isNil : regime.value machine .nil := trivial
          exact normally
            (obeys_define lawful starts.intact starts.admits rfl isNil)
      | some value =>
          simp only [Task.inner, Task.calls, Task.closing, List.append_nil,
            List.flatMap_singleton]
          refine (asks .initialized).followed lawful
            fun stored after yields passes isValue => ?_
          have same :=
            (Machine.respected_sameContext.keeps_task context steps
              (.eval value)).ok yields
          have hosts := lawful.laterCode passes.moves.keeps starts.admits
          rw [← same.active] at hosts
          exact normally
            (obeys_define lawful passes.moves.intact hosts rfl isValue)
  | block body =>
      obtain ⟨moves, -⟩ := lawful.block starts.intact starts.admits
      have allocates :
          Obeys regime [] (allocate ⟨NameMap.empty, some machine.active⟩)
          machine
          fun _ _ => True :=
        .ofOk rfl moves trivial
      simp only [Task.inner, Task.calls, Task.closing, List.append_nil,
        flatMap_onwards, List.flatMap_singleton]
      refine .look
        (allocates.behind lawful fun frame after yields moves _ => ?_)
      have inside := asks (.block yields)
      refine (Obeys.inFrame lawful moves.intact inside).weaken ?_
      rintro flow last - ⟨within, isFlow, leaves⟩
      exact lawful.laterFlow leaves isFlow
  | conditional condition thenBranch elseBranch =>
      simp only [Task.inner, Task.calls, Task.closing, List.append_nil,
        flatMap_onwards, List.flatMap_cons]
      refine (asks .condition).andThen lawful
        fun value after yields passes _ => ?_
      cases truthy : value.isTruthy with
      | true =>
          simp only [if_true, List.flatMap_singleton]
          exact asks (.thenBranch yields truthy)
      | false =>
          simp only [Bool.false_eq_true, if_false]
          cases elseBranch with
          | none => exact .ofPure lawful passes.moves.intact trivial
          | some branch =>
              simp only [List.flatMap_singleton]
              exact asks (.elseBranch yields truthy)
  | loop condition body =>
      simp only [Task.inner, Task.calls, Task.closing, List.append_nil,
        List.flatMap_singleton]
      exact asks .loop
  | funDecl declaration =>
      exact normally (obeys_declareFunction lawful starts.intact starts.admits)
  | ret keyword value =>
      cases value with
      | none => exact .ofPure lawful starts.intact trivial
      | some value =>
          simp only [Task.inner, Task.calls, Task.closing, List.append_nil,
            List.flatMap_singleton]
          refine (asks .returned).followed lawful
            fun returned after _ passes isValue => ?_
          exact .ofPure lawful passes.moves.intact isValue
  | classDecl name superclass methods =>
      have declares := normally
        (obeys_declareClass lawful starts.intact starts.admits starts.isAllowed
          steps starts.closes)
      cases superclass with
      | none => exact declares
      | some named =>
          -- The superclass is read by the declaration itself, not by a task of
          -- its own.
          simp only [Task.inner, Task.calls, List.flatMap_singleton]
          rw [SuperclassRef.expr, Task.stages_reference]
          exact declares.task lawful starts.intact
            (Calls.starts .superclass lawful rules starts).admits

/-- Statements in a row, from the tasks that take one step less. -/
theorem obeys_execAll_succ
    {statements : List Stmt}
    (starts :
      regime.Starts context allowed (steps + 1) (.execAll statements) machine) :
    Obeys regime ((Task.execAll statements).inner context steps machine)
      (execAll context (steps + 1) statements) machine
      fun flow after => regime.flow after flow := by
  cases statements with
  | nil => exact .ofPure lawful starts.intact trivial
  | cons first rest =>
      simp only [Task.inner, Task.calls, flatMap_onwards, List.flatMap_cons]
      refine (Calls.obeys lawful rules .firstStmt starts).andThen lawful ?_
      intro flow after yields passes isFlow
      cases flow with
      | normal =>
          simp only [List.flatMap_singleton]
          exact Calls.obeys lawful rules (.restStmts yields) starts
      | returned value => exact .ofPure lawful passes.moves.intact isFlow

/-- A loop, from the tasks that take one step less. -/
theorem obeys_execLoop_succ
    {condition : Expr}
    {body : Stmt}
    (starts : regime.Starts context allowed (steps + 1)
      (.execLoop condition body) machine) :
    Obeys regime ((Task.execLoop condition body).inner context steps machine)
      (execLoop context (steps + 1) condition body) machine
      fun flow after => regime.flow after flow := by
  simp only [Task.inner, Task.calls, flatMap_onwards, List.flatMap_cons]
  refine (Calls.obeys lawful rules .guard starts).andThen lawful ?_
  intro value after yields passes _
  cases truthy : value.isTruthy with
  | false => exact .ofPure lawful passes.moves.intact trivial
  | true =>
      simp only [if_true, List.flatMap_cons, flatMap_onwards]
      refine (Calls.obeys lawful rules (.repeated yields truthy) starts).andThen
        lawful ?_
      intro flow last yieldsBody passes isFlow
      cases flow with
      | normal =>
          simp only [List.flatMap_singleton]
          exact Calls.obeys lawful rules
            (.again yields truthy yieldsBody) starts
      | returned value => exact .ofPure lawful passes.moves.intact isFlow

/-- A task, from the tasks that take one step less. -/
theorem obeys_succ
    {task : Task}
    (starts : regime.Starts context allowed (steps + 1) task machine) :
    Obeys regime (task.stages context (steps + 1) machine)
      (task.run context (steps + 1)) machine
      fun out after => regime.yields after task out := by
  refine Obeys.task lawful ?_ starts.intact starts.admits
  cases task with
  | eval expr => exact obeys_eval_succ lawful rules starts
  | evalAll exprs =>
      cases exprs with
      | nil => exact .ofPure lawful starts.intact nofun
      | cons first rest =>
          simp only [Task.opening, Task.calls, Task.closing, flatMap_onwards,
            List.flatMap_cons,
            List.flatMap_nil, List.append_nil, List.nil_append]
          refine (Calls.obeys lawful rules .firstExpr starts).andThen lawful ?_
          intro value after yields _ isValue
          refine (Calls.obeys lawful rules (.restExprs yields) starts).followed
            lawful ?_
          intro values last _ passes areValues
          have isFirst := lawful.laterValue passes.moves.keeps isValue
          exact .ofPure lawful passes.moves.intact
            (List.forall_mem_cons.mpr ⟨isFirst, areValues⟩)
  | apply callee arguments =>
      simp only [Task.closing, List.append_nil]
      exact obeys_apply_succ lawful rules starts
  | call function arguments =>
      simp only [Task.opening, List.nil_append]
      exact obeys_call_succ lawful rules starts
  | result function flow =>
      exact (obeys_callResult lawful starts.intact starts.admits.1
        starts.admits.2).weaken
        fun _ _ _ good => good.1
  | exec statement => exact obeys_exec_succ lawful rules starts
  | execAll statements =>
      simp only [Task.opening, Task.closing, List.append_nil, List.nil_append]
      exact obeys_execAll_succ lawful rules starts
  | execLoop condition body =>
      simp only [Task.opening, Task.closing, List.append_nil, List.nil_append]
      exact obeys_execLoop_succ lawful rules starts

end Steps

/-- Without steps left, everything stops where it is, but for the end of a
call. -/
theorem obeys_zero
    (lawful : regime.Lawful context allowed)
    {task : Task}
    (starts : regime.Starts context allowed 0 task machine) :
    Obeys regime (task.stages context 0 machine) (task.run context 0) machine
      fun out after => regime.yields after task out := by
  refine Obeys.task lawful ?_ starts.intact starts.admits
  cases task with
  | result function flow =>
      exact (obeys_callResult lawful starts.intact starts.admits.1
        starts.admits.2).weaken
        fun _ _ _ good => good.1
  | _ => exact .ofThrow lawful starts.intact .exhausted

/-- **All runs obey a regime whose laws hold**, in any number of steps and
however they end. -/
theorem Regime.Lawful.rules
    (lawful : regime.Lawful context allowed)
    (steps : Nat) :
    regime.Rules context allowed steps := by
  induction steps with
  | zero => exact fun _ _ => obeys_zero lawful
  | succ steps inductionHypothesis =>
      exact fun _ _ => obeys_succ lawful inductionHypothesis

end LoxScript
