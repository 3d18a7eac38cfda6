import LoxScript.Proofs.Machine.Addressing
import LoxScript.Proofs.Seclusion.Steps

namespace LoxScript

/-!
# Runs that stay out of earlier frames

A task suits a machine if the code that it is about may be executed in the
active frame, and the values that it is given in their own frames.  A task that
suits a secluded machine leaves a secluded machine, and all tasks that it asks
for on the way suit the machines they are asked for in.
-/

open Run

variable (line : Line)

namespace Task

/-- The task may be done in the machine. -/
def Suits (machine : Machine) : Task → Prop
  | .eval expr => machine.store.Admits line machine.active (.expr expr)
  | .evalAll exprs => machine.store.Admits line machine.active (.exprs exprs)
  | .apply callee arguments =>
      callee.Secluded line machine.store ∧
        ∀ argument ∈ arguments, argument.Secluded line machine.store
  | .call function arguments =>
      function.Secluded line machine.store ∧
        ∀ argument ∈ arguments, argument.Secluded line machine.store
  | .result _ flow => flow.Secluded line machine.store
  | .exec statement =>
      machine.store.Admits line machine.active (.stmt statement)
  | .execAll statements =>
      machine.store.Admits line machine.active (.stmts statements)
  | .execLoop condition body =>
      machine.store.Admits line machine.active (.stmt (.loop condition body))

/-- What the task yields is executed in its own frame only. -/
def Yields (machine : Machine) : (task : Task) → task.Out → Prop
  | .eval _ => fun (value : Value) => value.Secluded line machine.store
  | .evalAll _ =>
      fun (values : List Value) => ∀ value ∈ values,
        value.Secluded line machine.store
  | .apply _ _ => fun (value : Value) => value.Secluded line machine.store
  | .call _ _ => fun (value : Value) => value.Secluded line machine.store
  | .result _ _ => fun (value : Value) => value.Secluded line machine.store
  | .exec _ => fun (flow : Flow) => flow.Secluded line machine.store
  | .execAll _ => fun (flow : Flow) => flow.Secluded line machine.store
  | .execLoop _ _ => fun (flow : Flow) => flow.Secluded line machine.store

end Task

variable {line} {context : Context} {machine middle after : Machine}
  {steps : Nat}

/-- Tasks that suit secluded machines leave secluded machines in so many
steps. -/
def Secluding (line : Line) (context : Context) (steps : Nat) : Prop :=
  ∀ (task : Task) (machine : Machine),
    machine.Secluded line → task.Suits line machine →
    Secludes line (task.run context steps) machine fun out after =>
      task.Yields line after out

/-- What a part includes is made of nodes of the part. -/
theorem Part.Includes.ids_subset
    {part other : Part}
    (includes : part.Includes other) :
    other.ids ⊆ part.ids := by
  cases includes with
  | @condition _ _ elseBranch | @thenBranch _ _ elseBranch =>
      cases elseBranch <;> simp [Part.ids, Part.references, Stmt.references]
  | _ =>
      simp [Part.ids, Part.references, Expr.references, Expr.referencesAll,
        Stmt.references,
        Stmt.referencesAll, FunctionDecl.referencesAll, optionalReferences]

/-- The machine is secluded, and the part may be executed in the active
frame. -/
structure Machine.Hosts (line : Line) (machine : Machine) (part : Part) :
    Prop where
  secluded : machine.Secluded line
  admits : machine.store.Admits line machine.active part

namespace Machine.Hosts

variable {whole other : Part}

/-- What belongs to a part may be executed where the part may be. -/
theorem part
    (hosts : machine.Hosts line whole)
    (within : other.ids ⊆ whole.ids) :
    machine.Hosts line other :=
  ⟨hosts.secluded, hosts.admits.part within⟩

/-- What a part includes may be executed where the part may be. -/
theorem included
    (hosts : machine.Hosts line whole)
    (includes : whole.Includes other) :
    machine.Hosts line other :=
  hosts.part includes.ids_subset

/-- What may be executed may be so later. -/
theorem later
    (hosts : machine.Hosts line whole)
    (extend : machine.Extends after)
    (secluded : after.Secluded line) :
    after.Hosts line whole := by
  refine ⟨secluded, ?_⟩
  rw [extend.active]
  exact hosts.admits.later extend

/-- What may be executed may be so in a new frame. -/
theorem entering
    {bindings : NameMap Value}
    (hosts : machine.Hosts line whole)
    (contents :
      ∀ name value, bindings.find? name = some value →
        value.Secluded line machine.store) :
    Machine.Hosts line (machine.entering ⟨bindings, some machine.active⟩)
      whole := by
  have allocated : Machine.Secluded line
      { machine with
        store := machine.store.allocate ⟨bindings, some machine.active⟩ } :=
    hosts.secluded.allocate contents
  exact ⟨⟨allocated.past, allocated.holds⟩,
    hosts.admits.allocate hosts.secluded.past bindings⟩

end Machine.Hosts

namespace Secluding

variable (secluding : Secluding line context steps)

include secluding

/-- After an expression, what may be executed may be so, and the value is as
wanted. -/
theorem afterEval
    {whole : Part}
    {expr : Expr}
    {value : Value}
    (hosts : machine.Hosts line whole)
    (includes : whole.Includes (.expr expr))
    (yields : eval context steps expr machine = .ok value after) :
    after.Hosts line whole ∧ machine.Extends after ∧
      value.Secluded line after.store := by
  have here := hosts.included includes
  obtain ⟨extend, secluded, isValue⟩ :=
    secluding (.eval expr) machine here.secluded here.admits value after yields
  exact ⟨hosts.later extend secluded, extend, isValue⟩

/-- After a statement, what may be executed may be so. -/
theorem afterExec
    {whole : Part}
    {statement : Stmt}
    {flow : Flow}
    (hosts : machine.Hosts line whole)
    (includes : whole.Includes (.stmt statement))
    (yields : exec context steps statement machine = .ok flow after) :
    after.Hosts line whole := by
  have here := hosts.included includes
  obtain ⟨extend, secluded, -⟩ :=
    secluding (.exec statement) machine here.secluded here.admits
      flow after yields
  exact hosts.later extend secluded

end Secluding

/-- In the frame of a call, the function's body may be executed. -/
theorem Machine.Secluded.entersCall
    {function : Function}
    {arguments : List Value}
    (secluded : machine.Secluded line)
    (isFunction : function.Secluded line machine.store)
    (areSecluded :
      ∀ argument ∈ arguments, argument.Secluded line machine.store) :
    Machine.Hosts line (machine.entering (callFrame function arguments))
      (.stmts function.declaration.body) := by
  have allocated : Machine.Secluded line
      { machine with
        store := machine.store.allocate (callFrame function arguments) } :=
    secluded.allocate fun _ value found =>
      areSecluded value (mem_of_find?_callFrame found)
  have admits := Store.Admits.allocate isFunction secluded.past
    (callFrame function arguments).bindings
  refine ⟨⟨allocated.past, allocated.holds⟩, admits.part ?_⟩
  obtain ⟨_, ⟨_, _, _⟩, _, _⟩ := function
  simp [Part.ids, Part.references, FunctionDecl.references]

/-- A task that is asked for by one that suits the machine suits the machine it
is asked for in. -/
theorem Calls.suits
    {task other : Task}
    (calls : Calls context steps task machine other after)
    (secluding : Secluding line context steps)
    (secluded : machine.Secluded line)
    (suits : task.Suits line machine) :
    after.Secluded line ∧ other.Suits line after := by
  have hosts {whole : Part}
      (admits : machine.store.Admits line machine.active whole) :
      machine.Hosts line whole := ⟨secluded, admits⟩
  have both {whole : Part} {last : Machine} (hosts : last.Hosts line whole) :
      last.Secluded line ∧ last.store.Admits line last.active whole :=
    ⟨hosts.secluded, hosts.admits⟩
  cases calls with
  | grouping => exact both ((hosts suits).included .grouping)
  | operand => exact both ((hosts suits).included .operand)
  | binaryLeft => exact both ((hosts suits).included .binaryLeft)
  | binaryRight yields =>
      exact both ((secluding.afterEval (hosts suits) .binaryLeft
        yields).1.included .binaryRight)
  | logicalLeft => exact both ((hosts suits).included .logicalLeft)
  | logicalRight yields _ =>
      exact both
        ((secluding.afterEval (hosts suits) .logicalLeft yields).1.included
          .logicalRight)
  | assigned => exact both ((hosts suits).included .assigned)
  | callee => exact both ((hosts suits).included .callee)
  | arguments yields =>
      exact both ((secluding.afterEval (hosts suits) .callee yields).1.included
        .arguments)
  | applied yields yieldsAll callable complete =>
      obtain ⟨hostsMiddle, -, isCallee⟩ :=
        secluding.afterEval (hosts suits) .callee yields
      have passing := hostsMiddle.included .arguments
      obtain ⟨extend, secludedAfter, areValues⟩ :=
        secluding (.evalAll _) _ passing.secluded passing.admits _ _ yieldsAll
      exact ⟨secludedAfter, (isCallee.later extend).callee callable, areValues⟩
  | object => exact both ((hosts suits).included .object)
  | holder => exact both ((hosts suits).included .holder)
  | stored yields =>
      exact both ((secluding.afterEval (hosts suits) .holder yields).1.included
        .stored)
  | firstExpr => exact both ((hosts suits).included .firstExpr)
  | restExprs yields =>
      exact both ((secluding.afterEval (hosts suits) .firstExpr
        yields).1.included .restExprs)
  | function => exact ⟨secluded, suits⟩
  | initializer allocates isInitializer binds =>
      obtain ⟨isClass, areSecluded⟩ := suits
      obtain ⟨extend, secludedMiddle, sameClass⟩ :=
        secludes_allocateInstance secluded _ _ _ allocates
      have isClassMiddle := Class.Secluded.later extend isClass
      obtain ⟨extendNext, secludedAfter, isBound⟩ :=
        secludes_bind secludedMiddle (isClassMiddle _ _ isInitializer)
          (sameClass ▸ isClassMiddle) _ _ binds
      exact ⟨secludedAfter, isBound,
        fun argument member =>
          ((areSecluded argument member).later extend).later extendNext⟩
  | body allocates =>
      cases allocates
      exact both (secluded.entersCall suits.1 suits.2)
  | result allocates yields =>
      cases allocates
      have entered := secluded.entersCall suits.1 suits.2
      have inside :=
        secluding (.execAll _) (machine.entering _) entered.secluded
        entered.admits
      obtain ⟨-, secludedAfter, isFlow⟩ :=
        Secludes.inFrame inside (fun _ _ isFlow => isFlow) _ _ yields
      exact ⟨secludedAfter, isFlow⟩
  | printed => exact both ((hosts suits).included .printed)
  | stated => exact both ((hosts suits).included .stated)
  | initialized => exact both ((hosts suits).part (List.Subset.refl _))
  | block allocates =>
      cases allocates
      have nothing : ∀ name value, NameMap.empty.find? name = some value →
          Value.Secluded line machine.store value := nofun
      refine both (((hosts suits).entering nothing).part ?_)
      simp [Part.ids, Part.references, Stmt.references]
  | condition => exact both ((hosts suits).included .condition)
  | thenBranch yields _ =>
      exact both ((secluding.afterEval (hosts suits) .condition
        yields).1.included .thenBranch)
  | elseBranch yields _ =>
      exact both ((secluding.afterEval (hosts suits) .condition
        yields).1.included .elseBranch)
  | loop => exact ⟨secluded, suits⟩
  | returned => exact both ((hosts suits).included .returned)
  | superclass =>
      refine both ((hosts suits).part ?_)
      simp [Part.ids, Part.references, Stmt.references, SuperclassRef.expr,
        SuperclassRef.references, Expr.references, identities]
  | required loads =>
      obtain ⟨-, secludedAfter, -⟩ :=
        secludes_loadRequired secluded _ _ _ _ loads
      exact ⟨⟨secludedAfter.past, secludedAfter.holds⟩, .inr .global⟩
  | firstStmt => exact both ((hosts suits).included .firstStmt)
  | restStmts yields =>
      refine both ((secluding.afterExec (hosts suits) .firstStmt
        yields).part ?_)
      simp [Part.ids, Part.references, Stmt.referencesAll]
  | guard => exact both ((hosts suits).included .guard)
  | repeated yields _ =>
      exact both ((secluding.afterEval (hosts suits) .guard yields).1.included
        .repeated)
  | again yields _ yieldsBody =>
      have hostsMiddle := (secluding.afterEval (hosts suits) .guard yields).1
      exact both (secluding.afterExec hostsMiddle .repeated yieldsBody)

namespace Secluding

variable (secluding : Secluding line context steps)
  (secluded : machine.Secluded line)

include secluding secluded

/-- A task that is asked for by one that suits the machine secludes. -/
theorem asked
    {task other : Task}
    (suits : task.Suits line machine)
    (calls : Calls context steps task machine other after) :
    Secludes line (other.run context steps) after
      fun out last => other.Yields line last out := by
  obtain ⟨secludedThere, suitsThere⟩ := calls.suits secluding secluded suits
  exact secluding other after secludedThere suitsThere

/-- The value of an expression, with one more step. -/
theorem secludes_eval
    {expr : Expr}
    (suits : (Task.eval expr).Suits line machine) :
    Secludes line (eval context (steps + 1) expr) machine
      fun value after => value.Secluded line after.store := by
  cases expr with
  | literal value =>
      exact .ofPure secluded (Value.isAtom_ofLiteral value).secluded
  | grouping inner => exact secluding.asked secluded suits .grouping
  | unary operator operand =>
      apply Secludes.andThen (secluding.asked secluded suits .operand)
      intro value after _ _ secludedAfter _
      exact secludes_ofExcept secludedAfter fun _ => Operator.isAtom_unary
  | binary left operator right =>
      apply Secludes.andThen (secluding.asked secluded suits .binaryLeft)
      intro first middle yields _ _ _
      apply Secludes.andThen
        (secluding.asked secluded suits (.binaryRight yields))
      intro second after _ _ secludedAfter _
      exact secludes_ofExcept secludedAfter fun _ => Operator.isAtom_binary
  | logical left operator right =>
      apply Secludes.andThen (secluding.asked secluded suits .logicalLeft)
      intro first middle yields _ secludedMiddle isFirst
      split
      · exact .ofPure secludedMiddle isFirst
      · rename_i unsettled
        exact secluding.asked secluded suits
          (.logicalRight yields (by simpa using unsettled))
  | reference id name => exact secludes_readVariable secluded id name
  | assign id name value =>
      apply Secludes.andThen (secluding.asked secluded suits .assigned)
      intro stored middle _ _ secludedMiddle isStored
      apply Secludes.andThen
        (secludes_assignVariable secludedMiddle isStored id name)
      intro _ after _ _ secludedAfter isStoredAfter
      exact .ofPure secludedAfter isStoredAfter
  | call callee paren arguments =>
      unfold eval
      apply Secludes.andThen (secluding.asked secluded suits .callee)
      intro called middle yields _ _ _
      apply Secludes.andThen
        (secluding.asked secluded suits (.arguments yields))
      intro passed after yieldsAll _ secludedAfter _
      split
      · rename_i callable isCallable
        apply Secludes.andThen
          (secludes_checkArity secludedAfter callable passed paren)
        rintro _ _ isChecked - - rfl
        unfold checkArity at isChecked
        split at isChecked
        · rename_i complete
          exact secluding.asked secluded suits
            (.applied yields yieldsAll isCallable complete)
        · cases isChecked
      · exact .ofThrow _
  | get object name =>
      apply Secludes.andThen (secluding.asked secluded suits .object)
      intro holder after _ _ secludedAfter isHolder
      cases holder with
      | object found => exact secludes_getProperty secludedAfter isHolder name
      | _ => exact .ofThrow _
  | set object name value =>
      apply Secludes.andThen (secluding.asked secluded suits .holder)
      intro holder middle yields _ _ _
      cases holder with
      | object found =>
          apply Secludes.andThen
            (secluding.asked secluded suits (.stored yields))
          intro stored after _ _ secludedAfter isStored
          apply Secludes.andThen
            (secludes_setField secludedAfter isStored found name.lexeme)
          intro _ last _ extend secludedLast _
          exact .ofPure secludedLast (Value.Secluded.later extend isStored)
      | _ => exact .ofThrow _
  | thisRef id keyword => exact secludes_readVariable secluded id keyword
  | superRef id keyword method =>
      exact secludes_readSuper secluded id keyword method

/-- The values of expressions, with one more step. -/
theorem secludes_evalAll
    {exprs : List Expr}
    (suits : (Task.evalAll exprs).Suits line machine) :
    Secludes line (evalAll context (steps + 1) exprs) machine
      fun values after => ∀ value ∈ values,
      value.Secluded line after.store := by
  cases exprs with
  | nil => exact .ofPure secluded nofun
  | cons first rest =>
      apply Secludes.andThen (secluding.asked secluded suits .firstExpr)
      intro value middle yields _ _ isValue
      apply Secludes.andThen
        (secluding.asked secluded suits (.restExprs yields))
      intro others after _ extend secludedAfter areOthers
      refine .ofPure secludedAfter ?_
      intro found member
      rcases List.mem_cons.mp member with rfl | further
      · exact Value.Secluded.later extend isValue
      · exact areOthers found further

/-- The value of a call, whatever is called, with one more step. -/
theorem secludes_apply
    {callee : Callee}
    {arguments : List Value}
    (lends : context.Lends line)
    (suits : (Task.apply callee arguments).Suits line machine) :
    Secludes line (apply context (steps + 1) callee arguments) machine
      fun value after => value.Secluded line after.store := by
  cases callee with
  | native native => exact secludes_callNative secluded lends suits.2 native
  | function function => exact secluding.asked secluded suits .function
  | blueprint blueprint =>
      have isClass : blueprint.Secluded line machine.store := suits.1
      apply Secludes.andThen (secludes_allocateInstance secluded blueprint)
      intro object allocated allocates extend secludedAllocated sameClass
      have isClassThere := isClass.later extend
      have isObject : object.blueprint.Secluded line allocated.store :=
        sameClass ▸ isClassThere
      split
      · rename_i initializer isInitializer
        apply Secludes.andThen
          (secludes_bind secludedAllocated
            (isClassThere _ _ isInitializer) isObject)
        intro bound middle binds extendBound _ _
        apply Secludes.andThen
          (secluding.asked secluded suits
            (.initializer allocates isInitializer binds))
        intro _ after _ extendCall secludedAfter _
        exact .ofPure secludedAfter
          ((isObject.later extendBound).later extendCall)
      · exact .ofPure secludedAllocated isObject

/-- The value of a function's call, with one more step. -/
theorem secludes_function
    {function : Function}
    {arguments : List Value}
    (suits : (Task.call function arguments).Suits line machine) :
    Secludes line (call context (steps + 1) function arguments) machine
      fun value after => value.Secluded line after.store := by
  have contents : ∀ name value,
      (callFrame function arguments).bindings.find? name = some value →
        value.Secluded line machine.store :=
    fun _ value found => suits.2 value (mem_of_find?_callFrame found)
  have entered := secluded.entersCall suits.1 suits.2
  have inside := secluding (.execAll _) (machine.entering _) entered.secluded
    entered.admits
  apply Secludes.andThen (secludes_allocate secluded contents)
  rintro _ _ - - - ⟨rfl, rfl⟩
  apply Secludes.andThen (Secludes.inFrame inside fun _ _ isFlow => isFlow)
  intro flow after _ _ secludedAfter isFlow
  exact secludes_callResult secludedAfter isFlow function

/-- Executing a statement, with one more step. -/
theorem secludes_exec
    {statement : Stmt}
    (suits : (Task.exec statement).Suits line machine) :
    Secludes line (exec context (steps + 1) statement) machine
      fun flow after => flow.Secluded line after.store := by
  cases statement with
  | print value =>
      apply Secludes.andThen (secluding.asked secluded suits .printed)
      intro shown after _ _ secludedAfter _
      apply Secludes.andThen (secludes_write secludedAfter _)
      intro _ last _ _ secludedLast _
      exact .ofPure secludedLast trivial
  | expression value =>
      apply Secludes.andThen (secluding.asked secluded suits .stated)
      intro _ after _ _ secludedAfter _
      exact .ofPure secludedAfter trivial
  | varDecl name initializer =>
      cases initializer with
      | none =>
          have isNil : Value.nil.Secluded line machine.store := trivial
          apply Secludes.andThen (secludes_define secluded isNil name.lexeme)
          intro _ after _ _ secludedAfter _
          exact .ofPure secludedAfter trivial
      | some initializer =>
          apply Secludes.andThen (secluding.asked secluded suits .initialized)
          intro value middle _ _ secludedMiddle isValue
          apply Secludes.andThen
            (secludes_define secludedMiddle isValue name.lexeme)
          intro _ after _ _ secludedAfter _
          exact .ofPure secludedAfter trivial
  | block body =>
      have nothing : ∀ name value, NameMap.empty.find? name = some value →
          Value.Secluded line machine.store value := nofun
      have inside := secluding.asked secluded suits (.block rfl)
      apply Secludes.look
      apply Secludes.andThen (secludes_allocate secluded nothing)
      rintro _ _ - - - ⟨rfl, rfl⟩
      exact Secludes.inFrame inside fun _ _ isFlow => isFlow
  | conditional condition thenBranch elseBranch =>
      apply Secludes.andThen (secluding.asked secluded suits .condition)
      intro value middle yields _ secludedMiddle _
      split
      · rename_i truthy
        exact secluding.asked secluded suits (.thenBranch yields truthy)
      · rename_i falsy
        cases elseBranch with
        | none => exact .ofPure secludedMiddle trivial
        | some branch =>
            exact secluding.asked secluded suits
              (.elseBranch yields (by simpa using falsy))
  | loop condition body => exact secluding.asked secluded suits .loop
  | funDecl declaration =>
      have admits : machine.store.Admits line machine.active
          (.function declaration) :=
        Store.Admits.part suits
          (by simp [Part.ids, Part.references, Stmt.references])
      apply Secludes.andThen (secludes_declareFunction secluded admits)
      intro _ after _ _ secludedAfter _
      exact .ofPure secludedAfter trivial
  | ret keyword value =>
      cases value with
      | none => exact .ofPure secluded trivial
      | some value =>
          apply Secludes.andThen (secluding.asked secluded suits .returned)
          intro returned after _ _ secludedAfter isReturned
          exact .ofPure secludedAfter isReturned
  | classDecl name superclass methods =>
      have admits : machine.store.Admits line machine.active
          (.functions methods) := by
        apply Store.Admits.part suits
        cases superclass <;> simp [Part.ids, Part.references, Stmt.references]
      apply Secludes.andThen
        (secludes_declareClass secluded admits name superclass)
      intro _ after _ _ secludedAfter _
      exact .ofPure secludedAfter trivial
  | require keyword path =>
      apply Secludes.andThen (secludes_loadRequired secluded keyword path)
      intro program middle loads _ _ _
      have inside := secluding.asked secluded suits (.required loads)
      have included : Secludes line
          (whileRequiring path
            (inFrame globalFrame (execAll context steps program.statements)))
          middle fun _ _ => True := by
        apply Secludes.whileRequiring
        apply Secludes.inFrame
        · exact fun flow after yields => ⟨(inside flow after yields).1,
            (inside flow after yields).2.1, trivial⟩
        · exact fun _ _ _ => trivial
      apply Secludes.andThen included
      intro _ after _ _ secludedAfter _
      exact .ofPure secludedAfter trivial

/-- Executing statements, with one more step. -/
theorem secludes_execAll
    {statements : List Stmt}
    (suits : (Task.execAll statements).Suits line machine) :
    Secludes line (execAll context (steps + 1) statements) machine
      fun flow after => flow.Secluded line after.store := by
  cases statements with
  | nil => exact .ofPure secluded trivial
  | cons first rest =>
      apply Secludes.andThen (secluding.asked secluded suits .firstStmt)
      intro flow middle yields _ secludedMiddle isFlow
      cases flow with
      | normal => exact secluding.asked secluded suits (.restStmts yields)
      | returned value => exact .ofPure secludedMiddle isFlow

/-- Executing a loop, with one more step. -/
theorem secludes_execLoop
    {condition : Expr}
    {body : Stmt}
    (suits : (Task.execLoop condition body).Suits line machine) :
    Secludes line (execLoop context (steps + 1) condition body) machine
      fun flow after => flow.Secluded line after.store := by
  apply Secludes.andThen (secluding.asked secluded suits .guard)
  intro value middle yields _ secludedMiddle _
  split
  · rename_i truthy
    apply Secludes.andThen
      (secluding.asked secluded suits (.repeated yields truthy))
    intro flow after yieldsBody _ secludedAfter isFlow
    cases flow with
    | normal =>
        exact secluding.asked secluded suits (.again yields truthy yieldsBody)
    | returned value => exact .ofPure secludedAfter isFlow
  · exact .ofPure secludedMiddle trivial

end Secluding

/-- However many steps there are, tasks that suit secluded machines leave
secluded machines. -/
theorem secluding_always
    (lends : context.Lends line)
    (steps : Nat) :
    Secluding line context steps := by
  induction steps with
  | zero =>
      intro task machine secluded suits
      cases task with
      | result function flow =>
          exact secludes_callResult secluded suits function
      | _ => exact .ofThrow _
  | succ steps inductionHypothesis =>
      intro task machine secluded suits
      cases task with
      | eval expr => exact inductionHypothesis.secludes_eval secluded suits
      | evalAll exprs =>
          exact inductionHypothesis.secludes_evalAll secluded suits
      | apply callee arguments =>
          exact inductionHypothesis.secludes_apply secluded lends suits
      | call function arguments =>
          exact inductionHypothesis.secludes_function secluded suits
      | result function flow =>
          exact secludes_callResult secluded suits function
      | exec statement => exact inductionHypothesis.secludes_exec secluded suits
      | execAll statements =>
          exact inductionHypothesis.secludes_execAll secluded suits
      | execLoop condition body =>
          exact inductionHypothesis.secludes_execLoop secluded suits

/-- Every task that is reached from one that suits a secluded machine suits the
machine it is reached in. -/
theorem Reaches.suits
    {start task : Task}
    {initial : Machine}
    (reaches : Reaches context start initial task machine)
    (lends : context.Lends line)
    (secluded : initial.Secluded line)
    (suits : start.Suits line initial) :
    machine.Secluded line ∧ task.Suits line machine := by
  induction reaches with
  | here => exact ⟨secluded, suits⟩
  | call steps _ calls inductionHypothesis =>
      obtain ⟨secludedHere, suitsHere⟩ := inductionHypothesis
      exact calls.suits (secluding_always lends steps) secludedHere suitsHere

/-- The line that is drawn at a machine. -/
def Machine.drawn (machine : Machine) : Line :=
  ⟨machine.nextNode, machine.store.nextFrame⟩

section Drawn

variable {offered : ByteArray → Prop} {program : Program} {scopes : List Scope}
  {part : Part}

/-- Code that is known at a machine is early. -/
theorem Program.Places.early
    (places : program.Places part scopes)
    (knows : machine.Knows offered program) :
    part.Early machine.drawn := by
  obtain ⟨source, first, next, -, accepted, below, -⟩ := knows
  obtain ⟨analysis, visits, -⟩ := places
  have compiled := Program.compiled_of_compile accepted
  obtain ⟨final, -, reached⟩ := compiled.reached visits
  intro id member
  obtain ⟨reference, isReference, rfl⟩ := List.mem_map.mp member
  have inProgram := reached.references.subset isReference
  exact Nat.lt_of_lt_of_le (compiled.handed.within reference inProgram).2 below

/-- A sound value is executed in its own frame only, whatever the frames are,
since its code is early. -/
theorem Value.Sound.secluded
    {value : Value}
    (sound : value.Sound offered machine)
    (store : Store) :
    value.Secluded machine.drawn store := by
  have ofClass {blueprint : Class} (isClass : blueprint.Sound offered machine) :
      blueprint.Secluded machine.drawn store := by
    intro name method isMethod
    obtain ⟨program, outer, knows, places, -⟩ := isClass name method isMethod
    exact .inl (places.early knows)
  cases value with
  | function function =>
      obtain ⟨program, scopes, knows, places, -⟩ := sound
      exact .inl (places.early knows)
  | blueprint blueprint => exact ofClass sound
  | object object => exact ofClass sound
  | _ => trivial

variable (sound : machine.Sound offered context)

include sound

/-- Everything that a sound machine holds is executed in its own frame only. -/
theorem Machine.Sound.secluded :
    machine.Secluded machine.drawn :=
  ⟨Nat.le_refl _,
    fun frame name value found =>
      (sound.values frame name value found).secluded _,
    fun object name value found =>
      (sound.fields object name value found).secluded _⟩

/-- So is everything that the natives may give it. -/
theorem Machine.Sound.lends :
    context.Lends machine.drawn := by
  intro native member arguments world value after yields
  rcases sound.natives native member arguments world value after yields with
    isAtom | passed | isSound
  · exact .inl isAtom
  · exact .inr (.inl passed)
  · exact .inr (.inr isSound.secluded)

end Drawn

end LoxScript
