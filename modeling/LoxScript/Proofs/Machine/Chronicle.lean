import LoxScript.Proofs.Machine.Trace
import LoxScript.Proofs.Session.Restoration

namespace LoxScript

/-!
# Chronicles

A chronicle lists in order what happens while a task is done: that the evaluator
comes to a task, that it has the value of an expression, that it loads a source,
sets a field or completes a declaration.  What is listed of each of these is up
to the chronicle.  What a list tells of the machines at its ends is to be shown
for these steps only; of all others it is enough that nothing is to be told.
-/

open Run

/-- What is listed of the steps that count. -/
structure Chronicle (β : Type) where
  /-- The evaluator comes to a task. -/
  comes : Task → Machine → List β
  /-- It loads a required source, or tries to. -/
  loads : Context → Token → String → Machine → List β
  /-- It is about to set a field of an instance. -/
  sets : Instance → String → Value → Machine → List β
  /-- It has completed a declaration that it came to in the first machine. -/
  declares : Stmt → Machine → Machine → List β
  /-- It has the value of an expression. -/
  yields : Expr → Value → Machine → List β

namespace Chronicle

variable (chronicle : Chronicle β)

/-- What a task does itself before it asks for other tasks. -/
def opening (context : Context) : Task → Machine → List β
  | .exec (.require keyword path), machine =>
      chronicle.loads context keyword path machine
  | _, _ => []

/-- What an expression does itself after the tasks that it asks for. -/
def storing (context : Context) (steps : Nat) : Expr → Machine → List β
  | .set object name value, machine =>
      (LoxScript.eval context steps object).onwards machine fun held middle =>
        match held with
        | .object found =>
            (LoxScript.eval context steps value).onwards middle
              fun stored after =>
                chronicle.sets found name.lexeme stored after
        | _ => []
  | _, _ => []

/-- What a task does itself after the tasks that it asks for. -/
def closing (context : Context) (steps : Nat) : Task → Machine → List β
  | .eval expr, machine =>
      chronicle.storing context steps expr machine ++
        (LoxScript.eval context (steps + 1) expr).onwards machine
        fun value after =>
          chronicle.yields expr value after
  | .exec statement, machine =>
      match statement.declared? with
      | some _ =>
          (LoxScript.exec context (steps + 1) statement).onwards machine
            fun _ after =>
              chronicle.declares statement machine after
      | none => []
  | _, _ => []

/-- What happens while a task is done in a number of steps. -/
def list (context : Context) : Nat → Task → Machine → List β
  | 0, task, machine => chronicle.comes task machine
  | steps + 1, task, machine =>
      chronicle.comes task machine ++
        (chronicle.opening context task machine ++
          (((task.calls context steps machine).flatMap fun call =>
            list context steps call.1 call.2) ++
          chronicle.closing context steps task machine))

/-- What happens in the tasks that a task asks for. -/
def within (context : Context) (steps : Nat) (task : Task) (machine : Machine) :
    List β :=
  (task.calls context steps machine).flatMap fun call =>
    chronicle.list context steps call.1 call.2

/-- What happens in a task is done by the task itself or happens in one that it
asks for. -/
theorem mem_list_succ_iff
    {context : Context}
    {steps : Nat}
    {task : Task}
    {machine : Machine}
    {item : β} :
    item ∈ chronicle.list context (steps + 1) task machine ↔
      item ∈ chronicle.comes task machine ∨
        item ∈ chronicle.opening context task machine ∨
        (∃ other after, Calls context steps task machine other after ∧
          item ∈ chronicle.list context steps other after) ∨
        item ∈ chronicle.closing context steps task machine := by
  simp only [list, List.mem_append, List.mem_flatMap, Prod.exists,
    Task.mem_calls_iff]

/-- What a list tells of the machines before and after. -/
structure Tells (tells : Machine → List β → Machine → Prop) : Prop where
  stay : ∀ machine, tells machine [] machine
  append :
    ∀ {before middle after first second}, tells before first middle →
      tells middle second after →
      tells before (first ++ second) after
  nothing : ∀ {before after}, Machine.QuietChange before after →
    tells before [] after
  inFrame :
    ∀ {machine after list} (frame : FrameId),
      tells { machine with active := frame } list after →
      tells machine list { after with active := machine.active }
  whileRequiring :
    ∀ {machine after list} (path : String),
      tells { machine with requiring := path :: machine.requiring } list after →
        tells machine list { after with requiring := after.requiring.tail }
  comes : ∀ task machine, tells machine (chronicle.comes task machine) machine
  loads :
    ∀ context keyword path machine,
      Leads (loadRequired context keyword path) machine
        (fun _ after =>
          tells machine (chronicle.loads context keyword path machine) after)
        (fun _ after =>
          tells machine (chronicle.loads context keyword path machine) after)
  sets :
    ∀ object name value machine,
      tells machine (chronicle.sets object name value machine)
        { machine with
          store := machine.store.setField object.identity name value }
  /-- A name that has just been defined may be defined again. -/
  redefines :
    ∀ {machine later : Machine} {name first second},
      later.active = machine.active →
      tells (machine.defining name first) [] later →
        tells (machine.defining name first) [] (later.defining name second)
  declares :
    ∀ {statement name start machine after value},
      statement.declared? = some name →
      machine.active = start.active →
        tells (machine.defining name value) [] after →
        tells machine (chronicle.declares statement start after) after
  yields : ∀ expr value machine,
    tells machine (chronicle.yields expr value machine) machine

end Chronicle

variable {chronicle : Chronicle β} {tells : Machine → List β → Machine → Prop}

/-- Nothing is told of quiet changes, nor of several of them. -/
theorem Chronicle.Tells.quiet
    (lawful : chronicle.Tells tells) :
    Machine.Quiet fun before after => tells before [] after where
  refl := lawful.stay
  trans first second := lawful.append first second
  quiet := lawful.nothing

/-- However the step ends, the list tells of it. -/
def Run.Told
    (tells : Machine → List β → Machine → Prop)
    (list : List β)
    (step : Run α)
    (machine : Machine) : Prop :=
  Leads step machine (fun _ after => tells machine list after)
    (fun _ after => tells machine list after)

namespace Run.Told

variable {machine : Machine} {list : List β} {step : Run α}

/-- A step of which nothing is told. -/
theorem ofKeeps
    (keeps : Keeps (fun before after => tells before [] after) step)
    (machine : Machine) :
    Told tells [] step machine :=
  keeps machine

/-- A step that looks at the machine first. -/
theorem look
    {next : Machine → Run γ}
    (told : Told tells list (next machine) machine) :
    Told tells list (get >>= next) machine :=
  told

variable (lawful : chronicle.Tells tells)

include lawful

/-- One step after the other. -/
theorem andThen
    {next : α → Run γ}
    {rest : α → Machine → List β}
    (told : Told tells list step machine)
    (toldNext :
      ∀ value after, step machine = .ok value after →
        Told tells (rest value after) (next value) after) :
    Told tells (list ++ step.onwards machine rest) (step >>= next) machine := by
  unfold Told Leads onwards at *
  cases outcome : step machine with
  | error halt after =>
      simp only [outcome] at told
      rw [bind_of_error outcome]
      simpa using told
  | ok value middle =>
      simp only [outcome] at told
      have toldRest := toldNext value middle outcome
      rw [bind_of_ok outcome]
      split at toldRest
      · exact lawful.append told toldRest
      · exact lawful.append told toldRest

/-- Nothing is told of the second step. -/
theorem followed
    {next : α → Run γ}
    (told : Told tells list step machine)
    (keeps : ∀ value, Keeps (fun before after => tells before [] after)
      (next value)) :
    Told tells list (step >>= next) machine := by
  have both : Told tells (list ++ step.onwards machine fun _ _ => [])
      (step >>= next) machine :=
    told.andThen lawful fun value after _ => keeps value after
  have none : step.onwards machine (fun _ _ => ([] : List β)) = [] := by
    unfold onwards
    cases step machine <;> rfl
  rwa [none, List.append_nil] at both

/-- Nothing is told of the first step. -/
theorem behind
    {next : α → Run γ}
    {rest : α → Machine → List β}
    (keeps : Keeps (fun before after => tells before [] after) step)
    (toldNext :
      ∀ value after, step machine = .ok value after →
        Told tells (rest value after) (next value) after) :
    Told tells (step.onwards machine rest) (step >>= next) machine :=
  (ofKeeps keeps machine).andThen lawful toldNext

/-- A step in another frame. -/
theorem inFrame
    {frame : FrameId}
    (told : Told tells list step { machine with active := frame }) :
    Told tells list (Run.inFrame frame step) machine := by
  unfold Told Leads Run.inFrame at *
  cases outcome : step { machine with active := frame } <;>
    simp only [outcome] at told ⊢ <;>
    exact lawful.inFrame frame told

/-- A step as part of a required source. -/
theorem whileRequiring
    {path : String}
    (told : Told tells list step
      { machine with requiring := path :: machine.requiring }) :
    Told tells list (Run.whileRequiring path step) machine := by
  unfold Told Leads Run.whileRequiring at *
  cases outcome :
    step { machine with requiring := path :: machine.requiring } <;>
    simp only [outcome] at told ⊢ <;>
    exact lawful.whileRequiring path told

/-- What a step has yielded is noted. -/
theorem noting
    (note : α → Machine → List β)
    (told : Told tells list step machine)
    (notes : ∀ value after, tells after (note value after) after) :
    Told tells (list ++ step.onwards machine note) step machine := by
  unfold Told Leads onwards at *
  cases outcome : step machine with
  | error halt after =>
      simp only [outcome] at told
      simpa using told
  | ok value after =>
      simp only [outcome] at told
      exact lawful.append told (notes value after)

/-- The evaluator comes to a task first. -/
theorem comes
    (task : Task)
    (told : Told tells list step machine) :
    Told tells (chronicle.comes task machine ++ list) step machine :=
  Leads.weaken told (fun _ _ => lawful.append (lawful.comes task machine))
    fun _ _ =>
      lawful.append (lawful.comes task machine)

/-- A declaration is completed when its name is defined, but for what is not to
be told. -/
theorem declared
    {step : Run γ}
    {statement : Stmt}
    {name : Token}
    (declares : statement.declared? = some name)
    (leads :
      Leads step machine
        (fun _ after =>
          ∃ middle value, tells machine list middle ∧
            middle.active = machine.active ∧
            tells (middle.defining name value) [] after)
        (fun _ after => tells machine list after)) :
    Told tells (list ++ step.onwards machine fun _ after =>
      chronicle.declares statement machine after) step machine := by
  unfold Told Leads onwards at *
  cases outcome : step machine with
  | error halt after =>
      simp only [outcome] at leads
      simpa using leads
  | ok value after =>
      simp only [outcome] at leads
      obtain ⟨middle, held, told, same, rest⟩ := leads
      exact lawful.append told (lawful.declares declares same rest)

end Run.Told

/-- Once its superclass is found, a class is established by defining its name,
by what is not to be told, and by defining the name again. -/
theorem Run.establishClass_yields
    {related : Machine → Machine → Prop}
    (quiet : Machine.Quiet related)
    (name : Token)
    (methods : List FunctionDecl)
    (parent : Option Class)
    (machine : Machine) :
    ∃ later value,
      establishClass name methods parent machine =
        .ok () (later.defining name value) ∧
        later.active = machine.active ∧
        related (machine.defining name .nil) later := by
  obtain ⟨closure, framed, frames⟩ : ∃ closure framed,
      methodFrame parent (machine.defining name .nil) = .ok closure framed := by
    cases parent <;> exact ⟨_, _, rfl⟩
  obtain ⟨table, closed, closes, same, -⟩ :=
    closeOverMethods_eq_ok closure NameMap.empty methods framed
  have sameFramed :=
    (Machine.respected_sameContext.keeps_methodFrame parent).ok frames
  refine ⟨{ closed with store := closed.store.skipIdentity },
    .blueprint ⟨closed.store.nextIdentity, name.lexeme, parent, table⟩, ?_,
    same.trans sameFramed.active, ?_⟩
  · exact (bind_of_ok rfl).trans
      ((bind_of_ok frames).trans ((bind_of_ok closes).trans rfl))
  · exact quiet.trans ((quiet.keeps_methodFrame parent).ok frames)
      (quiet.trans ((quiet.keeps_closeOverMethods _ _ _).ok closes)
        (quiet.quiet (.skipIdentity closed)))

section Steps

variable {context : Context} {steps : Nat} {machine : Machine}
variable (lawful : chronicle.Tells tells)

include lawful

variable
  (told :
    ∀ (task : Task) (machine : Machine),
      Told tells (chronicle.list context steps task machine)
        (task.run context steps) machine)

include told

omit lawful in
/-- What is listed of the superclass of a class, which is only looked up. -/
theorem told_superclass
    (named : SuperclassRef)
    (machine : Machine) :
    tells machine (chronicle.list context steps (.eval named.expr) machine)
      machine := by
  have reads := told (.eval named.expr) machine
  have stays : Leads (eval context steps named.expr) machine
      (fun _ after => after = machine)
      (fun _ after => after = machine) := by
    cases steps with
    | zero => exact .ofThrow rfl
    | succ steps => exact leads_readVariable named.id named.name machine
  unfold Told Leads Task.run at *
  cases outcome : eval context steps named.expr machine <;>
    simp only [outcome] at reads stays <;>
    exact stays ▸ reads

/-- An expression but for its value, from the tasks that take one step less. -/
theorem told_evaluation_succ
    (expr : Expr) :
    Told tells
      (chronicle.within context steps (.eval expr) machine ++
        chronicle.storing context steps expr machine)
      (eval context (steps + 1) expr) machine := by
  have quiet := lawful.quiet
  have evals (inner : Expr) (machine : Machine) :
      Told tells (chronicle.list context steps (.eval inner) machine)
        (eval context steps inner) machine :=
    told (.eval inner) machine
  cases expr <;>
    simp only [Chronicle.within, Chronicle.storing, Task.calls,
      List.flatMap_cons, List.flatMap_nil, List.append_nil, flatMap_onwards]
  case literal value => exact quiet.keeps_pure _ machine
  case grouping inner => exact evals inner machine
  case unary operator operand =>
    exact (evals operand machine).followed lawful fun _ =>
      quiet.keeps_ofExcept _
  case binary left operator right =>
    exact (evals left machine).andThen lawful fun _ after _ =>
      (evals right after).followed lawful fun _ => quiet.keeps_ofExcept _
  case logical left operator right =>
    refine (evals left machine).andThen lawful fun value after _ => ?_
    cases settled : Operator.isSettled operator value
    · simpa [settled] using evals right after
    · simpa [settled] using .ofKeeps (quiet.keeps_pure _) after
  case reference id name => exact quiet.keeps_readVariable id name machine
  case assign id name value =>
    exact (evals value machine).followed lawful fun stored =>
      quiet.andThen (quiet.keeps_assignVariable id name stored) fun _ =>
        quiet.keeps_pure stored
  case call callee paren arguments =>
    refine (evals callee machine).andThen lawful fun called after _ => ?_
    refine (told (.evalAll arguments) after).andThen lawful
      fun passed last _ => ?_
    cases isCallable : called.callee? with
    | none => exact quiet.keeps_throw _ last
    | some callable =>
        unfold checkArity
        by_cases fits : callable.arity = passed.length
        · have applies :
              Told tells (chronicle.list context steps
              (.apply callable passed) last)
              (apply context steps callable passed) last :=
            told (.apply callable passed) last
          simpa [fits] using applies
        · simpa [fits] using .ofKeeps (quiet.keeps_throw _) last
  case get object name =>
    refine (evals object machine).followed lawful fun held => ?_
    cases held with
    | object found => exact quiet.keeps_getProperty found name
    | _ => exact quiet.keeps_throw _
  case set object name value =>
    rw [List.append_assoc, onwards_append]
    refine (evals object machine).andThen lawful fun held after _ => ?_
    cases held with
    | object found =>
        simp only [List.flatMap_singleton]
        refine (evals value after).andThen lawful fun stored last _ => ?_
        exact lawful.sets found name.lexeme stored last
    | _ => exact quiet.keeps_throw _ after
  case thisRef id keyword => exact quiet.keeps_readVariable id keyword machine
  case superRef id keyword method =>
    exact quiet.keeps_readSuper id keyword method machine

/-- An expression, from the tasks that take one step less. -/
theorem told_eval_succ
    (expr : Expr) :
    Told tells
      (chronicle.within context steps (.eval expr) machine ++
        chronicle.closing context steps (.eval expr) machine)
      (eval context (steps + 1) expr) machine := by
  unfold Chronicle.closing
  rw [← List.append_assoc]
  exact (told_evaluation_succ lawful told expr).noting lawful _
    (lawful.yields expr)

/-- A call of anything, from the tasks that take one step less. -/
theorem told_apply_succ
    (callee : Callee)
    (arguments : List Value) :
    Told tells (chronicle.within context steps
      (.apply callee arguments) machine)
      (apply context (steps + 1) callee arguments) machine := by
  have quiet := lawful.quiet
  cases callee with
  | native native =>
      exact quiet.keeps_callNative context native arguments machine
  | function function =>
      simp only [Chronicle.within, Task.calls, List.flatMap_singleton]
      exact told (.call function arguments) machine
  | blueprint blueprint =>
      simp only [Chronicle.within, Task.calls, flatMap_onwards]
      refine .behind lawful (quiet.keeps_quietly .allocateInstance)
        fun object after _ => ?_
      cases blueprint.initializer? with
      | none => exact quiet.keeps_pure _ after
      | some initializer =>
          simp only [flatMap_onwards, List.flatMap_singleton]
          refine .behind lawful (quiet.keeps_bind initializer object)
            fun bound last _ => ?_
          exact (told (.call bound arguments) last).followed lawful fun _ =>
            quiet.keeps_pure _

/-- A declaration, from the tasks that take one step less. -/
theorem told_declaration_succ
    {statement : Stmt}
    {name : Token}
    (declares : statement.declared? = some name) :
    Told tells
      (chronicle.within context steps (.exec statement) machine ++
        chronicle.closing context steps (.exec statement) machine)
      (exec context (steps + 1) statement) machine := by
  have quiet := lawful.quiet
  unfold Chronicle.closing
  simp only [declares]
  refine .declared lawful declares ?_
  cases statement <;> cases declares
  case varDecl initializer =>
    cases initializer with
    | none => exact ⟨machine, .nil, lawful.stay machine, rfl, lawful.stay _⟩
    | some initializer =>
        simp only [Chronicle.within, Task.calls, List.flatMap_singleton]
        have inner := told (.eval initializer) machine
        unfold Leads
        cases outcome : eval context steps initializer machine with
        | error halt after =>
            rw [exec, bind_of_error outcome]
            exact inner.error outcome
        | ok value after =>
            have same := (Machine.respected_sameContext.keeps_task context steps
              (.eval initializer)).ok outcome
            rw [exec, bind_of_ok outcome]
            exact ⟨after, value, inner.ok outcome, same.active, lawful.stay _⟩
  case funDecl declaration =>
    exact ⟨_, _, lawful.nothing (.skipIdentity machine), rfl, lawful.stay _⟩
  case classDecl superclass methods =>
    have inner : tells machine (chronicle.within context steps
        (.exec (.classDecl name superclass methods)) machine) machine := by
      cases superclass with
      | none => exact lawful.stay machine
      | some named =>
          simp only [Chronicle.within, Task.calls, List.flatMap_singleton]
          exact told_superclass told named machine
    have finding := quiet.keeps_findSuperclass name superclass
    unfold Leads
    rw [exec, declareClass_eq]
    cases outcome : findSuperclass name superclass machine with
    | error halt middle =>
        rw [bind_of_error (bind_of_error outcome)]
        simpa using lawful.append inner (finding.error outcome)
    | ok parent middle =>
        have same :=
          (Machine.respected_sameContext.keeps_findSuperclass name
            superclass).ok outcome
        obtain ⟨later, value, yields, active, moves⟩ :=
          establishClass_yields quiet name methods parent middle
        rw [bind_of_ok ((bind_of_ok outcome).trans yields)]
        refine ⟨middle, .nil, ?_, same.active, lawful.redefines active moves⟩
        simpa using lawful.append inner (finding.ok outcome)

/-- A statement, from the tasks that take one step less. -/
theorem told_exec_succ
    (statement : Stmt) :
    Told tells
      (chronicle.opening context (.exec statement) machine ++
        (chronicle.within context steps (.exec statement) machine ++
          chronicle.closing context steps (.exec statement) machine))
      (exec context (steps + 1) statement) machine := by
  have quiet := lawful.quiet
  have evals (expr : Expr) (machine : Machine) :
      Told tells (chronicle.list context steps (.eval expr) machine)
        (eval context steps expr) machine :=
    told (.eval expr) machine
  have normally {γ : Type} {step : Run γ} {machine : Machine} {list : List β}
      (toldStep : Told tells list step machine) :
      Told tells list (do let _ ← step; return Flow.normal) machine :=
    toldStep.followed lawful fun _ => quiet.keeps_pure _
  cases statement with
  | varDecl name initializer => exact told_declaration_succ lawful told rfl
  | funDecl declaration => exact told_declaration_succ lawful told rfl
  | classDecl name superclass methods =>
      exact told_declaration_succ lawful told rfl
  | require keyword path =>
      have loads : Told tells (chronicle.loads context keyword path machine)
          (loadRequired context keyword path) machine :=
            lawful.loads context keyword path machine
      simp only [Chronicle.opening, Chronicle.within, Chronicle.closing,
        Stmt.declared?, Task.calls,
        flatMap_onwards, List.flatMap_singleton, List.append_nil]
      refine loads.andThen lawful fun program after _ => ?_
      have inner : Told tells
          (chronicle.list context steps (.execAll program.statements)
            { after with
              requiring := path :: after.requiring, active := globalFrame })
          (execAll context steps program.statements)
          { after with
            requiring := path :: after.requiring, active := globalFrame } :=
        told (.execAll program.statements) _
      exact normally (.whileRequiring lawful (.inFrame lawful inner))
  | print value =>
      simp only [Chronicle.opening, Chronicle.within, Chronicle.closing,
        Stmt.declared?, Task.calls,
        List.nil_append, List.flatMap_singleton, List.append_nil]
      exact (evals value machine).followed lawful fun _ =>
        quiet.andThen (quiet.keeps_write _) fun _ => quiet.keeps_pure _
  | expression value =>
      simp only [Chronicle.opening, Chronicle.within, Chronicle.closing,
        Stmt.declared?, Task.calls,
        List.nil_append, List.flatMap_singleton, List.append_nil]
      exact normally (evals value machine)
  | block body =>
      simp only [Chronicle.opening, Chronicle.within, Chronicle.closing,
        Stmt.declared?, Task.calls,
        List.nil_append, List.flatMap_singleton, List.append_nil,
          flatMap_onwards]
      refine .look
        (.behind lawful (quiet.keeps_allocate _) fun frame after _ => ?_)
      exact .inFrame lawful (told (.execAll body) _)
  | conditional condition thenBranch elseBranch =>
      simp only [Chronicle.opening, Chronicle.within, Chronicle.closing,
        Stmt.declared?, Task.calls,
        List.nil_append, List.flatMap_cons, List.append_nil, flatMap_onwards]
      refine (evals condition machine).andThen lawful fun value after _ => ?_
      cases value.isTruthy with
      | true =>
          simp only [if_true, List.flatMap_singleton]
          exact told (.exec thenBranch) after
      | false =>
          simp only [Bool.false_eq_true, if_false]
          cases elseBranch with
          | none => exact quiet.keeps_pure _ after
          | some branch =>
              simp only [List.flatMap_singleton]
              exact told (.exec branch) after
  | loop condition body =>
      simp only [Chronicle.opening, Chronicle.within, Chronicle.closing,
        Stmt.declared?, Task.calls,
        List.nil_append, List.flatMap_singleton, List.append_nil]
      exact told (.execLoop condition body) machine
  | ret keyword value =>
      cases value with
      | none => exact quiet.keeps_pure _ machine
      | some value =>
          simp only [Chronicle.opening, Chronicle.within, Chronicle.closing,
            Stmt.declared?,
            Task.calls, List.nil_append, List.flatMap_singleton,
              List.append_nil]
          exact (evals value machine).followed lawful fun _ =>
            quiet.keeps_pure _

/-- Statements in a row, from the tasks that take one step less. -/
theorem told_execAll_succ
    (statements : List Stmt) :
    Told tells (chronicle.within context steps (.execAll statements) machine)
      (execAll context (steps + 1) statements) machine := by
  have quiet := lawful.quiet
  cases statements with
  | nil => exact quiet.keeps_pure _ machine
  | cons first rest =>
      simp only [Chronicle.within, Task.calls, flatMap_onwards,
        List.flatMap_cons]
      refine Told.andThen lawful (told (.exec first) machine)
        fun flow after _ => ?_
      cases flow with
      | normal =>
          simp only [List.flatMap_singleton]
          exact told (.execAll rest) after
      | returned value => exact quiet.keeps_pure _ after

/-- A loop, from the tasks that take one step less. -/
theorem told_execLoop_succ
    (condition : Expr)
    (body : Stmt) :
    Told tells (chronicle.within context steps
      (.execLoop condition body) machine)
      (execLoop context (steps + 1) condition body) machine := by
  have quiet := lawful.quiet
  simp only [Chronicle.within, Task.calls, flatMap_onwards, List.flatMap_cons]
  refine Told.andThen lawful (told (.eval condition) machine)
    fun value after _ => ?_
  cases value.isTruthy with
  | false => exact quiet.keeps_pure _ after
  | true =>
      simp only [if_true, List.flatMap_cons, flatMap_onwards]
      refine Told.andThen lawful (told (.exec body) after) fun flow last _ => ?_
      cases flow with
      | normal =>
          simp only [List.flatMap_singleton]
          exact told (.execLoop condition body) last
      | returned value => exact quiet.keeps_pure _ last

/-- A task, from the tasks that take one step less. -/
theorem told_succ
    (task : Task) :
    Told tells (chronicle.list context (steps + 1) task machine)
      (task.run context (steps + 1)) machine := by
  have quiet := lawful.quiet
  refine Told.comes lawful task ?_
  cases task with
  | eval expr => exact told_eval_succ lawful told expr
  | evalAll exprs =>
      cases exprs with
      | nil => exact quiet.keeps_pure _ machine
      | cons first rest =>
          simp only [Chronicle.opening, Chronicle.closing, Task.calls,
            flatMap_onwards,
            List.flatMap_cons, List.flatMap_nil, List.append_nil,
              List.nil_append]
          refine Told.andThen lawful (told (.eval first) machine)
            fun value after _ => ?_
          exact (told (.evalAll rest) after).followed lawful fun _ =>
            quiet.keeps_pure _
  | apply callee arguments =>
      simp only [Chronicle.opening, Chronicle.closing, List.append_nil,
        List.nil_append]
      exact told_apply_succ lawful told callee arguments
  | call function arguments =>
      simp only [Chronicle.opening, Chronicle.closing, Task.calls,
        flatMap_onwards,
        List.flatMap_cons, List.flatMap_nil, List.append_nil, List.nil_append]
      refine .behind lawful (quiet.keeps_allocate _) fun frame after _ => ?_
      refine (Told.inFrame lawful
        (told (.execAll function.declaration.body) _)).andThen lawful
        fun flow last _ => ?_
      exact told (.result function flow) last
  | result function flow => exact quiet.keeps_callResult function flow machine
  | exec statement => exact told_exec_succ lawful told statement
  | execAll statements =>
      simp only [Chronicle.opening, Chronicle.closing, List.append_nil,
        List.nil_append]
      exact told_execAll_succ lawful told statements
  | execLoop condition body =>
      simp only [Chronicle.opening, Chronicle.closing, List.append_nil,
        List.nil_append]
      exact told_execLoop_succ lawful told condition body

end Steps

/-- However many steps there are and however a task ends, the list tells of
it. -/
theorem Chronicle.Tells.told_task
    (lawful : chronicle.Tells tells)
    (context : Context)
    (steps : Nat)
    (task : Task)
    (machine : Machine) :
    Told tells (chronicle.list context steps task machine)
      (task.run context steps) machine := by
  induction steps generalizing task machine with
  | zero =>
      have keeps : Keeps (fun before after => tells before [] after)
          (task.run context 0) := by
        cases task with
        | result function flow =>
            exact lawful.quiet.keeps_callResult function flow
        | _ => exact lawful.quiet.keeps_throw _
      have told := Told.comes lawful task (.ofKeeps keeps machine)
      rwa [List.append_nil] at told
  | succ steps inductionHypothesis =>
      exact told_succ lawful inductionHypothesis task

end LoxScript
