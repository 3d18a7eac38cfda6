import LoxScript.Proofs.Direct.Declarations

namespace LoxScript

/-!
# Running programs with frames for iterations and without

Tasks are done alike by the evaluator of programs and by the direct evaluator:
with one value or one error, however many steps there are.  The one place where
the two differ is what a loop repeats: an iteration is executed in a frame of
its own by the one, and where the loop is by the other.
-/

open Run

section Hosted

/-- The names that a part declares in the scope it stands in. -/
def Part.declared : Part → List Token
  | .stmt statement => statement.declared?.toList
  | .stmts statements => statements.filterMap Stmt.declared?
  | .expr _ | .exprs _ | .function _ | .functions _ => []

variable (iterations : Iterations) (machine image : Machine)

/-- Executed in the active frames, the part sees the same variables on both
sides.  In an iteration it declares nothing. -/
def Part.Hosted (part : Part) : Prop :=
  ∃ marks, machine.Stationed image marks ∧
    (∀ use ∈ part.uses iterations marks, machine.Guides image use) ∧
    (marks.here = true → part.declared = [])

namespace Task

/-- The task sees the same variables on both sides. -/
def Hosted : Task → Prop
  | .eval expr => (Part.expr expr).Hosted iterations machine image
  | .evalAll exprs => (Part.exprs exprs).Hosted iterations machine image
  | .apply callee arguments =>
      callee.Hosted iterations machine image ∧
        ∀ argument ∈ arguments, argument.Hosted iterations machine image
  | .call function arguments =>
      function.Hosted iterations machine image [] ∧
        ∀ argument ∈ arguments, argument.Hosted iterations machine image
  | .result _ flow => flow.Hosted iterations machine image
  | .exec statement => (Part.stmt statement).Hosted iterations machine image
  | .execAll statements =>
      (Part.stmts statements).Hosted iterations machine image
  | .execLoop condition body =>
      (Part.stmt (.loop condition body)).Hosted iterations machine image

/-- What the task yields sees the same variables on both sides. -/
def Gives : (task : Task) → task.Out → Prop
  | .eval _ => fun (value : Value) => value.Hosted iterations machine image
  | .evalAll _ => fun (values : List Value) =>
      ∀ value ∈ values, value.Hosted iterations machine image
  | .apply _ _ => fun (value : Value) => value.Hosted iterations machine image
  | .call _ _ => fun (value : Value) => value.Hosted iterations machine image
  | .result _ _ => fun (value : Value) => value.Hosted iterations machine image
  | .exec _ => fun (flow : Flow) => flow.Hosted iterations machine image
  | .execAll _ => fun (flow : Flow) => flow.Hosted iterations machine image
  | .execLoop _ _ => fun (flow : Flow) => flow.Hosted iterations machine image

end Task

end Hosted

variable {iterations : Iterations} {natives : List HostNative}
  {machine image : Machine}
variable {after afterImage : Machine} {whole part : Part}

namespace Part.Hosted

variable (hosted : whole.Hosted iterations machine image)

include hosted

/-- What is hosted stays so. -/
theorem later
    (folded : machine.Folded iterations image natives)
    (passes :
      Machine.Passes iterations natives machine image after afterImage) :
    whole.Hosted iterations after afterImage := by
  obtain ⟨marks, stationed, guides, plain⟩ := hosted
  exact ⟨marks, passes.stationed folded stationed,
    fun use member => passes.guides folded (guides use member), plain⟩

/-- What is done where the whole is, and declares nothing, is hosted if it is no
iteration. -/
theorem covered
    (covers : whole.Covers part)
    (kept : ¬ whole.Iterates iterations part)
    (plain : part.declared = []) :
    part.Hosted iterations machine image := by
  obtain ⟨marks, stationed, guides, -⟩ := hosted
  exact ⟨marks, stationed,
    fun use member => guides use
      (covers.uses_subset iterations kept marks member), fun _ => plain⟩

/-- An expression is hosted where the whole is. -/
theorem expr
    {expr : Expr}
    (covers : whole.Covers (.expr expr)) :
    (Part.expr expr).Hosted iterations machine image := by
  refine hosted.covered covers ?_ rfl
  rintro ⟨_, _, -, same, -⟩
  cases same

/-- So are several ones. -/
theorem exprs
    {exprs : List Expr}
    (covers : whole.Covers (.exprs exprs)) :
    (Part.exprs exprs).Hosted iterations machine image := by
  refine hosted.covered covers ?_ rfl
  rintro ⟨_, _, -, same, -⟩
  cases same

omit hosted in
/-- The first of several statements is hosted, and so are the others. -/
theorem stmts
    {first : Stmt}
    {rest : List Stmt}
    (hosted : (Part.stmts (first :: rest)).Hosted iterations machine image) :
    (Part.stmt first).Hosted iterations machine image ∧
      (Part.stmts rest).Hosted iterations machine image := by
  obtain ⟨marks, stationed, guides, plain⟩ := hosted
  simp only [Part.uses, Stmt.usesAll, List.mem_append] at guides
  have plainAll (isHere : marks.here = true) :
      first.declared? = none ∧ rest.filterMap Stmt.declared? = [] := by
    simpa [Part.declared] using plain isHere
  refine ⟨⟨marks, stationed, fun use member => guides use (.inl member),
    fun isHere => ?_⟩,
    marks, stationed, fun use member => guides use (.inr member),
      fun isHere => ?_⟩
  · simp [Part.declared, (plainAll isHere).1]
  · exact (plainAll isHere).2

omit hosted in
/-- A declaration does not stand in an iteration. -/
theorem declaring
    {statement : Stmt}
    {name : Token}
    (hosted : (Part.stmt statement).Hosted iterations machine image)
    (declares : statement.declared? = some name) :
    ∃ marks, marks.here = false ∧ machine.Stationed image marks ∧
      ∀ use ∈ statement.uses iterations marks, machine.Guides image use := by
  obtain ⟨marks, stationed, guides, plain⟩ := hosted
  refine ⟨marks, ?_, stationed, guides⟩
  cases isHere : marks.here with
  | false => rfl
  | true =>
      have nothing := plain isHere
      rw [Part.declared, declares] at nothing
      cases nothing

omit hosted in
/-- A node leads to one frame from both active frames, if it leads to a frame
that holds the name or to the active one. -/
theorem finds
    {expr : Expr}
    {node : Reference}
    {name : String}
    (hosted : (Part.expr expr).Hosted iterations machine image)
    (isNode : expr.node? = some node)
    (top : machine.store.parent? globalFrame = none)
    (held :
      ∀ distance, machine.distances[node.id]? = some distance →
        ∃ found, machine.store.ancestor? machine.active distance = some found ∧
          (machine.store.holds found name = true ∨ distance = 0)) :
    machine.Finds image node.id name := by
  obtain ⟨marks, stationed, guides, -⟩ := hosted
  intro distance filed
  obtain ⟨found, isFound, isHeld⟩ := held distance filed
  obtain ⟨-, leads, unmarked⟩ :=
    guides (marks, node) (List.mem_map_of_mem (Expr.node?_mem isNode))
  refine ⟨found, marks.beyond distance, isFound, ?_,
    stationed.ancestor top isFound (unmarked distance filed), ?_⟩
  · rw [leads, filed]
    rfl
  · rcases isHeld with isHeld | rfl
    · exact .inr isHeld
    · exact .inl marks.beyond_zero

end Part.Hosted

open Evaluator

variable {offered : ByteArray → Prop} {context : Context} {steps : Nat}

/-- With so many steps, tasks are done alike by both evaluators, and so is what
loops repeat. -/
structure Concurs
    (offered : ByteArray → Prop)
    (iterations : Iterations)
    (context : Context)
    (steps : Nat) : Prop where
  task :
    ∀ (task : Task) {machine image : Machine}, machine.Sound offered context →
      task.Ready offered machine →
      machine.Folded iterations image context.natives →
      task.Hosted iterations machine image →
      Coincide iterations context.natives ((usual context steps).run task)
        ((direct iterations context steps).run task) machine image
        fun after afterImage => task.Gives iterations after afterImage
  iterate :
    ∀ {machine image : Machine} {condition : Expr} {body : Stmt},
      machine.Sound offered context → (Task.exec body).Ready offered machine →
      machine.Folded iterations image context.natives →
      (Part.stmt (.loop condition body)).Hosted iterations machine image →
      body.declared? = none →
      Coincide iterations context.natives ((usual context steps).iterate body)
        ((direct iterations context steps).iterate body) machine image
        (Flow.Hosted iterations)

namespace Concurs

variable (concurs : Concurs offered iterations context steps)
variable (sound : machine.Sound offered context)

include concurs

/-- A task that is asked for by a ready one is done alike. -/
theorem asked
    {task other : Task}
    (sound : machine.Sound offered context)
    (ready : task.Ready offered machine)
    (calls : Calls context steps task machine other after)
    (folded : after.Folded iterations afterImage context.natives)
    (hosted : other.Hosted iterations after afterImage) :
    Coincide iterations context.natives ((usual context steps).run other)
      ((direct iterations context steps).run other) after afterImage
      fun last lastImage => other.Gives iterations last lastImage := by
  obtain ⟨soundAfter, readyAfter⟩ :=
    calls.ready (works_always offered context steps) sound ready
  exact concurs.task other soundAfter readyAfter folded hosted

variable (folded : machine.Folded iterations image context.natives)

include sound folded

/-- The value of an assignment is stored in one frame on both sides. -/
theorem coincide_assign
    {id : NodeId}
    {name : Token}
    {value : Expr}
    (ready : (Task.eval (.assign id name value)).Ready offered machine)
    (hosted :
      (Part.expr (.assign id name value)).Hosted iterations machine image) :
    Coincide iterations context.natives
      ((usual context steps).evalNext (.assign id name value))
      ((direct iterations context steps).evalNext (.assign id name value))
        machine image
      (Value.Hosted iterations) := by
  refine Coincide.andThen (concurs.asked sound ready .assigned folded
    (hosted.expr (.included .assigned))) ?_
  intro stored after afterImage yields passes isStored
  obtain ⟨program, analysis, stands⟩ := ready.stands
  have held : ∀ distance, after.distances[id]? = some distance →
      ∃ found, after.store.ancestor? after.active distance = some found ∧
        (after.store.holds found name.lexeme = true ∨ distance = 0) := by
    intro distance filed
    by_cases inside : program.InOwnInitializer name
      (.expr (.assign id name value)) analysis
    · cases (stands.distance_inside sound inside yields).symm.trans filed
      exact ⟨after.active, rfl, .inr rfl⟩
    · obtain ⟨found, isFound, isHeld⟩ :=
        stands.assign_succeeds sound inside yields distance filed
      exact ⟨found, isFound, .inl isHeld⟩
  have soundAfter : after.Sound offered context :=
    ((works_always offered context steps).eval_ok sound
      (((ready.located nofun).included .assigned).ready) yields).1.sound
  have finds :=
    (hosted.later folded passes).finds rfl soundAfter.rooted.top held
  refine (coincide_assignVariable passes.folded finds isStored).andThen ?_
  intro _ last lastImage _ further _
  exact .ofPure further.folded (further.hosted passes.folded isStored)

/-- Calling what an expression yields. -/
theorem coincide_callExpr
    {callee : Expr}
    {paren : Token}
    {arguments : List Expr}
    (ready : (Task.eval (.call callee paren arguments)).Ready offered machine)
    (hosted : (Part.expr (.call callee paren arguments)).Hosted iterations
      machine image) :
    Coincide iterations context.natives
      ((usual context steps).evalNext (.call callee paren arguments))
      ((direct iterations context steps).evalNext
        (.call callee paren arguments)) machine image
      (Value.Hosted iterations) := by
  unfold evalNext
  refine Coincide.andThen (concurs.asked sound ready .callee folded
    (hosted.expr (.included .callee))) ?_
  intro called machine₁ image₁ yields passes₁ isCalled
  refine Coincide.andThen
    (concurs.asked sound ready (.arguments yields) passes₁.folded
      ((hosted.exprs (.included .arguments)).later folded passes₁)) ?_
  intro passed machine₂ image₂ yieldsAll passes₂ arePassed
  split
  · rename_i callable isCallable
    refine (coincide_checkArity passes₂.folded callable passed paren).andThen ?_
    rintro _ _ _ - - ⟨rfl, rfl, complete⟩
    have isCallee :=
      Value.Hosted.callee (passes₂.hosted passes₁.folded isCalled) isCallable
    exact concurs.asked sound ready
      (.applied yields yieldsAll isCallable complete) passes₂.folded
      ⟨isCallee, arePassed⟩
  · exact .ofThrow passes₂.folded _

/-- The value of an expression, with one step more. -/
theorem coincide_eval
    {expr : Expr}
    (ready : (Task.eval expr).Ready offered machine)
    (hosted : (Part.expr expr).Hosted iterations machine image) :
    Coincide iterations context.natives ((usual context steps).evalNext expr)
      ((direct iterations context steps).evalNext expr) machine image
      (Value.Hosted iterations) := by
  have top := sound.rooted.top
  cases expr with
  | literal value => exact .ofPure folded (Value.isAtom_ofLiteral value).hosted
  | grouping inner =>
      exact concurs.asked sound ready .grouping folded
        (hosted.expr (.included .grouping))
  | unary operator operand =>
      refine Coincide.andThen (concurs.asked sound ready .operand folded
        (hosted.expr (.included .operand))) ?_
      intro value after afterImage _ passes _
      exact coincide_ofExcept passes.folded fun _ => Operator.isAtom_unary
  | binary left operator right =>
      refine Coincide.andThen (concurs.asked sound ready .binaryLeft folded
        (hosted.expr (.included .binaryLeft))) ?_
      intro first machine₁ image₁ yields passes₁ _
      refine Coincide.andThen
        (concurs.asked sound ready (.binaryRight yields) passes₁.folded
          ((hosted.expr (.included .binaryRight)).later folded passes₁)) ?_
      intro second machine₂ image₂ _ passes₂ _
      exact coincide_ofExcept passes₂.folded fun _ => Operator.isAtom_binary
  | logical left operator right =>
      refine Coincide.andThen (concurs.asked sound ready .logicalLeft folded
        (hosted.expr (.included .logicalLeft))) ?_
      intro first machine₁ image₁ yields passes₁ isFirst
      split
      · exact .ofPure passes₁.folded isFirst
      · rename_i unsettled
        exact concurs.asked sound ready
          (.logicalRight yields (by simpa using unsettled))
          passes₁.folded
            ((hosted.expr (.included .logicalRight)).later folded passes₁)
  | reference id name =>
      obtain ⟨program, analysis, stands⟩ := ready.stands
      refine coincide_readVariable folded
        (hosted.finds rfl top fun distance filed => ?_)
      obtain ⟨found, isFound, isHeld⟩ := stands.reference filed
      exact ⟨found, isFound, .inl isHeld⟩
  | assign id name value =>
      exact concurs.coincide_assign sound folded ready hosted
  | call callee paren arguments =>
      exact concurs.coincide_callExpr sound folded ready hosted
  | get object name =>
      refine Coincide.andThen (concurs.asked sound ready .object folded
        (hosted.expr (.included .object))) ?_
      intro value after afterImage _ passes isValue
      cases value with
      | object found => exact coincide_getProperty passes.folded isValue name
      | _ => exact .ofThrow passes.folded _
  | set object name value =>
      refine Coincide.andThen (concurs.asked sound ready .holder folded
        (hosted.expr (.included .holder))) ?_
      intro holder machine₁ image₁ yields passes₁ _
      cases holder with
      | object found =>
          refine Coincide.andThen
            (concurs.asked sound ready (.stored yields) passes₁.folded
              ((hosted.expr (.included .stored)).later folded passes₁)) ?_
          intro stored machine₂ image₂ _ passes₂ isStored
          refine (coincide_setField passes₂.folded isStored found
            name.lexeme).andThen ?_
          intro _ machine₃ image₃ _ passes₃ _
          exact .ofPure passes₃.folded (passes₃.hosted passes₂.folded isStored)
      | _ => exact .ofThrow passes₁.folded _
  | thisRef id keyword =>
      obtain ⟨program, analysis, stands⟩ := ready.stands
      obtain ⟨spelled, distance, found, object, filed, isFound, isObject⟩ :=
        stands.thisRef
      refine coincide_readVariable folded
        (hosted.finds rfl top fun other isOther => ?_)
      cases filed.symm.trans isOther
      refine ⟨found, isFound, .inl ?_⟩
      rw [spelled]
      exact Store.holds_iff.mpr ⟨_, isObject⟩
  | superRef id keyword method =>
      obtain ⟨program, analysis, stands⟩ := ready.stands
      obtain ⟨-, inner, outerFrame, innerFrame, superclass, object, filed,
        isOuter, isClass, isInner, isObject⟩ := stands.superRef
      obtain ⟨marks, stationed, guides, -⟩ := hosted
      obtain ⟨-, leads, -⟩ :=
        guides (marks, _) (List.mem_map_of_mem (Expr.node?_mem rfl))
      have filedImage :
          image.distances[id]? = some (marks.beyond (inner + 1)) := by
        rw [leads, filed]
        rfl
      refine Coincide.andThen
        (coincide_superParts folded stationed top filed filedImage isOuter
          isClass isInner isObject) ?_
      rintro ⟨parent, holder⟩ after afterImage - passes ⟨isParent, isHolder⟩
      dsimp only
      split
      · rename_i found isMethod
        exact coincide_bound passes.folded (isParent _ found isMethod) isHolder
      · exact .ofThrow passes.folded _

/-- The values of expressions, with one step more. -/
theorem coincide_evalAll
    {exprs : List Expr}
    (ready : (Task.evalAll exprs).Ready offered machine)
    (hosted : (Part.exprs exprs).Hosted iterations machine image) :
    Coincide iterations context.natives
      ((usual context steps).evalAllNext exprs)
      ((direct iterations context steps).evalAllNext exprs) machine image
      fun after afterImage values =>
        ∀ value ∈ values, value.Hosted iterations after afterImage := by
  cases exprs with
  | nil => exact .ofPure folded nofun
  | cons first rest =>
      refine Coincide.andThen (concurs.asked sound ready .firstExpr folded
        (hosted.expr (.included .firstExpr))) ?_
      intro value machine₁ image₁ yields passes₁ isValue
      refine Coincide.andThen
        (concurs.asked sound ready (.restExprs yields) passes₁.folded
          ((hosted.exprs (.included .restExprs)).later folded passes₁)) ?_
      intro values machine₂ image₂ _ passes₂ areValues
      refine .ofPure passes₂.folded (List.forall_mem_cons.mpr ⟨?_, areValues⟩)
      exact passes₂.hosted passes₁.folded isValue

/-- Calling something, with one step more. -/
theorem coincide_apply
    {callee : Callee}
    {arguments : List Value}
    (ready : (Task.apply callee arguments).Ready offered machine)
    (hosted : (Task.apply callee arguments).Hosted iterations machine image) :
    Coincide iterations context.natives
      ((usual context steps).applyNext context callee arguments)
      ((direct iterations context steps).applyNext context callee arguments)
        machine image
      (Value.Hosted iterations) := by
  obtain ⟨isCallee, areHosted⟩ := hosted
  cases callee with
  | native native => exact coincide_callNative folded areHosted native
  | function function =>
      exact concurs.asked sound ready .function folded ⟨isCallee, areHosted⟩
  | blueprint blueprint =>
      refine (coincide_allocateInstance folded blueprint).andThen ?_
      intro object machine₁ image₁ allocates passes₁ same
      have isClass : blueprint.Hosted iterations machine₁ image₁ :=
        passes₁.blueprint folded isCallee
      have isObject : object.blueprint.Hosted iterations machine₁ image₁ :=
        same ▸ isClass
      split
      · rename_i initializer isInitializer
        refine (coincide_bind passes₁.folded
          (isClass _ initializer isInitializer) isObject).andThen ?_
        intro bound machine₂ image₂ binds passes₂ isBound
        have passes := passes₁.trans passes₂
        have areHosted₂ : ∀ argument ∈ arguments,
            argument.Hosted iterations machine₂ image₂ :=
          fun argument member =>
            passes.hosted folded (areHosted argument member)
        refine Coincide.andThen (concurs.asked sound ready
          (.initializer allocates isInitializer binds) passes₂.folded
          ⟨isBound, areHosted₂⟩) ?_
        intro _ machine₃ image₃ _ passes₃ _
        exact .ofPure passes₃.folded
          ((passes₂.trans passes₃).blueprint passes₁.folded isObject)
      · exact .ofPure passes₁.folded isObject

/-- Calling a function, with one step more. -/
theorem coincide_call
    {function : Function}
    {arguments : List Value}
    (ready : (Task.call function arguments).Ready offered machine)
    (hosted : (Task.call function arguments).Hosted iterations machine image) :
    Coincide iterations context.natives
      ((usual context steps).callNext function arguments)
      ((direct iterations context steps).callNext function arguments)
        machine image
      (Value.Hosted iterations) := by
  obtain ⟨⟨marks, aligned, guides⟩, areHosted⟩ := hosted
  refine (coincide_allocate folded
    (fun _ value found => areHosted value (mem_of_find?_callFrame found))
    aligned).andThen ?_
  intro frame after afterImage allocates passes alignedFrame
  have isBody : (Part.stmts function.declaration.body).Hosted iterations
      { after with active := frame } { afterImage with active := frame } := by
    refine ⟨false :: marks, alignedFrame, fun use member =>
      passes.guides folded (guides use ?_), nofun⟩
    obtain ⟨_, ⟨_, _, _⟩, _, _⟩ := function
    exact member
  have inside := concurs.asked sound ready (.body allocates)
    (passes.folded.inFrames frame frame) isBody
  refine (coincide_inFrame inside).andThen ?_
  intro flow last lastImage _ further isFlow
  exact coincide_callResult further.folded isFlow function

/-- Executing a block in a frame of its own. -/
theorem coincide_block
    {body : List Stmt}
    (ready : (Task.exec (.block body)).Ready offered machine)
    (hosted : (Part.stmt (.block body)).Hosted iterations machine image) :
    Coincide iterations context.natives
      ((usual context steps).execNext (loadRequiredBy Machine.compile context)
        (.block body))
      ((direct iterations context steps).execNext
        (loadRequiredBy (Machine.compileDirectly iterations) context)
        (.block body))
      machine image (Flow.Hosted iterations) := by
  obtain ⟨marks, stationed, guides, -⟩ := hosted
  refine .look ?_
  refine (coincide_allocate folded (fun _ _ absent => by cases absent)
    stationed).andThen ?_
  intro frame after afterImage allocates passes aligned
  have isBody : (Part.stmts body).Hosted iterations
      { after with active := frame }
      { afterImage with active := frame } :=
    ⟨false :: marks, aligned, fun use member => passes.guides folded
      (guides use member), nofun⟩
  exact coincide_inFrame (concurs.asked sound ready (.block allocates)
    (passes.folded.inFrames frame frame) isBody)

/-- Executing a required source. -/
theorem coincide_require
    {keyword : Token}
    {path : String}
    (ready : (Task.exec (.require keyword path)).Ready offered machine) :
    Coincide iterations context.natives
      ((usual context steps).execNext (loadRequiredBy Machine.compile context)
        (.require keyword path))
      ((direct iterations context steps).execNext
        (loadRequiredBy (Machine.compileDirectly iterations) context)
        (.require keyword path))
      machine image (Flow.Hosted iterations) := by
  refine Mirrors.andThen
    (mirrors_loadRequired folded sound.unfiled context keyword path) ?_
  rintro program after other afterImage loads - ⟨same, passes, guides⟩
  rw [same]
  have isProgram : (Part.stmts program.statements).Hosted iterations
      { after with requiring := path :: after.requiring, active := globalFrame }
      { afterImage with
        requiring := path :: afterImage.requiring, active := globalFrame } :=
    ⟨[], .global, guides, nofun⟩
  have entered : Machine.Folded iterations
      { after with requiring := path :: after.requiring }
      { afterImage with requiring := path :: afterImage.requiring }
      context.natives := by
    rw [passes.folded.requiring]
    exact passes.folded.amid _
  have inside : Coincide iterations context.natives
      (inFrame globalFrame ((usual context steps).execAll program.statements))
      (inFrame globalFrame
        ((direct iterations context steps).execAll program.statements))
      { after with requiring := path :: after.requiring }
      { afterImage with requiring := path :: afterImage.requiring }
        (Flow.Hosted iterations) :=
    coincide_inFrame (concurs.asked sound ready (.required loads)
      (entered.inFrames globalFrame globalFrame) isProgram)
  refine Coincide.following ((coincide_whileRequiring inside).andThen ?_) passes
  intro _ last lastImage _ further _
  exact .ofPure further.folded trivial

omit concurs in
/-- Declaring a class, whose superclass is one variable on both sides. -/
theorem coincide_classDecl
    {name : Token}
    {superclass : Option SuperclassRef}
    {methods : List FunctionDecl}
    (ready :
      (Task.exec (.classDecl name superclass methods)).Ready offered machine)
    (hosted : (Part.stmt (.classDecl name superclass methods)).Hosted iterations
      machine image) :
    Coincide iterations context.natives (declareClass name superclass methods)
      (declareClass name superclass methods) machine image
      fun _ _ _ => True := by
  have finds : ∀ named ∈ superclass,
      machine.Finds image named.id named.name.lexeme := by
    rintro named ⟨⟩
    have calls :
        Calls context 0 (.exec (.classDecl name (some named) methods)) machine
        (.eval named.expr) machine := .superclass
    obtain ⟨-, readySuperclass⟩ :=
      calls.ready (works_always offered context 0) sound ready
    obtain ⟨program, analysis, stands⟩ := readySuperclass.stands
    refine (hosted.expr .superclass).finds rfl sound.rooted.top
      fun distance filed => ?_
    obtain ⟨found, isFound, isHeld⟩ := stands.reference filed
    exact ⟨found, isFound, .inl isHeld⟩
  obtain ⟨marks, kept, stationed, guides⟩ := hosted.declaring rfl
  exact coincide_declareClass folded stationed kept finds
    (fun use member => guides use (List.mem_append_right _ member)) name

/-- Executing a statement, with one step more. -/
theorem coincide_exec
    {statement : Stmt}
    (ready : (Task.exec statement).Ready offered machine)
    (hosted : (Part.stmt statement).Hosted iterations machine image) :
    Coincide iterations context.natives
      ((usual context steps).execNext (loadRequiredBy Machine.compile context)
        statement)
      ((direct iterations context steps).execNext
        (loadRequiredBy (Machine.compileDirectly iterations) context) statement)
      machine image (Flow.Hosted iterations) := by
  have orderly := Machine.Located.orderly ready
  cases statement with
  | print value =>
      refine Coincide.andThen (concurs.asked sound ready .printed folded
        (hosted.expr (.included .printed))) ?_
      intro shown after afterImage _ passes _
      refine (coincide_write passes.folded _).andThen ?_
      intro _ last lastImage _ further _
      exact .ofPure further.folded trivial
  | expression value =>
      refine Coincide.andThen (concurs.asked sound ready .stated folded
        (hosted.expr (.included .stated))) ?_
      intro _ after afterImage _ passes _
      exact .ofPure passes.folded trivial
  | varDecl name initializer =>
      obtain ⟨marks, kept, stationed, -⟩ := hosted.declaring rfl
      cases initializer with
      | none =>
          have isNil : Value.nil.Hosted iterations machine image := trivial
          refine (coincide_define folded stationed kept isNil
            name.lexeme).andThen ?_
          intro _ after afterImage _ passes _
          exact .ofPure passes.folded trivial
      | some initializer =>
          refine Coincide.andThen (concurs.asked sound ready .initialized folded
            (hosted.expr .initializer)) ?_
          intro value after afterImage _ passes isValue
          refine (coincide_define passes.folded
            (passes.stationed folded stationed) kept isValue
            name.lexeme).andThen ?_
          intro _ last lastImage _ further _
          exact .ofPure further.folded trivial
  | block body => exact concurs.coincide_block sound folded ready hosted
  | conditional condition thenBranch elseBranch =>
      refine Coincide.andThen (concurs.asked sound ready .condition folded
        (hosted.expr (.included .condition))) ?_
      intro value after afterImage yields passes _
      -- Branches declare nothing, and no branch of a condition is an iteration.
      have afterBranch {branch : Stmt} (plain : branch.declared? = none)
          (covers :
            (Part.stmt (.conditional condition thenBranch elseBranch)).Covers
            (.stmt branch)) :
          (Part.stmt branch).Hosted iterations after afterImage := by
        refine (hosted.covered covers ?_ ?_).later folded passes
        · rintro ⟨_, _, same, -, -⟩
          cases same
        · simp [Part.declared, plain]
      by_cases truthy : value.isTruthy = true
      · simp only [truthy, if_true]
        have plain : thenBranch.declared? = none := by
          cases elseBranch <;> simp only [Stmt.Orderly] at orderly
          · exact orderly.1
          · exact orderly.1.1
        exact concurs.asked sound ready (.thenBranch yields truthy)
          passes.folded (afterBranch plain (.included .thenBranch))
      · simp only [truthy]
        cases elseBranch with
        | none => exact .ofPure passes.folded trivial
        | some branch =>
            simp only [Stmt.Orderly] at orderly
            exact concurs.asked sound ready
              (.elseBranch yields (by simpa using truthy))
              passes.folded (afterBranch orderly.2.1 (.included .elseBranch))
  | loop condition body => exact concurs.asked sound ready .loop folded hosted
  | funDecl declaration =>
      obtain ⟨marks, kept, stationed, guides⟩ := hosted.declaring rfl
      refine (coincide_declareFunction folded stationed kept guides).andThen ?_
      intro _ after afterImage _ passes _
      exact .ofPure passes.folded trivial
  | ret keyword value =>
      cases value with
      | none => exact .ofPure folded trivial
      | some value =>
          refine Coincide.andThen (concurs.asked sound ready .returned folded
            (hosted.expr (.included .returned))) ?_
          intro returned after afterImage _ passes isValue
          exact .ofPure passes.folded isValue
  | classDecl name superclass methods =>
      refine (coincide_classDecl sound folded ready hosted).andThen ?_
      intro _ after afterImage _ passes _
      exact .ofPure passes.folded trivial
  | require keyword path => exact concurs.coincide_require sound folded ready

/-- Executing statements in order, with one step more. -/
theorem coincide_execAll
    {statements : List Stmt}
    (ready : (Task.execAll statements).Ready offered machine)
    (hosted : (Part.stmts statements).Hosted iterations machine image) :
    Coincide iterations context.natives
      ((usual context steps).execAllNext statements)
      ((direct iterations context steps).execAllNext statements) machine image
      (Flow.Hosted iterations) := by
  cases statements with
  | nil => exact .ofPure folded trivial
  | cons first rest =>
      obtain ⟨isFirst, isRest⟩ := hosted.stmts
      refine Coincide.andThen
        (concurs.asked sound ready .firstStmt folded isFirst) ?_
      intro flow after afterImage yields passes isFlow
      cases flow with
      | returned value => exact .ofPure passes.folded isFlow
      | normal =>
          exact concurs.asked sound ready (.restStmts yields) passes.folded
            (isRest.later folded passes)

/-- Executing a loop, with one step more. -/
theorem coincide_execLoop
    {condition : Expr}
    {body : Stmt}
    (ready : (Task.execLoop condition body).Ready offered machine)
    (hosted :
      (Part.stmt (.loop condition body)).Hosted iterations machine image) :
    Coincide iterations context.natives
      ((usual context steps).execLoopNext condition body)
      ((direct iterations context steps).execLoopNext condition body)
        machine image
      (Flow.Hosted iterations) := by
  have orderly := Machine.Located.orderly ready
  simp only [Stmt.Orderly] at orderly
  refine Coincide.andThen (concurs.asked sound ready .guard folded
    (hosted.expr (.included .guard))) ?_
  intro value middle middleImage yields passes _
  by_cases truthy : value.isTruthy = true
  · simp only [truthy, if_true]
    obtain ⟨soundMiddle, readyBody⟩ :=
      (Calls.repeated yields truthy).ready (works_always offered context steps)
        sound ready
    refine Coincide.andThen (concurs.iterate soundMiddle readyBody passes.folded
      (hosted.later folded passes) orderly.1) ?_
    intro flow after afterImage repeats passesOn isFlow
    cases flow with
    | returned value => exact .ofPure passesOn.folded isFlow
    | normal =>
        exact concurs.asked sound ready (.again yields truthy repeats)
          passesOn.folded (hosted.later folded (passes.trans passesOn))
  · simp only [truthy]
    exact .ofPure passes.folded trivial

/-- Executing an iteration: in a frame of its own on the one side, and where the
loop is on the other. -/
theorem coincide_iteration
    {condition : Expr}
    {body : List Stmt}
    (isIteration : iterations.chooses body = true)
    (ready : (Task.exec (.block body)).Ready offered machine)
    (hosted : (Part.stmt (.loop condition (.block body))).Hosted iterations
      machine image) :
    Coincide iterations context.natives
      ((usual context steps).execNext (loadRequiredBy Machine.compile context)
        (.block body))
      (do skipFrame; (direct iterations context steps).execAll body)
      machine image (Flow.Hosted iterations) := by
  obtain ⟨marks, stationed, guides, -⟩ := hosted
  let frame := machine.store.nextFrame
  let entered := { machine with
    store := machine.store.allocate ⟨NameMap.empty, some machine.active⟩ }
  let skipped :=
    { image with store := image.store.allocate ⟨NameMap.empty, none⟩ }
  have passes : Machine.Passes iterations context.natives machine image
      entered skipped :=
    folded.passStore (.allocate machine _) (.allocate image _)
      (folded.store.allocate (some machine.active) fun _ => rfl)
      (folded.holds.allocate fun _ _ absent => by cases absent)
  have isOrphan : skipped.store.parent? frame = none := by
    rw [show frame = image.store.nextFrame from folded.store.size.symm]
    exact Store.parent?_allocate_nextFrame _ _
  have isBody : (Part.stmts body).Hosted iterations
      { entered with active := frame } skipped := by
    refine ⟨true :: marks, ?_, ?_, ?_⟩
    · exact .folded (Store.parent?_allocate_nextFrame _ _) isOrphan
        (Nat.ne_of_gt folded.store.present) (passes.aligned folded stationed)
    · intro use member
      refine passes.guides folded (guides use (List.mem_append_right _ ?_))
      rw [isIteration]
      exact member
    · intro _
      exact List.filterMap_eq_nil_iff.mpr (iterations.plain isIteration)
  have inside : Coincide iterations context.natives
      ((usual context steps).execAll body)
      ((direct iterations context steps).execAll body)
      { entered with active := frame } skipped
      (Flow.Hosted iterations) :=
    concurs.asked sound ready (.block rfl)
      (passes.folded.inFrames frame image.active) isBody
  have leaves {after afterImage : Machine}
      (further : Machine.Passes iterations context.natives
        { entered with active := frame } skipped after afterImage) :
      Machine.Passes iterations context.natives machine image
        { after with active := machine.active } afterImage :=
    ⟨Machine.respected_retains.trans passes.retains
        (Machine.respected_retains.inFrame frame further.retains),
      Machine.respected_retains.trans passes.retainsImage further.retainsImage,
      further.folded.inFrames machine.active afterImage.active⟩
  refine Coincide.around rfl ?_ inside
    (fun after afterImage further => leaves further)
    fun after afterImage flow isFlow =>
      isFlow.inFrames machine.active afterImage.active
  change (direct iterations context steps).execAll body skipped = _
  cases (direct iterations context steps).execAll body skipped <;> rfl

/-- Executing what a loop repeats, with one step more. -/
theorem coincide_iterate
    {condition : Expr}
    {body : Stmt}
    (ready : (Task.exec body).Ready offered machine)
    (hosted :
      (Part.stmt (.loop condition body)).Hosted iterations machine image)
    (plain : body.declared? = none) :
    Coincide iterations context.natives
      ((usual context steps).execNext
        (loadRequiredBy Machine.compile context) body)
      ((direct iterations context steps).iterateDirectly iterations
        (loadRequiredBy (Machine.compileDirectly iterations) context) body)
      machine image (Flow.Hosted iterations) := by
  have usually (kept : ¬ (Part.stmt (.loop condition body)).Iterates iterations
      (.stmt body)) :=
    concurs.coincide_exec sound folded ready
      (hosted.covered (.included .repeated) kept
        (by simp [Part.declared, plain]))
  cases body with
  | block body =>
      cases isIteration : iterations.chooses body with
      | true =>
          simp only [iterateDirectly, isIteration, if_true]
          exact concurs.coincide_iteration sound folded isIteration ready hosted
      | false =>
          simp only [iterateDirectly, isIteration]
          refine usually ?_
          rintro ⟨_, _, same, -, chosen⟩
          cases same
          rw [isIteration] at chosen
          cases chosen
  | _ =>
      refine usually ?_
      rintro ⟨_, _, -, same, -⟩
      cases same

end Concurs

/-- However many steps there are, tasks are done alike by both evaluators. -/
theorem concurs_always
    (offered : ByteArray → Prop)
    (iterations : Iterations)
    (context : Context)
    (steps : Nat) :
    Concurs offered iterations context steps := by
  induction steps with
  | zero =>
      refine ⟨fun task _ _ _ _ folded hosted => ?_, fun _ _ folded _ _ => ?_⟩
      · rw [usual_zero]
        cases task with
        | result function flow =>
            exact coincide_callResult folded hosted function
        | _ => exact .ofThrow folded .exhausted
      · rw [usual_zero]
        exact .ofThrow folded .exhausted
  | succ steps concurs =>
      refine ⟨fun task _ _ sound ready folded hosted => ?_,
        fun sound ready folded hosted plain => ?_⟩
      · rw [usual_succ, direct_succ]
        cases task with
        | eval expr => exact concurs.coincide_eval sound folded ready hosted
        | evalAll exprs =>
            exact concurs.coincide_evalAll sound folded ready hosted
        | apply callee arguments =>
            exact concurs.coincide_apply sound folded ready hosted
        | call function arguments =>
            exact concurs.coincide_call sound folded ready hosted
        | result function flow =>
            exact coincide_callResult folded hosted function
        | exec statement =>
            exact concurs.coincide_exec sound folded ready hosted
        | execAll statements =>
            exact concurs.coincide_execAll sound folded ready hosted
        | execLoop condition body =>
            exact concurs.coincide_execLoop sound folded ready hosted
      · rw [usual_succ, direct_succ]
        exact concurs.coincide_iterate sound folded ready hosted plain

end LoxScript
