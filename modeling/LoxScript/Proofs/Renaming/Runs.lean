import LoxScript.Proofs.Renaming.Declarations

namespace LoxScript

/-!
# Running twins

The evaluator agrees on codes that are twins, for every number of steps: the one
statement about each of its functions follows from the statements about all of
them for one step less.
-/

open Run

variable {r : Relabelling} {flags : Flags} {machine image : Machine}
  {marks : Marks}

/-- One result of an operator, which refers to nothing. -/
theorem agrees_ofExcept
    {result : Except RuntimeError Value}
    (twin : machine.Twin r flags image)
    (isAtom : ∀ value, result = .ok value → value.IsAtom) :
    Agrees r flags (Run.ofExcept result) (Run.ofExcept result) machine image
      (alikeValues r) := by
  cases result with
  | error error => exact .ofFail twin error
  | ok value => exact .ofPure twin (isAtom value rfl).twin

/-- The evaluator agrees on twins with this number of steps. -/
structure Simulates (r : Relabelling) (context : Context) (steps : Nat) :
    Prop where
  eval :
    ∀ {flags machine image marks expr exprImage}, machine.Twin r flags image →
      machine.store.Carries flags machine.active marks →
      Expr.Twin r marks expr exprImage →
      Agrees r flags (eval context steps expr) (eval context steps exprImage)
        machine image (alikeValues r)
  evalAll :
    ∀ {flags machine image marks exprs exprsImage}, machine.Twin r flags image →
      machine.store.Carries flags machine.active marks →
      List.Forall₂ (Expr.Twin r marks) exprs exprsImage →
      Agrees r flags (evalAll context steps exprs)
        (evalAll context steps exprsImage) machine image (alikeLists r)
  apply :
    ∀ {flags machine image callee calleeImage arguments images},
      machine.Twin r flags image →
      Callee.Twin (machine.store.likeness r flags) callee calleeImage →
      alikeLists r flags machine arguments images →
      Agrees r flags (apply context steps callee arguments)
        (apply context steps calleeImage images) machine image (alikeValues r)
  call :
    ∀ {flags machine image function functionImage arguments images},
      machine.Twin r flags image →
      (machine.store.likeness r flags).functions function functionImage →
      alikeLists r flags machine arguments images →
      Agrees r flags (call context steps function arguments)
        (call context steps functionImage images) machine image (alikeValues r)
  exec :
    ∀ {flags machine image marks statement statementImage},
      machine.Twin r flags image →
      machine.store.Carries flags machine.active marks →
      Stmt.Twin r marks statement statementImage →
      Agrees r flags (exec context steps statement)
        (exec context steps statementImage) machine image (alikeFlows r)
  execAll :
    ∀ {flags machine image marks statements statementsImage},
      machine.Twin r flags image →
      machine.store.Carries flags machine.active marks →
      Stmt.Twins r marks statements statementsImage →
      Agrees r flags (execAll context steps statements)
        (execAll context steps statementsImage) machine image (alikeFlows r)
  execLoop :
    ∀ {flags machine image marks condition conditionImage body bodyImage},
      machine.Twin r flags image →
      machine.store.Carries flags machine.active marks →
      Expr.Twin r marks condition conditionImage →
      Stmt.Twin r marks body bodyImage →
      Agrees r flags (execLoop context steps condition body)
        (execLoop context steps conditionImage bodyImage) machine image
        (alikeFlows r)

namespace Simulates

variable {context : Context} {steps : Nat}
variable (simulates : Simulates r context steps)

include simulates

/-- Operands of an expression, one after the other. -/
theorem operands
    {left leftImage right rightImage : Expr}
    {final : Flags → Machine → Value → Value → Prop}
    {next nextImage : Value → Value → Run Value}
    (twin : machine.Twin r flags image)
    (carries : machine.store.Carries flags machine.active marks)
    (lefts : Expr.Twin r marks left leftImage)
    (rights : Expr.Twin r marks right rightImage)
    (agreesNext :
      ∀ grown after afterImage first firstImage second secondImage,
        after.Twin r grown afterImage →
        alikeValues r grown after first firstImage →
        alikeValues r grown after second secondImage →
        Agrees r grown (next first second) (nextImage firstImage secondImage)
          after afterImage final) :
    Agrees r flags
      (do let first ← LoxScript.eval context steps left
          let second ← LoxScript.eval context steps right
          next first second)
      (do let first ← LoxScript.eval context steps leftImage
          let second ← LoxScript.eval context steps rightImage
          nextImage first second)
      machine image final := by
  refine (simulates.eval twin carries lefts).andThen ?_
  intro flags₁ machine₁ image₁ first firstImage later₁ twin₁ firsts
  refine (simulates.eval twin₁ (later₁.carries carries) rights).andThen ?_
  intro flags₂ machine₂ image₂ second secondImage later₂ twin₂ seconds
  exact agreesNext flags₂ machine₂ image₂ first firstImage second
    secondImage twin₂ (later₂.value firsts) seconds

/-- Calling what an expression yields with the values of others. -/
theorem callExpr
    {callee calleeImage : Expr}
    {arguments argumentsImage : List Expr}
    (twin : machine.Twin r flags image)
    (carries : machine.store.Carries flags machine.active marks)
    (callees : Expr.Twin r marks callee calleeImage)
    (lists : List.Forall₂ (Expr.Twin r marks) arguments argumentsImage)
    (paren : Token) :
    Agrees r flags
      (LoxScript.eval context (steps + 1) (.call callee paren arguments))
      (LoxScript.eval context (steps + 1)
        (.call calleeImage paren argumentsImage)) machine image
      (alikeValues r) := by
  unfold LoxScript.eval
  refine (simulates.eval twin carries callees).andThen ?_
  intro flags₁ machine₁ image₁ called calledImage later₁ twin₁ values
  refine (simulates.evalAll twin₁ (later₁.carries carries) lists).andThen ?_
  intro flags₂ machine₂ image₂ passed passedImage later₂ twin₂ passes
  have valuesHere := later₂.value values
  have callable := valuesHere.callee?
  rw [valuesHere.typeName]
  generalize called.callee? = found at callable ⊢
  generalize calledImage.callee? = foundImage at callable ⊢
  cases callable with
  | none => exact .ofFail twin₂ _
  | some twins =>
      refine (agrees_checkArity twin₂ twins passes paren).andThen ?_
      intro flags₃ machine₃ image₃ _ _ later₃ twin₃ _
      exact simulates.apply twin₃ (twins.widen later₃.extend.within)
        (later₃.values passes)

/-- The value of an expression, with one step more. -/
theorem eval_succ
    {expr exprImage : Expr}
    (proper : r.Proper)
    (twin : machine.Twin r flags image)
    (carries : machine.store.Carries flags machine.active marks)
    (code : Expr.Twin r marks expr exprImage) :
    Agrees r flags (LoxScript.eval context (steps + 1) expr)
      (LoxScript.eval context (steps + 1) exprImage) machine image
      (alikeValues r) := by
  cases code with
  | @literal value =>
      unfold LoxScript.eval
      refine .ofPure twin (Value.IsAtom.twin ?_)
      cases value <;> trivial
  | grouping inners =>
      unfold LoxScript.eval
      exact simulates.eval twin carries inners
  | @unary operator _ _ operands =>
      unfold LoxScript.eval
      refine (simulates.eval twin carries operands).andThen ?_
      intro grown after afterImage value valueImage _ twinAfter values
      rw [values.unary]
      exact agrees_ofExcept twinAfter fun _ => Operator.isAtom_unary
  | @binary _ _ operator _ _ lefts rights =>
      unfold LoxScript.eval
      refine simulates.operands twin carries lefts rights ?_
      intro grown after afterImage first firstImage second secondImage twinAfter
        firsts seconds
      rw [firsts.binary seconds (Store.faithful_likeness r grown _)]
      exact agrees_ofExcept twinAfter fun _ => Operator.isAtom_binary
  | @logical _ _ operator _ _ lefts rights =>
      unfold LoxScript.eval
      refine (simulates.eval twin carries lefts).andThen ?_
      intro grown after afterImage first firstImage later twinAfter firsts
      rw [firsts.isSettled]
      split
      · exact .ofPure twinAfter firsts
      · exact simulates.eval twinAfter (later.carries carries) rights
  | reference refers =>
      unfold LoxScript.eval
      exact agrees_readVariable proper twin carries (refers.names twin)
  | assign refers values =>
      unfold LoxScript.eval
      refine (simulates.eval twin carries values).andThen ?_
      intro flags₁ machine₁ image₁ stored storedImage later₁ twin₁ alike
      refine (agrees_assignVariable proper twin₁ (later₁.carries carries)
        (refers.names twin₁) alike).andThen ?_
      intro flags₂ machine₂ image₂ _ _ later₂ twin₂ _
      exact .ofPure twin₂ (later₂.value alike)
  | call callees lists =>
      exact simulates.callExpr twin carries callees lists _
  | @get _ _ name objects =>
      unfold LoxScript.eval
      refine (simulates.eval twin carries objects).andThen ?_
      intro grown after afterImage value valueImage _ twinAfter values
      cases values with
      | object alike => exact agrees_getProperty twinAfter (.object alike) name
      | _ => exact .ofFail twinAfter _
  | @set _ _ name _ _ objects stores =>
      unfold LoxScript.eval
      refine (simulates.eval twin carries objects).andThen ?_
      intro flags₁ machine₁ image₁ value valueImage later₁ twin₁ values
      cases values with
      | object alike =>
          refine (simulates.eval twin₁ (later₁.carries carries)
            stores).andThen ?_
          intro flags₂ machine₂ image₂ stored storedImage later₂
            twin₂ storedAlike
          refine (agrees_setField twin₂ rfl storedAlike name.lexeme).andThen ?_
          intro flags₃ machine₃ image₃ _ _ later₃ twin₃ _
          exact .ofPure twin₃ (later₃.value storedAlike)
      | _ => exact .ofFail twin₁ _
  | thisRef isThis =>
      unfold LoxScript.eval
      exact agrees_readVariable proper twin carries (proper.names_this isThis)
  | superRef =>
      unfold LoxScript.eval
      exact agrees_readSuper proper twin carries _ _ _

/-- The values of expressions, with one step more. -/
theorem evalAll_succ
    {exprs exprsImage : List Expr}
    (twin : machine.Twin r flags image)
    (carries : machine.store.Carries flags machine.active marks)
    (codes : List.Forall₂ (Expr.Twin r marks) exprs exprsImage) :
    Agrees r flags (LoxScript.evalAll context (steps + 1) exprs)
      (LoxScript.evalAll context (steps + 1) exprsImage) machine image
      (alikeLists r) := by
  cases codes with
  | nil =>
      unfold LoxScript.evalAll
      exact .ofPure twin .nil
  | cons firsts rests =>
      unfold LoxScript.evalAll
      refine (simulates.eval twin carries firsts).andThen ?_
      intro flags₁ machine₁ image₁ value valueImage later₁ twin₁ values
      refine (simulates.evalAll twin₁ (later₁.carries carries) rests).andThen ?_
      intro flags₂ machine₂ image₂ others othersImage later₂ twin₂ lists
      exact .ofPure twin₂ (.cons (later₂.value values) lists)

/-- Calling something, with one step more. -/
theorem apply_succ
    {callee calleeImage : Callee}
    {arguments images : List Value}
    (blind : ∀ native ∈ context.natives, native.Blind r.start)
    (twin : machine.Twin r flags image)
    (callees : Callee.Twin (machine.store.likeness r flags) callee calleeImage)
    (lists : alikeLists r flags machine arguments images) :
    Agrees r flags (LoxScript.apply context (steps + 1) callee arguments)
      (LoxScript.apply context (steps + 1) calleeImage images) machine image
      (alikeValues r) := by
  cases callees with
  | native =>
      unfold LoxScript.apply
      exact agrees_callNative blind twin lists _
  | function functions =>
      unfold LoxScript.apply
      exact simulates.call twin functions lists
  | @blueprint blueprint blueprintImage classes =>
      unfold LoxScript.apply
      refine (agrees_allocateInstance twin classes).andThen ?_
      intro flags₁ machine₁ image₁ object objectImage later₁ twin₁ objects
      have methods :=
        (classes.widen later₁.extend.within).methods initializerName
      simp only [Class.initializer?]
      generalize blueprint.findMethod? initializerName = method at methods ⊢
      generalize blueprintImage.findMethod? initializerName =
        methodImage at methods ⊢
      cases methods with
      | none => exact .ofPure twin₁ objects
      | some twins =>
          refine (agrees_bind twin₁ twins objects).andThen ?_
          intro flags₂ machine₂ image₂ bound boundImage later₂ twin₂ functions
          refine (simulates.call twin₂ functions
            ((later₁.trans later₂).values lists)).andThen ?_
          intro flags₃ machine₃ image₃ _ _ later₃ twin₃ _
          exact .ofPure twin₃ ((later₂.trans later₃).value objects)

/-- Calling a function, with one step more. -/
theorem call_succ
    {function functionImage : Function}
    {arguments images : List Value}
    (proper : r.Proper)
    (twin : machine.Twin r flags image)
    (functions :
      (machine.store.likeness r flags).functions function functionImage)
    (lists : alikeLists r flags machine arguments images) :
    Agrees r flags (LoxScript.call context (steps + 1) function arguments)
      (LoxScript.call context (steps + 1) functionImage images) machine image
      (alikeValues r) := by
  obtain ⟨outer, carries, code⟩ := functions.code
  obtain ⟨marked, names, bodies⟩ := code.parts
  have frameImage : callFrame functionImage images =
      ⟨NameMap.ofList (((function.declaration.params.map Token.lexeme).map
        (r.spelled marked)).zip images), some function.closure⟩ := by
    unfold callFrame
    rw [names, functions.closure]
  unfold LoxScript.call
  rw [frameImage]
  refine (agrees_allocate twin carries marked
    (alike_ofEntries lists _ fun _ => .none)).andThen ?_
  rintro flags₁ machine₁ image₁ _ frame later₁ twin₁ ⟨rfl, carriesNew⟩
  have runs := simulates.execAll (twin₁.inFrame frame) carriesNew bodies
  refine (agrees_inFrame twin₁.active runs fun _ _ _ _ flows =>
    flows.move rfl).andThen ?_
  intro flags₂ machine₂ image₂ flow flowImage later₂ twin₂ flows
  exact agrees_callResult proper twin₂
    (Function.Twin.later functions (later₁.trans later₂).extend) flows

/-- Executing a block, with one step more. -/
theorem execBlock
    {body bodyImage : List Stmt}
    {marked : Bool}
    (twin : machine.Twin r flags image)
    (carries : machine.store.Carries flags machine.active marks)
    (bodies : Stmt.Twins r (marked :: marks) body bodyImage) :
    Agrees r flags (LoxScript.exec context (steps + 1) (.block body))
      (LoxScript.exec context (steps + 1) (.block bodyImage)) machine image
      (alikeFlows r) := by
  unfold LoxScript.exec
  refine .look ?_
  rw [twin.active]
  refine (agrees_allocate twin carries marked fun _ => .none).andThen ?_
  rintro grown after afterImage _ frame later twinAfter ⟨rfl, carriesNew⟩
  have runs := simulates.execAll (twinAfter.inFrame frame) carriesNew bodies
  exact agrees_inFrame twinAfter.active runs fun _ _ _ _ flows => flows.move rfl

/-- Executing a required source, with one step more. -/
theorem execRequire
    (proper : r.Proper)
    (twin : machine.Twin r flags image)
    (keyword : Token)
    (path : String) :
    Agrees r flags (LoxScript.exec context (steps + 1) (.require keyword path))
      (LoxScript.exec context (steps + 1) (.require keyword path)) machine image
      (alikeFlows r) := by
  unfold LoxScript.exec
  refine (agrees_loadRequired twin context keyword path).andThen ?_
  rintro flags₁ machine₁ image₁ _ program later₁ twin₁ rfl
  -- The source runs in the global frame, where no scope is marked.
  have requiring : Machine.Twin r flags₁
      { machine₁ with requiring := path :: machine₁.requiring }
      { image₁ with requiring := path :: image₁.requiring } :=
    { twin₁ with requiring := congrArg (path :: ·) twin₁.requiring }
  have carries := proper.rooted.anchored.carries twin₁.store.earlier
  have runs := simulates.execAll (requiring.inFrame globalFrame) carries
    (Stmt.twins_self Marks.plain_nil program.statements)
  have inGlobal := agrees_inFrame requiring.active runs fun _ _ _ _ flows =>
    flows.move rfl
  refine (agrees_whileRequiring inGlobal fun _ _ _ _ flows =>
    flows.move rfl).andThen ?_
  intro flags₂ machine₂ image₂ _ _ _ twin₂ _
  exact .ofPure twin₂ .normal

/-- Executing one of two branches. -/
theorem branch
    {condition conditionImage : Expr}
    {onTrue onFalse onTrueImage onFalseImage : Run Flow}
    (twin : machine.Twin r flags image)
    (carries : machine.store.Carries flags machine.active marks)
    (conditions : Expr.Twin r marks condition conditionImage)
    (whenTrue :
      ∀ grown after afterImage, machine.Later flags grown after →
        after.Twin r grown afterImage →
        Agrees r grown onTrue onTrueImage after afterImage (alikeFlows r))
    (whenFalse :
      ∀ grown after afterImage, machine.Later flags grown after →
        after.Twin r grown afterImage →
        Agrees r grown onFalse onFalseImage after afterImage (alikeFlows r)) :
    Agrees r flags
      (do
        if (← LoxScript.eval context steps condition).isTruthy then onTrue
        else onFalse)
      (do
        if (← LoxScript.eval context steps conditionImage).isTruthy then
          onTrueImage
        else onFalseImage)
      machine image (alikeFlows r) := by
  refine (simulates.eval twin carries conditions).andThen ?_
  intro grown after afterImage value valueImage later twinAfter values
  rw [values.isTruthy]
  split
  · exact whenTrue grown after afterImage later twinAfter
  · exact whenFalse grown after afterImage later twinAfter

/-- Executing a statement, with one step more. -/
theorem exec_succ
    {statement statementImage : Stmt}
    (proper : r.Proper)
    (twin : machine.Twin r flags image)
    (carries : machine.store.Carries flags machine.active marks)
    (code : Stmt.Twin r marks statement statementImage) :
    Agrees r flags (LoxScript.exec context (steps + 1) statement)
      (LoxScript.exec context (steps + 1) statementImage) machine image
      (alikeFlows r) := by
  cases code with
  | print values =>
      unfold LoxScript.exec
      refine (simulates.eval twin carries values).andThen ?_
      intro flags₁ machine₁ image₁ shown shownImage later₁ twin₁ alike
      rw [Value.Twin.text alike (Store.faithful_likeness r flags₁ _)]
      refine (agrees_write twin₁ _).andThen ?_
      intro flags₂ machine₂ image₂ _ _ _ twin₂ _
      exact .ofPure twin₂ .normal
  | expression values =>
      unfold LoxScript.exec
      refine (simulates.eval twin carries values).andThen ?_
      intro grown after afterImage _ _ _ twinAfter _
      exact .ofPure twinAfter .normal
  | varDecl named initializers =>
      cases initializers with
      | none =>
          unfold LoxScript.exec
          refine (agrees_define twin carries named .nil).andThen ?_
          intro grown after afterImage _ _ _ twinAfter _
          exact .ofPure twinAfter .normal
      | some values =>
          unfold LoxScript.exec
          refine (simulates.eval twin carries values).andThen ?_
          intro flags₁ machine₁ image₁ value valueImage later₁ twin₁ alike
          refine (agrees_define twin₁ (later₁.carries carries) named
            alike).andThen ?_
          intro flags₂ machine₂ image₂ _ _ _ twin₂ _
          exact .ofPure twin₂ .normal
  | block marked bodies =>
      exact simulates.execBlock twin carries bodies
  | when conditions thenBranches =>
      unfold LoxScript.exec
      refine simulates.branch twin carries conditions ?_ ?_
      · intro grown after afterImage later twinAfter
        exact simulates.exec twinAfter (later.carries carries) thenBranches
      · intro grown after afterImage _ twinAfter
        exact .ofPure twinAfter .normal
  | conditional conditions thenBranches elseBranches =>
      unfold LoxScript.exec
      refine simulates.branch twin carries conditions ?_ ?_
      · intro grown after afterImage later twinAfter
        exact simulates.exec twinAfter (later.carries carries) thenBranches
      · intro grown after afterImage later twinAfter
        exact simulates.exec twinAfter (later.carries carries) elseBranches
  | loop conditions bodies =>
      unfold LoxScript.exec
      exact simulates.execLoop twin carries conditions bodies
  | funDecl spares code =>
      unfold LoxScript.exec
      refine (agrees_declareFunction twin carries spares code).andThen ?_
      intro grown after afterImage _ _ _ twinAfter _
      exact .ofPure twinAfter .normal
  | ret values =>
      cases values with
      | none =>
          unfold LoxScript.exec
          exact .ofPure twin (.returned .nil)
      | some values =>
          unfold LoxScript.exec
          refine (simulates.eval twin carries values).andThen ?_
          intro grown after afterImage value valueImage _ twinAfter alike
          exact .ofPure twinAfter (.returned alike)
  | classDecl spares superclasses codes =>
      unfold LoxScript.exec
      refine (agrees_declareClass proper twin carries spares superclasses
        codes).andThen ?_
      intro grown after afterImage _ _ _ twinAfter _
      exact .ofPure twinAfter .normal
  | require =>
      exact simulates.execRequire proper twin _ _

/-- Executing statements in order, with one step more. -/
theorem execAll_succ
    {statements statementsImage : List Stmt}
    (twin : machine.Twin r flags image)
    (carries : machine.store.Carries flags machine.active marks)
    (codes : Stmt.Twins r marks statements statementsImage) :
    Agrees r flags (LoxScript.execAll context (steps + 1) statements)
      (LoxScript.execAll context (steps + 1) statementsImage) machine image
      (alikeFlows r) := by
  cases codes with
  | nil =>
      unfold LoxScript.execAll
      exact .ofPure twin .normal
  | cons firsts rests =>
      unfold LoxScript.execAll
      refine (simulates.exec twin carries firsts).andThen ?_
      intro grown after afterImage flow flowImage later twinAfter flows
      cases flows with
      | normal =>
          exact simulates.execAll twinAfter (later.carries carries) rests
      | returned alike => exact .ofPure twinAfter (.returned alike)

/-- Executing a loop, with one step more. -/
theorem execLoop_succ
    {condition conditionImage : Expr}
    {body bodyImage : Stmt}
    (twin : machine.Twin r flags image)
    (carries : machine.store.Carries flags machine.active marks)
    (conditions : Expr.Twin r marks condition conditionImage)
    (bodies : Stmt.Twin r marks body bodyImage) :
    Agrees r flags (LoxScript.execLoop context (steps + 1) condition body)
      (LoxScript.execLoop context (steps + 1) conditionImage bodyImage)
      machine image
      (alikeFlows r) := by
  unfold LoxScript.execLoop
  refine simulates.branch twin carries conditions ?_ ?_
  · intro flags₁ machine₁ image₁ later₁ twin₁
    refine (simulates.exec twin₁ (later₁.carries carries) bodies).andThen ?_
    intro flags₂ machine₂ image₂ flow flowImage later₂ twin₂ flows
    cases flows with
    | normal =>
        exact simulates.execLoop twin₂ ((later₁.trans later₂).carries carries)
          conditions bodies
    | returned alike => exact .ofPure twin₂ (.returned alike)
  · intro grown after afterImage _ twinAfter
    exact .ofPure twinAfter .normal

end Simulates

/-- The evaluator agrees on twins, whatever the number of steps. -/
theorem simulates_always
    {context : Context}
    (proper : r.Proper)
    (blind : ∀ native ∈ context.natives, native.Blind r.start)
    (steps : Nat) :
    Simulates r context steps := by
  induction steps with
  | zero =>
      exact
        { eval := fun twin _ _ => by
            unfold eval
            exact .ofExhausted twin
          evalAll := fun twin _ _ => by
            unfold evalAll
            exact .ofExhausted twin
          apply := fun twin _ _ => by
            unfold apply
            exact .ofExhausted twin
          call := fun twin _ _ => by
            unfold call
            exact .ofExhausted twin
          exec := fun twin _ _ => by
            unfold exec
            exact .ofExhausted twin
          execAll := fun twin _ _ => by
            unfold execAll
            exact .ofExhausted twin
          execLoop := fun twin _ _ _ => by
            unfold execLoop
            exact .ofExhausted twin }
  | succ steps inductionHypothesis =>
      exact
        { eval := inductionHypothesis.eval_succ proper
          evalAll := inductionHypothesis.evalAll_succ
          apply := inductionHypothesis.apply_succ blind
          call := inductionHypothesis.call_succ proper
          exec := inductionHypothesis.exec_succ proper
          execAll := inductionHypothesis.execAll_succ
          execLoop := inductionHypothesis.execLoop_succ }

end LoxScript
