import LoxScript.Proofs.Counterpart.Declarations

namespace LoxScript

/-!
# Running counterparts

The evaluator keeps in step on codes that are alike, for every number of steps:
the one statement about each of its functions follows from the statements about
all of them for one step less.  What is still to be run stays alike while both
machines go on.
-/

open Run

variable {lines : Int} {kept : Function → Prop} {machine image : Machine}

section Operators

variable {operator other : Token}

/-- An operator on one operand fails a number of lines further down. -/
theorem Operator.unary_moved
    (lines : Int)
    (operator : Token)
    (operand : Value) :
    unary (operator.moved lines) operand =
      (unary operator operand).mapError (RuntimeError.moved lines) := by
  obtain ⟨kind, lexeme, line⟩ := operator
  cases kind with
  | symbol sign => cases sign <;> cases operand <;> rfl
  | _ => rfl

/-- An operator on two operands fails a number of lines further down. -/
theorem Operator.binary_moved
    (lines : Int)
    (operator : Token)
    (left right : Value) :
    binary (operator.moved lines) left right =
      (binary operator left right).mapError (RuntimeError.moved lines) := by
  obtain ⟨kind, lexeme, line⟩ := operator
  cases kind with
  | symbol sign => cases sign <;> cases left <;> cases right <;> rfl
  | _ => cases left <;> cases right <;> rfl

/-- A logical operator is settled by its kind and its left operand. -/
theorem Operator.isSettled_shifted
    (shifted : Token.Shifted lines operator other)
    (left : Value) :
    isSettled other left = isSettled operator left := by
  unfold isSettled
  rw [shifted.kind]

/-- Results of one operator, which refer to nothing. -/
theorem inStep_ofExcept
    (operation : Token → Except RuntimeError Value)
    (counterpart : machine.Counterpart lines kept image)
    (shifted : Token.Shifted lines operator other)
    (moves :
      operation (operator.moved lines) =
        (operation operator).mapError (RuntimeError.moved lines))
    (isAtom : ∀ value, operation operator = .ok value → value.IsAtom) :
    InStep lines kept (Run.ofExcept (operation operator))
      (Run.ofExcept (operation other)) machine image Correspondence.Values := by
  cases result : operation operator with
  | ok value =>
      have same : operation other = .ok value := by
        cases shifted with
        | same => exact result
        | moved => rw [moves, result]; rfl
      rw [same]
      exact .ofPure counterpart (isAtom value result).twin
  | error error =>
      cases shifted with
      | same =>
          rw [result]
          exact .ofFail counterpart error
      | moved =>
          rw [moves, result]
          exact .ofErrors counterpart .moved

end Operators

/-- The evaluator keeps in step on counterparts with this number of steps. -/
structure Accompanies
    (lines : Int)
    (kept : Function → Prop)
    (context : Context)
    (steps : Nat) : Prop where
  eval :
    ∀ {machine image expr exprImage}, machine.Counterpart lines kept image →
      Expr.Alike (machine.linked lines image) expr exprImage →
      InStep lines kept (eval context steps expr) (eval context steps exprImage)
        machine image Correspondence.Values
  evalAll :
    ∀ {machine image exprs exprsImage}, machine.Counterpart lines kept image →
      List.Forall₂ (Expr.Alike (machine.linked lines image)) exprs exprsImage →
      InStep lines kept (evalAll context steps exprs)
        (evalAll context steps exprsImage) machine image Correspondence.Lists
  apply :
    ∀ {machine image callee calleeImage arguments images},
      machine.Counterpart lines kept image →
      Callee.Twin (machine.linked lines image).likeness callee calleeImage →
      (machine.linked lines image).Lists arguments images →
      InStep lines kept (apply context steps callee arguments)
        (apply context steps calleeImage images) machine image
        Correspondence.Values
  call :
    ∀ {machine image function functionImage arguments images},
      machine.Counterpart lines kept image →
      (machine.linked lines image).Functions function functionImage →
      (machine.linked lines image).Lists arguments images →
      InStep lines kept (call context steps function arguments)
        (call context steps functionImage images) machine image
        Correspondence.Values
  exec :
    ∀ {machine image statement statementImage},
      machine.Counterpart lines kept image →
      Stmt.Alike (machine.linked lines image) statement statementImage →
      InStep lines kept (exec context steps statement)
        (exec context steps statementImage) machine image Correspondence.Flows
  execAll :
    ∀ {machine image statements statementsImage},
      machine.Counterpart lines kept image →
      List.Forall₂ (Stmt.Alike (machine.linked lines image)) statements
        statementsImage →
      InStep lines kept (execAll context steps statements)
        (execAll context steps statementsImage) machine image
        Correspondence.Flows
  execLoop :
    ∀ {machine image condition conditionImage body bodyImage},
      machine.Counterpart lines kept image →
      Expr.Alike (machine.linked lines image) condition conditionImage →
      Stmt.Alike (machine.linked lines image) body bodyImage →
      InStep lines kept (execLoop context steps condition body)
        (execLoop context steps conditionImage bodyImage) machine image
        Correspondence.Flows

namespace Accompanies

variable {context : Context} {steps : Nat}
variable (accompanies : Accompanies lines kept context steps)

include accompanies

/-- Calling what an expression yields with the values of others. -/
theorem callExpr
    {callee calleeImage : Expr}
    {arguments argumentsImage : List Expr}
    {paren parenImage : Token}
    (counterpart : machine.Counterpart lines kept image)
    (callees : Expr.Alike (machine.linked lines image) callee calleeImage)
    (parens : Token.Shifted lines paren parenImage)
    (lists : List.Forall₂ (Expr.Alike (machine.linked lines image)) arguments
      argumentsImage) :
    InStep lines kept
      (LoxScript.eval context (steps + 1) (.call callee paren arguments))
      (LoxScript.eval context (steps + 1)
        (.call calleeImage parenImage argumentsImage)) machine
      image Correspondence.Values := by
  unfold LoxScript.eval
  refine (accompanies.eval counterpart callees).andThen ?_
  intro machine₁ image₁ called calledImage follow₁ values
  refine (accompanies.evalAll follow₁.counterpart
    (follow₁.within.exprs lists)).andThen ?_
  intro machine₂ image₂ passed passedImage follow₂ passes
  have valuesHere := follow₂.value values
  have callable := valuesHere.callee?
  rw [valuesHere.typeName]
  generalize called.callee? = found at callable ⊢
  generalize calledImage.callee? = foundImage at callable ⊢
  cases callable with
  | none =>
      exact .ofToken follow₂.counterpart parens
        (fun token => .notCallable called.typeName token.line) rfl
  | some twins =>
      refine (inStep_checkArity follow₂.counterpart twins passes
        parens).andThen ?_
      intro machine₃ image₃ _ _ follow₃ _
      exact accompanies.apply follow₃.counterpart
        (twins.widen follow₃.within.likeness) (follow₃.values passes)

/-- The value of an expression, with one step more. -/
theorem eval_succ
    {expr exprImage : Expr}
    (counterpart : machine.Counterpart lines kept image)
    (code : Expr.Alike (machine.linked lines image) expr exprImage) :
    InStep lines kept (LoxScript.eval context (steps + 1) expr)
      (LoxScript.eval context (steps + 1) exprImage) machine image
      Correspondence.Values := by
  cases code with
  | @literal value =>
      unfold LoxScript.eval
      refine .ofPure counterpart (Value.IsAtom.twin ?_)
      cases value <;> trivial
  | grouping inners =>
      unfold LoxScript.eval
      exact accompanies.eval counterpart inners
  | unary operators operands =>
      unfold LoxScript.eval
      refine (accompanies.eval counterpart operands).andThen ?_
      intro after afterImage value valueImage follow values
      rw [values.unary]
      exact inStep_ofExcept (fun token => Operator.unary token value)
        follow.counterpart operators
        (Operator.unary_moved lines _ value) fun _ => Operator.isAtom_unary
  | binary lefts operators rights =>
      unfold LoxScript.eval
      refine (accompanies.eval counterpart lefts).andThen ?_
      intro machine₁ image₁ first firstImage follow₁ firsts
      refine (accompanies.eval follow₁.counterpart
        (follow₁.within.expr rights)).andThen ?_
      intro machine₂ image₂ second secondImage follow₂ seconds
      rw [(follow₂.value firsts).binary seconds
        (Machine.faithful_linked lines machine₂ image₂)]
      exact inStep_ofExcept (fun token => Operator.binary token first second)
        follow₂.counterpart operators
        (Operator.binary_moved lines _ first second) fun _ =>
          Operator.isAtom_binary
  | logical lefts operators rights =>
      unfold LoxScript.eval
      refine (accompanies.eval counterpart lefts).andThen ?_
      intro after afterImage first firstImage follow firsts
      rw [firsts.isSettled, Operator.isSettled_shifted operators]
      split
      · exact .ofPure follow.counterpart firsts
      · exact accompanies.eval follow.counterpart (follow.within.expr rights)
  | reference links names =>
      unfold LoxScript.eval
      exact inStep_readVariable counterpart links names
  | assign links names values =>
      unfold LoxScript.eval
      refine (accompanies.eval counterpart values).andThen ?_
      intro machine₁ image₁ stored storedImage follow₁ alike
      refine (inStep_assignVariable follow₁.counterpart
        (follow₁.within.nodes _ _ links) names alike).andThen ?_
      intro machine₂ image₂ _ _ follow₂ _
      exact .ofPure follow₂.counterpart (follow₂.value alike)
  | call callees parens lists =>
      exact accompanies.callExpr counterpart callees parens lists
  | @get _ _ name nameImage objects names =>
      unfold LoxScript.eval
      refine (accompanies.eval counterpart objects).andThen ?_
      intro after afterImage value valueImage follow values
      have fails : InStep lines kept
          (Run.fail (.notAnInstance name.lexeme value.typeName name.line) :
            Run Value)
          (Run.fail (.notAnInstance nameImage.lexeme valueImage.typeName
            nameImage.line) : Run Value)
          after afterImage Correspondence.Values := by
        rw [values.typeName, Token.Shifted.lexeme names]
        exact .ofToken follow.counterpart names
          (fun token => .notAnInstance name.lexeme value.typeName token.line)
          rfl
      cases values with
      | object alike =>
          exact inStep_getProperty follow.counterpart (.object alike) names
      | _ => exact fails
  | @set _ _ name nameImage _ _ objects names stores =>
      unfold LoxScript.eval
      refine (accompanies.eval counterpart objects).andThen ?_
      intro machine₁ image₁ value valueImage follow₁ values
      have fails : InStep lines kept
          (Run.fail (.notAnInstance name.lexeme value.typeName name.line) :
            Run Value)
          (Run.fail (.notAnInstance nameImage.lexeme valueImage.typeName
            nameImage.line) : Run Value)
          machine₁ image₁ Correspondence.Values := by
        rw [values.typeName, Token.Shifted.lexeme names]
        exact .ofToken follow₁.counterpart names
          (fun token => .notAnInstance name.lexeme value.typeName token.line)
          rfl
      cases values with
      | object alike =>
          refine (accompanies.eval follow₁.counterpart
            (follow₁.within.expr stores)).andThen ?_
          intro machine₂ image₂ stored storedImage follow₂ storedAlike
          rw [Token.Shifted.lexeme names]
          refine (inStep_setField follow₂.counterpart rfl storedAlike
            name.lexeme).andThen ?_
          intro machine₃ image₃ _ _ follow₃ _
          exact .ofPure follow₃.counterpart (follow₃.value storedAlike)
      | _ => exact fails
  | thisRef links keywords =>
      unfold LoxScript.eval
      exact inStep_readVariable counterpart links keywords
  | superRef links keywords methods =>
      unfold LoxScript.eval
      exact inStep_readSuper counterpart links keywords methods

/-- The values of expressions, with one step more. -/
theorem evalAll_succ
    {exprs exprsImage : List Expr}
    (counterpart : machine.Counterpart lines kept image)
    (codes :
      List.Forall₂ (Expr.Alike (machine.linked lines image)) exprs exprsImage) :
    InStep lines kept (LoxScript.evalAll context (steps + 1) exprs)
      (LoxScript.evalAll context (steps + 1) exprsImage) machine image
      Correspondence.Lists := by
  cases codes with
  | nil =>
      unfold LoxScript.evalAll
      exact .ofPure counterpart .nil
  | cons firsts rests =>
      unfold LoxScript.evalAll
      refine (accompanies.eval counterpart firsts).andThen ?_
      intro machine₁ image₁ value valueImage follow₁ values
      refine (accompanies.evalAll follow₁.counterpart
        (follow₁.within.exprs rests)).andThen ?_
      intro machine₂ image₂ others othersImage follow₂ lists
      exact .ofPure follow₂.counterpart (.cons (follow₂.value values) lists)

/-- Calling something, with one step more. -/
theorem apply_succ
    {callee calleeImage : Callee}
    {arguments images : List Value}
    (blind : ∀ native ∈ context.natives, native.BlindBut kept)
    (counterpart : machine.Counterpart lines kept image)
    (callees :
      Callee.Twin (machine.linked lines image).likeness callee calleeImage)
    (lists : (machine.linked lines image).Lists arguments images) :
    InStep lines kept (LoxScript.apply context (steps + 1) callee arguments)
      (LoxScript.apply context (steps + 1) calleeImage images) machine image
      Correspondence.Values := by
  cases callees with
  | native =>
      unfold LoxScript.apply
      exact inStep_callNative blind counterpart lists _
  | function functions =>
      unfold LoxScript.apply
      exact accompanies.call counterpart functions lists
  | @blueprint blueprint blueprintImage classes =>
      unfold LoxScript.apply
      refine (inStep_allocateInstance counterpart classes).andThen ?_
      intro machine₁ image₁ object objectImage follow₁ objects
      have methods :=
        (classes.widen follow₁.within.likeness).methods initializerName
      simp only [Class.initializer?]
      generalize blueprint.findMethod? initializerName = method at methods ⊢
      generalize blueprintImage.findMethod? initializerName =
        methodImage at methods ⊢
      cases methods with
      | none => exact .ofPure follow₁.counterpart objects
      | some twins =>
          refine (inStep_bind follow₁.counterpart twins objects).andThen ?_
          intro machine₂ image₂ bound boundImage follow₂ functions
          refine (accompanies.call follow₂.counterpart functions
            ((follow₁.trans follow₂).values lists)).andThen ?_
          intro machine₃ image₃ _ _ follow₃ _
          exact .ofPure follow₃.counterpart
            ((follow₂.trans follow₃).value objects)

/-- Calling a function, with one step more. -/
theorem call_succ
    {function functionImage : Function}
    {arguments images : List Value}
    (counterpart : machine.Counterpart lines kept image)
    (functions : (machine.linked lines image).Functions function functionImage)
    (lists : (machine.linked lines image).Lists arguments images) :
    InStep lines kept (LoxScript.call context (steps + 1) function arguments)
      (LoxScript.call context (steps + 1) functionImage images) machine image
      Correspondence.Values := by
  unfold LoxScript.call
  refine (inStep_callFrame counterpart functions lists).andThen ?_
  rintro machine₁ image₁ _ frame follow₁ rfl
  have entered : Machine.Counterpart lines kept
      { machine₁ with active := frame }
      { image₁ with active := frame } :=
    { follow₁.counterpart with active := rfl }
  have runs :=
    accompanies.execAll entered
    (follow₁.within.stmts functions.declaration.body)
  refine (inStep_inFrame follow₁.counterpart.active runs).andThen ?_
  intro machine₂ image₂ flow flowImage follow₂ flows
  exact inStep_callResult follow₂.counterpart
    ((follow₁.trans follow₂).within.likeness.functions _ _ functions) flows

/-- Executing a block, with one step more. -/
theorem execBlock
    {body bodyImage : List Stmt}
    (counterpart : machine.Counterpart lines kept image)
    (bodies :
      List.Forall₂ (Stmt.Alike (machine.linked lines image)) body bodyImage) :
    InStep lines kept (LoxScript.exec context (steps + 1) (.block body))
      (LoxScript.exec context (steps + 1) (.block bodyImage)) machine image
      Correspondence.Flows := by
  unfold LoxScript.exec
  refine .look ?_
  rw [counterpart.active]
  refine (inStep_allocate counterpart (fun _ => .none) _).andThen ?_
  rintro after afterImage _ frame follow rfl
  have entered : Machine.Counterpart lines kept { after with active := frame }
      { afterImage with active := frame } :=
    { follow.counterpart with active := rfl }
  have runs := accompanies.execAll entered (follow.within.stmts bodies)
  exact inStep_inFrame follow.counterpart.active runs

/-- Executing a required source, with one step more. -/
theorem execRequire
    {keyword keywordImage : Token}
    (counterpart : machine.Counterpart lines kept image)
    (keywords : Token.Shifted lines keyword keywordImage)
    (path : String) :
    InStep lines kept
      (LoxScript.exec context (steps + 1) (.require keyword path))
      (LoxScript.exec context (steps + 1) (.require keywordImage path))
        machine image
      Correspondence.Flows := by
  unfold LoxScript.exec
  refine (inStep_loadRequired counterpart keywords context path).andThen ?_
  intro machine₁ image₁ program programImage follow₁ programs
  have requiring : Machine.Counterpart lines kept
      { machine₁ with requiring := path :: machine₁.requiring }
      { image₁ with requiring := path :: image₁.requiring } :=
    { follow₁.counterpart with
      requiring := congrArg (path :: ·) follow₁.counterpart.requiring }
  have entered : Machine.Counterpart lines kept
      { machine₁ with
        requiring := path :: machine₁.requiring, active := globalFrame }
      { image₁ with
        requiring := path :: image₁.requiring, active := globalFrame } :=
    { requiring with active := rfl }
  have runs := accompanies.execAll entered programs
  have inGlobal := inStep_inFrame requiring.active runs
  refine (inStep_whileRequiring inGlobal).andThen ?_
  intro machine₂ image₂ _ _ follow₂ _
  exact .ofPure follow₂.counterpart .normal

/-- Executing one of two branches. -/
theorem branch
    {condition conditionImage : Expr}
    {onTrue onFalse onTrueImage onFalseImage : Run Flow}
    (counterpart : machine.Counterpart lines kept image)
    (conditions :
      Expr.Alike (machine.linked lines image) condition conditionImage)
    (whenTrue :
      ∀ after afterImage,
        Machine.Follow lines kept machine image after afterImage →
        InStep lines kept onTrue onTrueImage after afterImage
          Correspondence.Flows)
    (whenFalse :
      ∀ after afterImage,
        Machine.Follow lines kept machine image after afterImage →
        InStep lines kept onFalse onFalseImage after afterImage
          Correspondence.Flows) :
    InStep lines kept
      (do
        if (← LoxScript.eval context steps condition).isTruthy then onTrue
        else onFalse)
      (do
        if (← LoxScript.eval context steps conditionImage).isTruthy then
          onTrueImage
        else onFalseImage)
      machine image Correspondence.Flows := by
  refine (accompanies.eval counterpart conditions).andThen ?_
  intro after afterImage value valueImage follow values
  rw [values.isTruthy]
  split
  · exact whenTrue after afterImage follow
  · exact whenFalse after afterImage follow

/-- Executing a statement, with one step more. -/
theorem exec_succ
    {statement statementImage : Stmt}
    (counterpart : machine.Counterpart lines kept image)
    (code : Stmt.Alike (machine.linked lines image) statement statementImage) :
    InStep lines kept (LoxScript.exec context (steps + 1) statement)
      (LoxScript.exec context (steps + 1) statementImage) machine image
      Correspondence.Flows := by
  cases code with
  | print values =>
      unfold LoxScript.exec
      refine (accompanies.eval counterpart values).andThen ?_
      intro machine₁ image₁ shown shownImage follow₁ alike
      rw [Value.Twin.text alike (Machine.faithful_linked lines machine₁ image₁)]
      refine (inStep_write follow₁.counterpart _).andThen ?_
      intro machine₂ image₂ _ _ follow₂ _
      exact .ofPure follow₂.counterpart .normal
  | expression values =>
      unfold LoxScript.exec
      refine (accompanies.eval counterpart values).andThen ?_
      intro after afterImage _ _ follow _
      exact .ofPure follow.counterpart .normal
  | @varDecl name nameImage _ _ names initializers =>
      have lexemes : nameImage.lexeme = name.lexeme :=
        Token.Shifted.lexeme names
      cases initializers with
      | none =>
          unfold LoxScript.exec
          rw [lexemes]
          refine (inStep_define counterpart .nil name.lexeme).andThen ?_
          intro after afterImage _ _ follow _
          exact .ofPure follow.counterpart .normal
      | some values =>
          unfold LoxScript.exec
          refine (accompanies.eval counterpart values).andThen ?_
          intro machine₁ image₁ value valueImage follow₁ alike
          rw [lexemes]
          refine (inStep_define follow₁.counterpart alike
            name.lexeme).andThen ?_
          intro machine₂ image₂ _ _ follow₂ _
          exact .ofPure follow₂.counterpart .normal
  | block bodies =>
      exact accompanies.execBlock counterpart bodies
  | conditional conditions thenBranches elseBranches =>
      unfold LoxScript.exec
      refine accompanies.branch counterpart conditions ?_ ?_
      · intro after afterImage follow
        exact accompanies.exec follow.counterpart
          (follow.within.stmt thenBranches)
      · intro after afterImage follow
        cases elseBranches with
        | none => exact .ofPure follow.counterpart .normal
        | some branches =>
            exact accompanies.exec follow.counterpart
              (follow.within.stmt branches)
  | loop conditions bodies =>
      unfold LoxScript.exec
      exact accompanies.execLoop counterpart conditions bodies
  | funDecl code =>
      unfold LoxScript.exec
      refine (inStep_declareFunction counterpart code).andThen ?_
      intro after afterImage _ _ follow _
      exact .ofPure follow.counterpart .normal
  | ret _ values =>
      cases values with
      | none =>
          unfold LoxScript.exec
          exact .ofPure counterpart (.returned .nil)
      | some values =>
          unfold LoxScript.exec
          refine (accompanies.eval counterpart values).andThen ?_
          intro after afterImage value valueImage follow alike
          exact .ofPure follow.counterpart (.returned alike)
  | classDecl names superclasses codes =>
      unfold LoxScript.exec
      refine (inStep_declareClass counterpart names superclasses
        codes).andThen ?_
      intro after afterImage _ _ follow _
      exact .ofPure follow.counterpart .normal
  | require keywords =>
      exact accompanies.execRequire counterpart keywords _

/-- Executing statements in order, with one step more. -/
theorem execAll_succ
    {statements statementsImage : List Stmt}
    (counterpart : machine.Counterpart lines kept image)
    (codes :
      List.Forall₂ (Stmt.Alike (machine.linked lines image)) statements
        statementsImage) :
    InStep lines kept (LoxScript.execAll context (steps + 1) statements)
      (LoxScript.execAll context (steps + 1) statementsImage) machine image
      Correspondence.Flows := by
  cases codes with
  | nil =>
      unfold LoxScript.execAll
      exact .ofPure counterpart .normal
  | cons firsts rests =>
      unfold LoxScript.execAll
      refine (accompanies.exec counterpart firsts).andThen ?_
      intro after afterImage flow flowImage follow flows
      cases flows with
      | normal =>
          exact accompanies.execAll follow.counterpart
            (follow.within.stmts rests)
      | returned alike => exact .ofPure follow.counterpart (.returned alike)

/-- Executing a loop, with one step more. -/
theorem execLoop_succ
    {condition conditionImage : Expr}
    {body bodyImage : Stmt}
    (counterpart : machine.Counterpart lines kept image)
    (conditions :
      Expr.Alike (machine.linked lines image) condition conditionImage)
    (bodies : Stmt.Alike (machine.linked lines image) body bodyImage) :
    InStep lines kept (LoxScript.execLoop context (steps + 1) condition body)
      (LoxScript.execLoop context (steps + 1) conditionImage bodyImage)
      machine image
      Correspondence.Flows := by
  unfold LoxScript.execLoop
  refine accompanies.branch counterpart conditions ?_ ?_
  · intro machine₁ image₁ follow₁
    refine (accompanies.exec follow₁.counterpart
      (follow₁.within.stmt bodies)).andThen ?_
    intro machine₂ image₂ flow flowImage follow₂ flows
    have follow := follow₁.trans follow₂
    cases flows with
    | normal =>
        exact accompanies.execLoop follow₂.counterpart
          (follow.within.expr conditions) (follow.within.stmt bodies)
    | returned alike => exact .ofPure follow₂.counterpart (.returned alike)
  · intro after afterImage follow
    exact .ofPure follow.counterpart .normal

end Accompanies

/-- The evaluator keeps in step on counterparts, whatever the number of
steps. -/
theorem accompanies_always
    {context : Context}
    (blind : ∀ native ∈ context.natives, native.BlindBut kept)
    (steps : Nat) :
    Accompanies lines kept context steps := by
  induction steps with
  | zero =>
      exact
        { eval := fun counterpart _ => by
            unfold eval
            exact .ofExhausted counterpart
          evalAll := fun counterpart _ => by
            unfold evalAll
            exact .ofExhausted counterpart
          apply := fun counterpart _ _ => by
            unfold apply
            exact .ofExhausted counterpart
          call := fun counterpart _ _ => by
            unfold call
            exact .ofExhausted counterpart
          exec := fun counterpart _ => by
            unfold exec
            exact .ofExhausted counterpart
          execAll := fun counterpart _ => by
            unfold execAll
            exact .ofExhausted counterpart
          execLoop := fun counterpart _ _ => by
            unfold execLoop
            exact .ofExhausted counterpart }
  | succ steps inductionHypothesis =>
      exact
        { eval := inductionHypothesis.eval_succ
          evalAll := inductionHypothesis.evalAll_succ
          apply := inductionHypothesis.apply_succ blind
          call := inductionHypothesis.call_succ
          exec := inductionHypothesis.exec_succ
          execAll := inductionHypothesis.execAll_succ
          execLoop := inductionHypothesis.execLoop_succ }

end LoxScript
