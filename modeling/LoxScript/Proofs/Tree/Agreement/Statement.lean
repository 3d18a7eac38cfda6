import LoxScript.Proofs.Tree.Agreement.Expression

namespace LoxScript.Grammar

/-!
# Statements are read up to the first end of input

The parsers of statements and declarations agree on a whole list of tokens and
on those before its first end, with any two depths that are ample for these.
Every statement and every declaration takes in a token, so a sequence of them
comes to its end.
-/

open Parse

variable {mayRunOut : Prop} {beyond : List Token} {outside : Token}

section Parts

variable {size depth other : Nat}
variable {expression expressionOther : Parse Expr}
variable {statement statementOther declaration declarationOther : Parse Stmt}

/-- One round of a list of parts that goes on until a token stops it. -/
theorem agree_round
    {part partOther : Parse α}
    {rest restOther : Parse (List α)}
    (stops : Kind → Bool)
    (agree : Agree mayRunOut beyond outside size 1 part partOther)
    (agreeRest :
      1 ≤ size → Agree mayRunOut beyond outside (size - 1) 0 rest restOther) :
    Agree mayRunOut beyond outside size 0
      (do
        if stops (← currentKind) then return []
        else
          let first ← part
          return first :: (← rest))
      (do
        if stops (← currentKind) then return []
        else
          let first ← partOther
          return first :: (← restOther)) := by
  refine .byKind fun kind => Agree.knowing ?_ kind
  cases stops kind with
  | true => exact .ofPure []
  | false =>
      refine agree.andThen fun first some => ?_
      exact (agreeRest some).andThen fun others _ => .ofPure (first :: others)

/-- Statements one after another. -/
theorem agree_statementsUntil
    (agree : Agree mayRunOut beyond outside size 1 declaration declarationOther)
    (stop : Kind → Bool)
    (ample : Ample mayRunOut (size + 1) depth other) :
    Agree mayRunOut beyond outside size 0
      (statementsUntil stop declaration depth)
      (statementsUntil stop declarationOther other) := by
  refine ample.repeated (fun smaller depth other =>
    smaller ≤ size → Agree mayRunOut beyond outside smaller 0
      (statementsUntil stop declaration depth)
      (statementsUntil stop declarationOther other)) ?_ ?_ (Nat.le_refl size)
  · intro may smaller within
    exact .ofFail _ fun _ => may
  · intro smaller depth other _ goesOn within
    exact agree_round _ (agree.weaken within (Nat.le_refl 1)) fun some =>
      goesOn _ (by omega) (by omega)

/-- The statements of a block and its closing brace. -/
theorem agree_blockBody
    (agree : Agree mayRunOut beyond outside size 1 declaration declarationOther)
    (ample : Ample mayRunOut (size + 1) depth other) :
    Agree mayRunOut beyond outside size 1 (blockBody declaration depth)
      (blockBody declarationOther other) := by
  refine (agree_statementsUntil agree closesBlock ample).andThen
    fun body _ => ?_
  exact (agree_expectSymbol .rightBrace .blockClosing).andThen
    fun _ _ => .ofPure body

/-- Parameters with commas between them. -/
theorem agree_parameters
    (ample : Ample mayRunOut (size + 1) depth other)
    (count : Nat) :
    Agree mayRunOut beyond outside size 0 (parameters depth count)
      (parameters other count) := by
  refine ample.repeated (fun size depth other =>
    ∀ count, Agree mayRunOut beyond outside size 0 (parameters depth count)
      (parameters other count))
    ?_ ?_ count
  · intro may size count
    exact .ofFail _ fun _ => may
  · intro size depth other _ goesOn count
    unfold parameters
    by_cases tooMany : argumentLimit ≤ count
    · rw [if_pos tooMany, if_pos tooMany]
      exact .ofFail _ nofun
    · rw [if_neg tooMany, if_neg tooMany]
      refine (agree_expectName .parameterName).andThen fun first some => ?_
      refine agree_acceptSymbol (fun more => ?_) (.ofPure [first])
      exact (goesOn _ (by omega) (count + 1)).andThen fun rest _ =>
        .ofPure (first :: rest)

/-- A function or method from its name on. -/
theorem agree_function
    (agree : Agree mayRunOut beyond outside size 1 declaration declarationOther)
    (ample : Ample mayRunOut (size + 1) depth other)
    (role : FunctionRole) :
    Agree mayRunOut beyond outside size 1 (function declaration depth role)
      (function declarationOther other role) := by
  have body (name : Token) (params : List Token) (smaller : Nat)
      (within : smaller ≤ size) :
      Agree mayRunOut beyond outside smaller 0
        (do
          let _ ← expectSymbol .rightParen .parametersClosing
          let _ ← expectSymbol .leftBrace (.bodyOpening role)
          let body ← blockBody declaration depth
          return (⟨name, params, body⟩ : FunctionDecl))
        (do
          let _ ← expectSymbol .rightParen .parametersClosing
          let _ ← expectSymbol .leftBrace (.bodyOpening role)
          let body ← blockBody declarationOther other
          return (⟨name, params, body⟩ : FunctionDecl)) := by
    refine (agree_expectSymbol .rightParen .parametersClosing).andThen
      fun _ _ => ?_
    refine (agree_expectSymbol .leftBrace (.bodyOpening role)).andThen
      fun _ _ => ?_
    refine (agree_blockBody (agree.weaken (by omega) (Nat.le_refl 1))
      (ample.weaken (by omega))).andThen fun body _ => ?_
    exact .ofPure (FunctionDecl.mk name params body)
  refine (agree_expectName (.functionName role)).andThen fun name _ => ?_
  refine (agree_expectSymbol .leftParen (.parametersOpening role)).andThen
    fun _ _ => ?_
  refine agree_seesSymbol ((body name [] _ (by omega)).knowing _) ?_
  refine (agree_parameters (ample.weaken (by omega)) 0).andThen
    fun params _ => ?_
  exact body name params _ (by omega)

/-- Methods up to the end of a class. -/
theorem agree_methods
    {method methodOther : Parse FunctionDecl}
    (agree : Agree mayRunOut beyond outside size 1 method methodOther)
    (ample : Ample mayRunOut (size + 1) depth other) :
    Agree mayRunOut beyond outside size 0 (methods method depth)
      (methods methodOther other) := by
  refine ample.repeated (fun smaller depth other =>
    smaller ≤ size →
      Agree mayRunOut beyond outside smaller 0 (methods method depth)
      (methods methodOther other)) ?_ ?_ (Nat.le_refl size)
  · intro may smaller within
    exact .ofFail _ fun _ => may
  · intro smaller depth other _ goesOn within
    exact agree_round _ (agree.weaken within (Nat.le_refl 1)) fun some =>
      goesOn _ (by omega) (by omega)

/-- A class after the word `class`. -/
theorem agree_classDeclaration
    (agree : Agree mayRunOut beyond outside size 1 declaration declarationOther)
    (ample : Ample mayRunOut (size + 1) depth other) :
    Agree mayRunOut beyond outside size 0 (classDeclaration declaration depth)
      (classDeclaration declarationOther other) := by
  have body (name : Token) (superclass : Option SuperclassRef) (smaller : Nat)
      (within : smaller ≤ size) :
      Agree mayRunOut beyond outside smaller 0
        (do
          let _ ← expectSymbol .leftBrace .classOpening
          let declared ← methods (function declaration depth .method) depth
          let _ ← expectSymbol .rightBrace .classClosing
          return Stmt.classDecl name superclass declared)
        (do
          let _ ← expectSymbol .leftBrace .classOpening
          let declared ← methods (function declarationOther other .method) other
          let _ ← expectSymbol .rightBrace .classClosing
          return Stmt.classDecl name superclass declared) := by
    refine (agree_expectSymbol .leftBrace .classOpening).andThen fun _ _ => ?_
    have inside : Agree mayRunOut beyond outside (smaller - 1) 1
        (function declaration depth .method)
        (function declarationOther other .method) :=
      agree_function (agree.weaken (by omega) (Nat.le_refl 1))
        (ample.weaken (by omega)) .method
    refine (agree_methods inside (ample.weaken (by omega))).andThen
      fun declared _ => ?_
    exact (agree_expectSymbol .rightBrace .classClosing).andThen fun _ _ =>
      .ofPure (Stmt.classDecl name superclass declared)
  refine (agree_expectName .className).andThen fun name _ => ?_
  refine agree_acceptSymbol (fun _ => ?_) (body name none _ (by omega))
  refine (agree_expectName .superclassName).andThen fun superclassName _ => ?_
  refine agree_freshNode.andThen fun id _ => ?_
  exact body name (some ⟨id, superclassName⟩) _ (by omega)

/-- A variable after the word `var`. -/
theorem agree_variableDeclaration
    (agree : Agree mayRunOut beyond outside size 1 expression expressionOther) :
    Agree mayRunOut beyond outside size 0 (variableDeclaration expression)
      (variableDeclaration expressionOther) := by
  have ends (name : Token) (initializer : Option Expr) (smaller : Nat) :
      Agree mayRunOut beyond outside smaller 0
        (expectSymbol .semicolon .variableEnd >>= fun _ =>
          pure (Stmt.varDecl name initializer))
        (expectSymbol .semicolon .variableEnd >>= fun _ =>
          pure (Stmt.varDecl name initializer)) :=
    (agree_expectSymbol .semicolon .variableEnd).andThen fun _ _ =>
      .ofPure (Stmt.varDecl name initializer)
  refine (agree_expectName .variableName).andThen fun name _ => ?_
  refine agree_acceptSymbol (fun _ => ?_) (ends name none _)
  exact ((agree.weaken (by omega) (Nat.le_refl 1)).map some).andThen
    fun initializer _ =>
      ends name initializer _

/-- An expression that stands as a statement. -/
theorem agree_expressionStatement
    (agree : Agree mayRunOut beyond outside size 1 expression expressionOther) :
    Agree mayRunOut beyond outside size 1 (expressionStatement expression)
      (expressionStatement expressionOther) := by
  refine agree.andThen fun value _ => ?_
  exact (agree_expectSymbol .semicolon .expressionEnd).andThen fun _ _ =>
    .ofPure (Stmt.expression value)

/-- A `print` statement after its keyword. -/
theorem agree_printStatement
    (agree : Agree mayRunOut beyond outside size 1 expression expressionOther) :
    Agree mayRunOut beyond outside size 0 (printStatement expression)
      (printStatement expressionOther) := by
  refine agree.andThen fun value _ => ?_
  exact (agree_expectSymbol .semicolon .printEnd).andThen fun _ _ =>
    .ofPure (Stmt.print value)

/-- An expression that is missing where the symbol is next. -/
theorem agree_unlessSymbol
    {next nextOther : Option Expr → Parse α}
    (agree : Agree mayRunOut beyond outside size 1 expression expressionOther)
    (symbol : Symbol)
    (agreeNext :
      ∀ value smaller, smaller ≤ size →
        Agree mayRunOut beyond outside smaller 0 (next value)
          (nextOther value)) :
    Agree mayRunOut beyond outside size 0
      (do
        let value ←
          if ← seesSymbol symbol then pure none else some <$> expression
        next value)
      (do
        let value ←
          if ← seesSymbol symbol then pure none else some <$> expressionOther
        nextOther value) := by
  refine agree_seesSymbol
    ((agreeNext none size (Nat.le_refl size)).knowing _) ?_
  exact (agree.map some).andThen fun value _ => agreeNext value _ (by omega)

/-- A `return` statement after its keyword. -/
theorem agree_returnStatement
    (agree : Agree mayRunOut beyond outside size 1 expression expressionOther)
    (keyword : Token) :
    Agree mayRunOut beyond outside size 0 (returnStatement expression keyword)
      (returnStatement expressionOther keyword) :=
  agree_unlessSymbol agree .semicolon fun value _ _ =>
    (agree_expectSymbol .semicolon .returnEnd).andThen fun _ _ =>
      .ofPure (Stmt.ret keyword value)

/-- A `require` statement after its keyword. -/
theorem agree_requireStatement
    (keyword : Token) :
    Agree mayRunOut beyond outside size 0 (requireStatement keyword)
      (requireStatement keyword) := by
  refine .byKind fun kind => ?_
  cases kind with
  | string path =>
      refine .advance nofun fun _ _ => ?_
      exact (agree_expectSymbol .semicolon .requireEnd).andThen fun _ _ =>
        .ofPure (Stmt.require keyword path)
  | _ => exact (Agree.ofFail _ nofun).knowing _

/-- A `while` statement after its keyword. -/
theorem agree_whileStatement
    (agree : Agree mayRunOut beyond outside size 1 expression expressionOther)
    (agreeBody :
      Agree mayRunOut beyond outside size 1 statement statementOther) :
    Agree mayRunOut beyond outside size 0 (whileStatement expression statement)
      (whileStatement expressionOther statementOther) := by
  refine (agree_expectSymbol .leftParen .whileOpening).andThen fun _ _ => ?_
  refine (agree.weaken (by omega) (Nat.le_refl 1)).andThen fun condition _ => ?_
  refine (agree_expectSymbol .rightParen .whileClosing).andThen fun _ _ => ?_
  exact (agreeBody.weaken (by omega) (Nat.le_refl 1)).andThen fun body _ =>
    .ofPure (Stmt.loop condition body)

/-- An `if` statement after its keyword. -/
theorem agree_ifStatement
    (agree : Agree mayRunOut beyond outside size 1 expression expressionOther)
    (agreeBranch :
      Agree mayRunOut beyond outside size 1 statement statementOther) :
    Agree mayRunOut beyond outside size 0 (ifStatement expression statement)
      (ifStatement expressionOther statementOther) := by
  refine (agree_expectSymbol .leftParen .ifOpening).andThen fun _ _ => ?_
  refine (agree.weaken (by omega) (Nat.le_refl 1)).andThen fun condition _ => ?_
  refine (agree_expectSymbol .rightParen .ifClosing).andThen fun _ _ => ?_
  refine (agreeBranch.weaken (by omega) (Nat.le_refl 1)).andThen
    fun thenBranch _ => ?_
  refine agree_acceptKeyword (fun _ => ?_)
    (.ofPure (Stmt.conditional condition thenBranch none))
  exact ((agreeBranch.weaken (by omega) (Nat.le_refl 1)).map some).andThen
    fun elseBranch _ =>
      .ofPure (Stmt.conditional condition thenBranch elseBranch)

/-- The first clause of a `for` statement. -/
theorem agree_forInitializer
    (agree : Agree mayRunOut beyond outside size 1 expression expressionOther) :
    Agree mayRunOut beyond outside size 1 (forInitializer expression)
      (forInitializer expressionOther) := by
  refine agree_acceptSymbol (fun _ => .ofPure none)
    (agree_acceptKeyword (fun _ => ?_) ?_)
  · exact (agree_variableDeclaration
      (agree.weaken (by omega) (Nat.le_refl 1))).andThen
      fun declared _ => .ofPure (some declared)
  · exact (agree_expressionStatement agree).andThen fun evaluated _ =>
      .ofPure (some evaluated)

/-- A `for` statement after its keyword. -/
theorem agree_forStatement
    (agree : Agree mayRunOut beyond outside size 1 expression expressionOther)
    (agreeBody :
      Agree mayRunOut beyond outside size 1 statement statementOther) :
    Agree mayRunOut beyond outside size 0 (forStatement expression statement)
      (forStatement expressionOther statementOther) := by
  refine (agree_expectSymbol .leftParen .forOpening).andThen fun _ _ => ?_
  refine (agree_forInitializer
    (agree.weaken (by omega) (Nat.le_refl 1))).andThen
    fun initializer _ => ?_
  refine agree_unlessSymbol (agree.weaken (by omega) (Nat.le_refl 1)) .semicolon
    fun condition smaller within => ?_
  refine (agree_expectSymbol .semicolon .forConditionEnd).andThen fun _ _ => ?_
  refine agree_unlessSymbol (agree.weaken (by omega) (Nat.le_refl 1))
    .rightParen
    fun increment smaller within => ?_
  refine (agree_expectSymbol .rightParen .forClosing).andThen fun _ _ => ?_
  exact (agreeBody.weaken (by omega) (Nat.le_refl 1)).andThen fun body _ =>
    .ofPure (Stmt.forLoop initializer condition increment body)

end Parts

/-- A statement takes in a token, and so does a declaration. -/
theorem agree_statement_declaration
    (size depth other : Nat) :
    (Ample mayRunOut (2 * size + 3) depth other →
      Agree mayRunOut beyond outside size 1 (statement depth)
        (statement other)) ∧
    (Ample mayRunOut (2 * size + 4) depth other →
      Agree mayRunOut beyond outside size 1 (declaration depth)
        (declaration other)) := by
  -- A declaration goes on to a statement with the tokens it has, and a
  -- statement to an expression; every way back from a statement has taken in a
  -- token.
  induction depth generalizing size other with
  | zero =>
      cases other with
      | zero =>
          exact ⟨fun ample => .ofFail _ fun _ => ample.mayRunOut_of_zero,
            fun ample => .ofFail _ fun _ => ample.mayRunOut_of_zero⟩
      | succ other =>
          exact ⟨fun ample => absurd ample Ample.not_zero_succ,
            fun ample => absurd ample Ample.not_zero_succ⟩
  | succ depth inductionHypothesis =>
      cases other with
      | zero =>
          exact ⟨fun ample => absurd ample Ample.not_succ_zero,
            fun ample => absurd ample Ample.not_succ_zero⟩
      | succ other =>
          constructor
          · intro ample
            have value (smaller : Nat) (within : smaller ≤ size) :
                Agree mayRunOut beyond outside smaller 1 (expression depth)
                  (expression other) :=
              (agree_expression_unary smaller depth other).1
                (ample.inside (by omega))
            have inside (some : 1 ≤ size) :
                Agree mayRunOut beyond outside (size - 1) 1 (statement depth)
                  (statement other) :=
              (inductionHypothesis (size - 1) other).1 (ample.inside (by omega))
            have declared (some : 1 ≤ size) :
                Agree mayRunOut beyond outside (size - 1) 1 (declaration depth)
                  (declaration other) :=
              (inductionHypothesis (size - 1) other).2 (ample.inside (by omega))
            have plain :=
              agree_expressionStatement (value size (Nat.le_refl size))
            refine .byKind fun kind => ?_
            cases kind with
            | keyword word =>
                cases word with
                | ifWord =>
                    exact .advance nofun fun _ some =>
                      agree_ifStatement (value _ (by omega)) (inside some)
                | printWord =>
                    exact .advance nofun fun _ _ =>
                      agree_printStatement (value _ (by omega))
                | returnWord =>
                    exact .advance nofun fun keyword _ =>
                      agree_returnStatement (value _ (by omega)) keyword
                | requireWord =>
                    exact .advance nofun fun keyword _ =>
                      agree_requireStatement keyword
                | whileWord =>
                    exact .advance nofun fun _ some =>
                      agree_whileStatement (value _ (by omega)) (inside some)
                | forWord =>
                    exact .advance nofun fun _ some =>
                      agree_forStatement (value _ (by omega)) (inside some)
                | _ => exact plain.knowing _
            | symbol sign =>
                cases sign with
                | leftBrace =>
                    refine .advance nofun fun _ some => ?_
                    exact (agree_blockBody (declared some)
                      (ample.inside (by omega))).andThen
                      fun body _ => .ofPure (Stmt.block body)
                | _ => exact plain.knowing _
            | _ => exact plain.knowing _
          · intro ample
            have plain : Agree mayRunOut beyond outside size 1 (statement depth)
                (statement other) :=
              (inductionHypothesis size other).1 (ample.inside (by omega))
            have declared (some : 1 ≤ size) :
                Agree mayRunOut beyond outside (size - 1) 1 (declaration depth)
                  (declaration other) :=
              (inductionHypothesis (size - 1) other).2 (ample.inside (by omega))
            refine .byKind fun kind => ?_
            cases kind with
            | keyword word =>
                cases word with
                | varWord =>
                    refine .advance nofun fun _ _ =>
                      agree_variableDeclaration ?_
                    exact (agree_expression_unary _ depth other).1
                      (ample.inside (by omega))
                | funWord =>
                    refine .advance nofun fun _ some => ?_
                    exact (agree_function (declared some)
                      (ample.inside (by omega))
                      .function).andThen fun declaration _ =>
                        .ofPure (Stmt.funDecl declaration)
                | classWord =>
                    exact .advance nofun fun _ some =>
                      agree_classDeclaration (declared some)
                        (ample.inside (by omega))
                | _ => exact plain.knowing _
            | _ => exact plain.knowing _

/-- A program is read up to the first end of input. -/
theorem agree_program
    {size depth other : Nat}
    (ample : Ample mayRunOut (2 * size + 4) depth other) :
    Agree mayRunOut beyond outside size 0 (program depth) (program other) :=
  agree_statementsUntil
    ((agree_statement_declaration size depth other).2 ample) _
    (ample.weaken (by omega))

end LoxScript.Grammar
