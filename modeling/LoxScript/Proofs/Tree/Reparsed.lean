import LoxScript.Proofs.Tree.Alike
import LoxScript.Program

namespace LoxScript

/-!
# Parsing related tokens

Each parser of the grammar, from the parsers of its parts, makes trees that are
alike of tokens that are related.  So a program of tokens that are related one
by one to those of a program that is accepted by the grammar is accepted as
well.
-/

open Parse

namespace Grammar

variable {related : Correspondence} (lawful : related.Lawful)

/-- The parser makes expressions that are alike. -/
abbrev ParallelExpr (related : Correspondence) (parser : Parse Expr) : Prop :=
  Parallel related (Expr.Alike related) parser parser

/-- The parser makes statements that are alike. -/
abbrev ParallelStmt (related : Correspondence) (parser : Parse Stmt) : Prop :=
  Parallel related (Stmt.Alike related) parser parser

/-- An operator makes expressions that are alike of operands that are. -/
theorem alike_join
    (level : Level)
    {left left' right right' : Expr}
    {operator operator' : Token}
    (lefts : Expr.Alike related left left')
    (operators : related.tokens operator operator')
    (rights : Expr.Alike related right right') :
    Expr.Alike related (level.join left operator right)
      (level.join left' operator' right') := by
  cases level with
  | disjunction => exact .logical lefts operators rights
  | conjunction => exact .logical lefts operators rights
  | _ => exact .binary lefts operators rights

include lawful

/-- Operands that follow with operators of one level. -/
theorem parallel_chainRest
    {operand : Parse Expr}
    (operands : ParallelExpr related operand)
    (level : Level)
    (depth : Nat)
    {left left' : Expr}
    (lefts : Expr.Alike related left left') :
    Parallel related (Expr.Alike related) (chainRest level operand depth left)
      (chainRest level operand depth left') := by
  induction depth generalizing left left' with
  | zero =>
      exact .ofFail _
  | succ depth inductionHypothesis =>
      refine parallel_byKind lawful (fun _ _ => by cases level <;> rfl) ?_
      intro kind
      split
      · refine parallel_advance.andThen fun operator operator' operators => ?_
        refine operands.andThen fun right right' rights => ?_
        exact inductionHypothesis (alike_join level lefts operators rights)
      · exact .ofPure lefts

/-- Operands with operators of one level. -/
theorem parallel_chain
    {operand : Parse Expr}
    (operands : ParallelExpr related operand)
    (level : Level)
    (depth : Nat) :
    ParallelExpr related (chain level operand depth) :=
  operands.andThen fun _ _ firsts =>
    parallel_chainRest lawful operands level depth firsts

/-- Operands with operators of every level. -/
theorem parallel_operators
    {operand : Parse Expr}
    (operands : ParallelExpr related operand)
    (depth : Nat) :
    ParallelExpr related (operators operand depth) := by
  unfold operators
  induction Level.all with
  | nil => exact operands
  | cons level rest inductionHypothesis =>
      exact parallel_chain lawful inductionHypothesis level depth

/-- Storing a value in a target. -/
theorem parallel_assignTo
    {target target' value value' : Expr}
    {equals equals' : Token}
    (targets : Expr.Alike related target target')
    (signs : related.tokens equals equals')
    (values : Expr.Alike related value value') :
    Parallel related (Expr.Alike related) (assignTo target equals value)
      (assignTo target' equals' value') := by
  cases targets with
  | reference _ names =>
      refine (parallel_freshNode lawful).andThen fun id id' nodes => ?_
      exact .ofPure (.assign nodes names values)
  | get objects names => exact .ofPure (.set objects names values)
  | _ => exact .ofThrow signs _

/-- Assignments. -/
theorem parallel_assignment
    {target value : Parse Expr}
    (targets : ParallelExpr related target)
    (values : ParallelExpr related value) :
    ParallelExpr related (assignment target value) := by
  refine targets.andThen fun left left' lefts => ?_
  refine (parallel_seesSymbol lawful _).andThen ?_
  rintro seen _ rfl
  split
  · refine parallel_advance.andThen fun equals equals' signs => ?_
    refine values.andThen fun stored stored' storeds => ?_
    exact parallel_assignTo lawful lefts signs storeds
  · exact .ofPure lefts

/-- Arguments with commas between them. -/
theorem parallel_arguments
    {expression : Parse Expr}
    (expressions : ParallelExpr related expression)
    (depth count : Nat) :
    Parallel related (List.Forall₂ (Expr.Alike related))
      (arguments expression depth count)
      (arguments expression depth count) := by
  induction depth generalizing count with
  | zero =>
      exact .ofFail _
  | succ depth inductionHypothesis =>
      unfold arguments
      extract_lets goOn
      have goesOn : Parallel related (List.Forall₂ (Expr.Alike related))
          (goOn ()) (goOn ()) := by
        refine expressions.andThen fun first first' firsts => ?_
        refine (parallel_acceptSymbol lawful _).andThen ?_
        rintro more _ rfl
        split
        · refine (inductionHypothesis _).andThen fun rest rest' rests => ?_
          exact .ofPure (.cons firsts rests)
        · exact .ofPure (.cons firsts .nil)
      split
      · exact (Parallel.ofFail _).andThen fun _ _ (_ : True) => goesOn
      · exact goesOn

/-- The end of a call. -/
theorem parallel_finishCall
    {expression : Parse Expr}
    (expressions : ParallelExpr related expression)
    (depth : Nat)
    {callee callee' : Expr}
    (callees : Expr.Alike related callee callee') :
    Parallel related (Expr.Alike related) (finishCall expression depth callee)
      (finishCall expression depth callee') := by
  refine (parallel_seesSymbol lawful _).andThen ?_
  rintro seen _ rfl
  extract_lets goOn goOn'
  have goesOn (passed passed' : List Expr)
      (passes : List.Forall₂ (Expr.Alike related) passed passed') :
      Parallel related (Expr.Alike related) (goOn passed) (goOn' passed') := by
    refine (parallel_expectSymbol lawful _ _).andThen
      fun paren paren' parens => ?_
    exact .ofPure (.call callees parens passes)
  split
  · exact (Parallel.ofPure .nil).andThen goesOn
  · exact (parallel_arguments lawful expressions depth 0).andThen goesOn

/-- Calls and property accesses. -/
theorem parallel_postfixRest
    {expression : Parse Expr}
    (expressions : ParallelExpr related expression)
    (depth : Nat)
    {object object' : Expr}
    (objects : Expr.Alike related object object') :
    Parallel related (Expr.Alike related) (postfixRest expression depth object)
      (postfixRest expression depth object') := by
  induction depth generalizing object object' with
  | zero =>
      exact .ofFail _
  | succ depth inductionHypothesis =>
      refine (parallel_acceptSymbol lawful _).andThen ?_
      rintro called _ rfl
      split
      · refine (parallel_finishCall lawful expressions depth objects).andThen ?_
        intro call call' calls
        exact inductionHypothesis calls
      · refine (parallel_acceptSymbol lawful _).andThen ?_
        rintro accessed _ rfl
        split
        · refine (parallel_expectName lawful _).andThen
            fun name name' names => ?_
          exact inductionHypothesis (.get objects names)
        · exact .ofPure objects

/-- Expressions without operators. -/
theorem parallel_primary
    {expression : Parse Expr}
    (expressions : ParallelExpr related expression) :
    ParallelExpr related (primary expression) := by
  refine parallel_byKind lawful (fun _ _ => rfl) ?_
  intro kind
  split
  · exact parallel_advance.andThen fun _ _ _ => .ofPure .literal
  · split
    · refine parallel_advance.andThen fun name name' names => ?_
      refine (parallel_freshNode lawful).andThen fun id id' nodes => ?_
      exact .ofPure (.reference nodes names)
    · refine parallel_advance.andThen fun keyword keyword' keywords => ?_
      refine (parallel_freshNode lawful).andThen fun id id' nodes => ?_
      exact .ofPure (.thisRef nodes keywords)
    · refine parallel_advance.andThen fun keyword keyword' keywords => ?_
      refine (parallel_expectSymbol lawful _ _).andThen fun _ _ _ => ?_
      refine (parallel_expectName lawful _).andThen
        fun method method' methods => ?_
      refine (parallel_freshNode lawful).andThen fun id id' nodes => ?_
      exact .ofPure (.superRef nodes keywords methods)
    · refine parallel_advance.andThen fun _ _ _ => ?_
      refine expressions.andThen fun inner inner' inners => ?_
      refine (parallel_expectSymbol lawful _ _).andThen fun _ _ _ => ?_
      exact .ofPure (.grouping inners)
    · exact .ofFail _

/-- Expressions, and operands of the tightest operators. -/
theorem parallel_expression_unary
    (depth : Nat) :
    ParallelExpr related (expression depth) ∧
      ParallelExpr related (unary depth) := by
  induction depth with
  | zero =>
      exact ⟨.ofFail _, .ofFail _⟩
  | succ depth inductionHypothesis =>
      obtain ⟨expressions, unaries⟩ := inductionHypothesis
      refine ⟨?_, ?_⟩
      · exact parallel_assignment lawful
          (parallel_operators lawful unaries depth) expressions
      · have default : ParallelExpr related (do
            let object ← primary (expression depth)
            postfixRest (expression depth) depth object) := by
          refine (parallel_primary lawful expressions).andThen
            fun object object' objects => ?_
          exact parallel_postfixRest lawful expressions depth objects
        have prefixed : ParallelExpr related (do
            let operator ← advance
            return .unary operator (← unary depth)) := by
          refine parallel_advance.andThen fun operator operator' operators => ?_
          refine unaries.andThen fun operand operand' operands => ?_
          exact .ofPure (.unary operators operands)
        refine parallel_byKind lawful (fun _ _ => rfl) ?_
        intro kind
        split
        · exact prefixed
        · exact prefixed
        · exact default

/-- Expressions. -/
theorem parallel_expression
    (depth : Nat) :
    ParallelExpr related (expression depth) :=
  (parallel_expression_unary lawful depth).1

/-- Statements up to a stop. -/
theorem parallel_statementsUntil
    {stop : Kind → Bool}
    {declaration : Parse Stmt}
    (stops : ∀ name other, stop (.identifier name) = stop (.identifier other))
    (declarations : ParallelStmt related declaration)
    (depth : Nat) :
    Parallel related (List.Forall₂ (Stmt.Alike related))
      (statementsUntil stop declaration depth)
      (statementsUntil stop declaration depth) := by
  induction depth with
  | zero =>
      exact .ofFail _
  | succ depth inductionHypothesis =>
      refine parallel_byKind lawful ?_ ?_
      · intro name other
        dsimp only
        rw [stops name other]
      · intro kind
        generalize (stop kind || _) = ended
        split
        · exact .ofPure .nil
        · refine declarations.andThen fun first first' firsts => ?_
          refine inductionHypothesis.andThen fun rest rest' rests => ?_
          exact .ofPure (.cons firsts rests)

/-- The statements of a block. -/
theorem parallel_blockBody
    {declaration : Parse Stmt}
    (declarations : ParallelStmt related declaration)
    (depth : Nat) :
    Parallel related (List.Forall₂ (Stmt.Alike related))
      (blockBody declaration depth) (blockBody declaration depth) := by
  refine (parallel_statementsUntil lawful (fun _ _ => rfl) declarations
    depth).andThen ?_
  intro body body' bodies
  refine (parallel_expectSymbol lawful _ _).andThen fun _ _ _ => ?_
  exact .ofPure bodies

/-- Parameters with commas between them. -/
theorem parallel_parameters
    (depth count : Nat) :
    Parallel related (List.Forall₂ related.tokens) (parameters depth count)
      (parameters depth count) := by
  induction depth generalizing count with
  | zero =>
      exact .ofFail _
  | succ depth inductionHypothesis =>
      unfold parameters
      extract_lets goOn
      have goesOn : Parallel related (List.Forall₂ related.tokens) (goOn ())
          (goOn ()) := by
        refine (parallel_expectName lawful _).andThen
          fun first first' firsts => ?_
        refine (parallel_acceptSymbol lawful _).andThen ?_
        rintro more _ rfl
        split
        · refine (inductionHypothesis _).andThen fun rest rest' rests => ?_
          exact .ofPure (.cons firsts rests)
        · exact .ofPure (.cons firsts .nil)
      split
      · exact (Parallel.ofFail _).andThen fun _ _ (_ : True) => goesOn
      · exact goesOn

/-- Functions and methods. -/
theorem parallel_function
    {declaration : Parse Stmt}
    (declarations : ParallelStmt related declaration)
    (depth : Nat)
    (role : FunctionRole) :
    Parallel related (FunctionDecl.Alike related)
      (function declaration depth role) (function declaration depth role) := by
  refine (parallel_expectName lawful _).andThen fun name name' names => ?_
  refine (parallel_expectSymbol lawful _ _).andThen fun _ _ _ => ?_
  refine (parallel_seesSymbol lawful _).andThen ?_
  rintro seen _ rfl
  extract_lets goOn goOn'
  have goesOn (params params' : List Token)
      (paramLists : List.Forall₂ related.tokens params params') :
      Parallel related (FunctionDecl.Alike related) (goOn params)
        (goOn' params') := by
    refine (parallel_expectSymbol lawful _ _).andThen fun _ _ _ => ?_
    refine (parallel_expectSymbol lawful _ _).andThen fun _ _ _ => ?_
    refine (parallel_blockBody lawful declarations depth).andThen
      fun body body' bodies => ?_
    exact .ofPure (.intro names paramLists bodies)
  split
  · exact (Parallel.ofPure .nil).andThen goesOn
  · exact (parallel_parameters lawful depth 0).andThen goesOn

/-- The methods of a class. -/
theorem parallel_methods
    {method : Parse FunctionDecl}
    (methodPairs : Parallel related (FunctionDecl.Alike related) method method)
    (depth : Nat) :
    Parallel related (List.Forall₂ (FunctionDecl.Alike related))
      (methods method depth) (methods method depth) := by
  induction depth with
  | zero =>
      exact .ofFail _
  | succ depth inductionHypothesis =>
      refine parallel_byKind lawful (fun _ _ => rfl) ?_
      intro kind
      generalize (closesBlock kind || _) = ended
      split
      · exact .ofPure .nil
      · refine methodPairs.andThen fun first first' firsts => ?_
        refine inductionHypothesis.andThen fun rest rest' rests => ?_
        exact .ofPure (.cons firsts rests)

/-- Classes. -/
theorem parallel_classDeclaration
    {declaration : Parse Stmt}
    (declarations : ParallelStmt related declaration)
    (depth : Nat) :
    ParallelStmt related (classDeclaration declaration depth) := by
  refine (parallel_expectName lawful _).andThen fun name name' names => ?_
  refine (parallel_acceptSymbol lawful _).andThen ?_
  rintro inherits _ rfl
  extract_lets goOn goOn'
  have goesOn (superclass superclass' : Option SuperclassRef)
      (superclasses :
        Option.Rel (SuperclassRef.Alike related) superclass superclass') :
      Parallel related (Stmt.Alike related) (goOn superclass)
        (goOn' superclass') := by
    refine (parallel_expectSymbol lawful _ _).andThen fun _ _ _ => ?_
    have methodPairs := parallel_function lawful declarations depth .method
    refine (parallel_methods lawful methodPairs depth).andThen ?_
    intro declared declared' lists
    refine (parallel_expectSymbol lawful _ _).andThen fun _ _ _ => ?_
    exact .ofPure (.classDecl names superclasses lists)
  split
  · refine (parallel_expectName lawful _).andThen
      fun parent parent' parents => ?_
    refine (parallel_freshNode lawful).andThen fun id id' nodes => ?_
    exact (Parallel.ofPure (.some ⟨nodes, parents⟩)).andThen goesOn
  · exact (Parallel.ofPure .none).andThen goesOn

omit lawful in
/-- An expression that is there or not. -/
theorem parallel_optional
    {expression : Parse Expr}
    (expressions : ParallelExpr related expression) :
    Parallel related (Option.Rel (Expr.Alike related)) (some <$> expression)
      (some <$> expression) :=
  expressions.map fun _ _ values => .some values

/-- Variables. -/
theorem parallel_variableDeclaration
    {expression : Parse Expr}
    (expressions : ParallelExpr related expression) :
    ParallelStmt related (variableDeclaration expression) := by
  refine (parallel_expectName lawful _).andThen fun name name' names => ?_
  refine (parallel_acceptSymbol lawful _).andThen ?_
  rintro initialized _ rfl
  extract_lets goOn goOn'
  have goesOn (initializer initializer' : Option Expr)
      (initializers :
        Option.Rel (Expr.Alike related) initializer initializer') :
      Parallel related (Stmt.Alike related) (goOn initializer)
        (goOn' initializer') := by
    refine (parallel_expectSymbol lawful _ _).andThen fun _ _ _ => ?_
    exact .ofPure (.varDecl names initializers)
  split
  · exact (parallel_optional expressions).andThen goesOn
  · exact (Parallel.ofPure .none).andThen goesOn

/-- Expressions that stand as statements. -/
theorem parallel_expressionStatement
    {expression : Parse Expr}
    (expressions : ParallelExpr related expression) :
    ParallelStmt related (expressionStatement expression) := by
  refine expressions.andThen fun value value' values => ?_
  refine (parallel_expectSymbol lawful _ _).andThen fun _ _ _ => ?_
  exact .ofPure (.expression values)

/-- `print` statements. -/
theorem parallel_printStatement
    {expression : Parse Expr}
    (expressions : ParallelExpr related expression) :
    ParallelStmt related (printStatement expression) := by
  refine expressions.andThen fun value value' values => ?_
  refine (parallel_expectSymbol lawful _ _).andThen fun _ _ _ => ?_
  exact .ofPure (.print values)

/-- `return` statements. -/
theorem parallel_returnStatement
    {expression : Parse Expr}
    {keyword keyword' : Token}
    (expressions : ParallelExpr related expression)
    (keywords : related.tokens keyword keyword') :
    Parallel related (Stmt.Alike related) (returnStatement expression keyword)
      (returnStatement expression keyword') := by
  refine (parallel_seesSymbol lawful _).andThen ?_
  rintro ended _ rfl
  extract_lets goOn goOn'
  have goesOn (value value' : Option Expr)
      (values : Option.Rel (Expr.Alike related) value value') :
      Parallel related (Stmt.Alike related) (goOn value) (goOn' value') := by
    refine (parallel_expectSymbol lawful _ _).andThen fun _ _ _ => ?_
    exact .ofPure (.ret keywords values)
  split
  · exact (Parallel.ofPure .none).andThen goesOn
  · exact (parallel_optional expressions).andThen goesOn

/-- `require` statements. -/
theorem parallel_requireStatement
    {keyword keyword' : Token}
    (keywords : related.tokens keyword keyword') :
    Parallel related (Stmt.Alike related) (requireStatement keyword)
      (requireStatement keyword') := by
  refine parallel_byKind lawful (fun _ _ => rfl) ?_
  intro kind
  cases kind with
  | string path =>
      refine parallel_advance.andThen fun _ _ _ => ?_
      refine (parallel_expectSymbol lawful _ _).andThen fun _ _ _ => ?_
      exact .ofPure (.require keywords)
  | _ => exact .ofFail _

/-- `while` statements. -/
theorem parallel_whileStatement
    {expression : Parse Expr}
    {statement : Parse Stmt}
    (expressions : ParallelExpr related expression)
    (statements : ParallelStmt related statement) :
    ParallelStmt related (whileStatement expression statement) := by
  refine (parallel_expectSymbol lawful _ _).andThen fun _ _ _ => ?_
  refine expressions.andThen fun condition condition' conditions => ?_
  refine (parallel_expectSymbol lawful _ _).andThen fun _ _ _ => ?_
  refine statements.andThen fun body body' bodies => ?_
  exact .ofPure (.loop conditions bodies)

/-- `if` statements. -/
theorem parallel_ifStatement
    {expression : Parse Expr}
    {statement : Parse Stmt}
    (expressions : ParallelExpr related expression)
    (statements : ParallelStmt related statement) :
    ParallelStmt related (ifStatement expression statement) := by
  refine (parallel_expectSymbol lawful _ _).andThen fun _ _ _ => ?_
  refine expressions.andThen fun condition condition' conditions => ?_
  refine (parallel_expectSymbol lawful _ _).andThen fun _ _ _ => ?_
  refine statements.andThen fun thenBranch thenBranch' thenBranches => ?_
  refine (parallel_acceptKeyword lawful _).andThen ?_
  rintro hasElse _ rfl
  extract_lets goOn goOn'
  have goesOn (elseBranch elseBranch' : Option Stmt)
      (elseBranches : Option.Rel (Stmt.Alike related) elseBranch elseBranch') :
      Parallel related (Stmt.Alike related) (goOn elseBranch)
        (goOn' elseBranch') :=
    .ofPure (.conditional conditions thenBranches elseBranches)
  split
  · exact (statements.map fun _ _ branches => Option.Rel.some branches).andThen
      goesOn
  · exact (Parallel.ofPure .none).andThen goesOn

/-- First clauses of `for` statements. -/
theorem parallel_forInitializer
    {expression : Parse Expr}
    (expressions : ParallelExpr related expression) :
    Parallel related (Option.Rel (Stmt.Alike related))
      (forInitializer expression) (forInitializer expression) := by
  refine (parallel_acceptSymbol lawful _).andThen ?_
  rintro absent _ rfl
  split
  · exact .ofPure .none
  · refine (parallel_acceptKeyword lawful _).andThen ?_
    rintro declares _ rfl
    split
    · refine (parallel_variableDeclaration lawful expressions).andThen
        fun _ _ firsts => ?_
      exact .ofPure (.some firsts)
    · refine (parallel_expressionStatement lawful expressions).andThen
        fun _ _ firsts => ?_
      exact .ofPure (.some firsts)

omit lawful in
/-- `for` loops of clauses that are alike. -/
theorem alike_forLoop
    {initializer initializer' : Option Stmt}
    {condition condition' increment increment' : Option Expr}
    {body body' : Stmt}
    (initializers : Option.Rel (Stmt.Alike related) initializer initializer')
    (conditions : Option.Rel (Expr.Alike related) condition condition')
    (increments : Option.Rel (Expr.Alike related) increment increment')
    (bodies : Stmt.Alike related body body') :
    Stmt.Alike related (Stmt.forLoop initializer condition increment body)
      (Stmt.forLoop initializer' condition' increment' body') := by
  have guards : Expr.Alike related (condition.getD (.literal (.boolean true)))
      (condition'.getD (.literal (.boolean true))) := by
    cases conditions with
    | none => exact .literal
    | some guards => exact guards
  have loops : ∀ {repeated repeated' : Stmt},
      Stmt.Alike related repeated repeated' →
      Stmt.Alike related
        (.loop (condition.getD (.literal (.boolean true))) repeated)
        (.loop (condition'.getD (.literal (.boolean true))) repeated') :=
    fun repeats => .loop guards repeats
  cases increments with
  | none =>
      cases initializers with
      | none => exact loops bodies
      | some firsts => exact .block (.cons firsts (.cons (loops bodies) .nil))
  | some steps =>
      have repeats :=
        Stmt.Alike.block (.cons bodies (.cons (.expression steps) .nil))
      cases initializers with
      | none => exact loops repeats
      | some firsts => exact .block (.cons firsts (.cons (loops repeats) .nil))

/-- A clause of a `for` statement and the symbol after it. -/
theorem parallel_clause
    {expression : Parse Expr}
    {next next' : Option Expr → Parse Stmt}
    (expressions : ParallelExpr related expression)
    (symbol : Symbol)
    (parallelNext :
      ∀ value value', Option.Rel (Expr.Alike related) value value' →
        Parallel related (Stmt.Alike related) (next value) (next' value')) :
    Parallel related (Stmt.Alike related)
      (do
        let value ←
          if ← seesSymbol symbol then pure none else some <$> expression
        next value)
      (do
        let value ←
          if ← seesSymbol symbol then pure none else some <$> expression
        next' value) := by
  refine (parallel_seesSymbol lawful _).andThen ?_
  rintro ended _ rfl
  split
  · exact (Parallel.ofPure .none).andThen parallelNext
  · exact (parallel_optional expressions).andThen parallelNext

/-- `for` statements. -/
theorem parallel_forStatement
    {expression : Parse Expr}
    {statement : Parse Stmt}
    (expressions : ParallelExpr related expression)
    (statements : ParallelStmt related statement) :
    ParallelStmt related (forStatement expression statement) := by
  refine (parallel_expectSymbol lawful _ _).andThen fun _ _ _ => ?_
  refine (parallel_forInitializer lawful expressions).andThen
    fun first first' firsts => ?_
  refine parallel_clause lawful expressions _
    fun condition condition' conditions => ?_
  refine (parallel_expectSymbol lawful _ _).andThen fun _ _ _ => ?_
  refine parallel_clause lawful expressions _
    fun increment increment' increments => ?_
  refine (parallel_expectSymbol lawful _ _).andThen fun _ _ _ => ?_
  refine statements.andThen fun body body' bodies => ?_
  exact .ofPure (alike_forLoop firsts conditions increments bodies)

/-- Statements, and declarations. -/
theorem parallel_statement_declaration
    (depth : Nat) :
    ParallelStmt related (statement depth) ∧
      ParallelStmt related (declaration depth) := by
  induction depth with
  | zero =>
      exact ⟨.ofFail _, .ofFail _⟩
  | succ depth inductionHypothesis =>
      obtain ⟨statements, declarations⟩ := inductionHypothesis
      have expressions : ParallelExpr related (expression depth) :=
        parallel_expression lawful depth
      refine ⟨?_, ?_⟩
      · refine parallel_byKind lawful (fun _ _ => rfl) ?_
        intro kind
        split
        · exact parallel_advance.andThen fun _ _ _ =>
            parallel_ifStatement lawful expressions statements
        · exact parallel_advance.andThen fun _ _ _ =>
            parallel_printStatement lawful expressions
        · exact parallel_advance.andThen fun _ _ keywords =>
            parallel_returnStatement lawful expressions keywords
        · exact parallel_advance.andThen fun _ _ keywords =>
            parallel_requireStatement lawful keywords
        · refine parallel_advance.andThen fun _ _ _ => ?_
          refine (parallel_blockBody lawful declarations depth).andThen
            fun _ _ bodies => ?_
          exact .ofPure (.block bodies)
        · exact parallel_advance.andThen fun _ _ _ =>
            parallel_whileStatement lawful expressions statements
        · exact parallel_advance.andThen fun _ _ _ =>
            parallel_forStatement lawful expressions statements
        · exact parallel_expressionStatement lawful expressions
      · refine parallel_byKind lawful (fun _ _ => rfl) ?_
        intro kind
        split
        · exact parallel_advance.andThen fun _ _ _ =>
            parallel_variableDeclaration lawful expressions
        · refine parallel_advance.andThen fun _ _ _ => ?_
          refine (parallel_function lawful declarations depth _).andThen
            fun _ _ codes => ?_
          exact .ofPure (.funDecl codes)
        · exact parallel_advance.andThen fun _ _ _ =>
            parallel_classDeclaration lawful declarations depth
        · exact statements

end Grammar

section Program

variable {related : Token → Token → Prop} {tokens others : List Token}

/-- Related tokens mark the end of the input alike. -/
theorem KeepsKinds.isEnd
    {token other : Token}
    (keepsKinds : KeepsKinds related)
    (pair : related token other) :
    other.isEnd = token.isEnd := by
  obtain ⟨kind, lexeme, line⟩ := token
  obtain ⟨kind', lexeme', line'⟩ := other
  have kinds : Kind.Alike kind kind' := keepsKinds _ _ pair
  cases kinds <;> rfl

section Tokens

variable (keepsKinds : KeepsKinds related)

include keepsKinds

/-- What stands before the first end of input is related. -/
theorem related_takeWhile
    (pairs : List.Forall₂ related tokens others) :
    List.Forall₂ related (tokens.takeWhile fun token => !token.isEnd)
      (others.takeWhile fun token => !token.isEnd) := by
  induction pairs with
  | nil =>
      exact .nil
  | @cons token other _ _ pair _ inductionHypothesis =>
      have same := keepsKinds.isEnd pair
      cases isEnd : token.isEnd with
      | true => simp [isEnd, same]
      | false => simpa [isEnd, same] using ⟨pair, inductionHypothesis⟩

/-- The first ends of input are related. -/
theorem related_find?
    (pairs : List.Forall₂ related tokens others) :
    Option.Rel related (tokens.find? Token.isEnd)
      (others.find? Token.isEnd) := by
  induction pairs with
  | nil =>
      exact .none
  | @cons token other _ _ pair _ inductionHypothesis =>
      have same := keepsKinds.isEnd pair
      cases isEnd : token.isEnd with
      | true => simpa [isEnd, same] using Option.Rel.some pair
      | false => simpa [isEnd, same] using inductionHypothesis

omit keepsKinds in
/-- The last tokens are related. -/
theorem related_getLast?
    (pairs : List.Forall₂ related tokens others) :
    Option.Rel related tokens.getLast? others.getLast? := by
  induction pairs with
  | nil =>
      exact .none
  | @cons token other rest restOthers pair restPairs inductionHypothesis =>
      cases restPairs with
      | nil => exact .some pair
      | cons _ _ => simpa [List.getLast?_cons_cons] using inductionHypothesis

end Tokens

/-- What becomes of related tokens: both lists spell programs that are alike, or
neither does, for one reason. -/
inductive ParseOutcome.Alike (related : Correspondence) :
    Except ParseError (List Stmt) × NodeId →
      Except ParseError (List Stmt) × NodeId → Prop where
  | parsed {statements statements' next next'} :
      List.Forall₂ (Stmt.Alike related) statements statements' →
      related.nodes next next' →
      Alike related (.ok statements, next) (.ok statements', next')
  | failed {error error' next next'} :
      ParseError.Alike related error error' → related.nodes next next' →
      Alike related (.error error, next) (.error error', next')

/-- Tokens that are related one by one are parsed alike. -/
theorem parseProgram_alike
    {related : Correspondence}
    {first firstOther : NodeId}
    (lawful : related.Lawful)
    (pairs : List.Forall₂ related.tokens tokens others)
    (nodes : related.nodes first firstOther) :
    ParseOutcome.Alike related (parseProgram tokens first)
      (parseProgram others firstOther) := by
  have pendings := related_takeWhile lawful.kinds pairs
  have ends := related_find? lawful.kinds pairs
  have lasts := related_getLast? pairs
  unfold parseProgram Cursor.ofTokens?
  generalize tokens.getLast? = last at lasts ⊢
  generalize others.getLast? = lastOther at lasts ⊢
  cases lasts with
  | none => exact .failed .noTokens nodes
  | @some last lastOther lastPair =>
      have same := lawful.kinds.isEnd lastPair
      cases isEnd : last.isEnd with
      | false =>
          simp only [isEnd, same, Bool.false_eq_true, if_false]
          exact .failed (.atToken lastPair) nodes
      | true =>
          simp only [isEnd, same, if_true]
          have finishes : related.tokens ((tokens.find? Token.isEnd).getD last)
              ((others.find? Token.isEnd).getD lastOther) := by
            generalize tokens.find? Token.isEnd = found at ends ⊢
            generalize others.find? Token.isEnd = foundOther at ends ⊢
            cases ends with
            | none => exact lastPair
            | some pair => exact pair
          rw [← pendings.length_eq]
          generalize Grammar.depthFor _ = depth
          have programs : Parallel related (List.Forall₂ (Stmt.Alike related))
              (Grammar.program depth) (Grammar.program depth) :=
            Grammar.parallel_statementsUntil lawful (fun _ _ => rfl)
              (Grammar.parallel_statement_declaration lawful depth).2 depth
          generalize (tokens.find? Token.isEnd).getD last = finish at finishes ⊢
          generalize (others.find? Token.isEnd).getD lastOther =
            finishOther at finishes ⊢
          have mirrors :=
            programs ⟨_, finish, first⟩ ⟨_, finishOther, firstOther⟩
            ⟨pendings, finishes, nodes⟩
          cases outcome : Grammar.program depth ⟨_, finish, first⟩ with
          | ok statements rest =>
              obtain ⟨statementsOther, restOther, yields, alike, cursors⟩ :=
                mirrors.ok outcome
              simp only [yields]
              exact .parsed alike cursors.nextNode
          | error error rest =>
              obtain ⟨errorOther, restOther, fails, errors, nodesAfter⟩ :=
                mirrors.error outcome
              simp only [fails]
              exact .failed errors nodesAfter

/-- A list of tokens that are related to those of a program spells a program
that is alike. -/
theorem parseProgram_ok_alike
    {related : Correspondence}
    {statements : List Stmt}
    {first firstOther next : NodeId}
    (lawful : related.Lawful)
    (pairs : List.Forall₂ related.tokens tokens others)
    (nodes : related.nodes first firstOther)
    (parsed : parseProgram tokens first = (.ok statements, next)) :
    ∃ statementsOther nextOther,
      parseProgram others firstOther = (.ok statementsOther, nextOther) ∧
        List.Forall₂ (Stmt.Alike related) statements statementsOther ∧
        related.nodes next nextOther := by
  have alike := parseProgram_alike lawful pairs nodes
  rw [parsed] at alike
  generalize parseProgram others firstOther = outcome at alike ⊢
  cases alike with
  | parsed statements nodesAfter => exact ⟨_, _, rfl, statements, nodesAfter⟩

end Program

end LoxScript
