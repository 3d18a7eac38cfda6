import LoxScript.Proofs.Scope.Nesting

namespace LoxScript

/-!
# The scopes around a part of a program

The evaluator needs of an analysis only which scopes it had at which part.  The
parts of a part stand in the same scopes, but for what declares a name or opens
a scope; there is one statement for each of these.
-/

open Analysis Resolve

/-- The analysis of the program comes to the part with these scopes around
it. -/
def Program.Places (program : Program) (part : Part) (scopes : List Scope) :
    Prop :=
  ∃ analysis, program.Visits part analysis ∧ analysis.scopes = scopes

/-- The scopes while the initializer of a name is analysed. -/
def Scope.announcing (name : Token) : List Scope → List Scope
  | [] => []
  | scope :: outer => scope.insert name.lexeme false :: outer

theorem scopes_declared
    (name : Token)
    (analysis : Analysis) :
    (declared name analysis).scopes =
      Scope.announcing name analysis.scopes := by
  unfold declared Scope.announcing
  split <;> simp_all

/-- A part of a part that stands in the same scopes. -/
inductive Part.Includes : Part → Part → Prop where
  | grouping {inner} : Includes (.expr (.grouping inner)) (.expr inner)
  | operand {operator operand} : Includes (.expr (.unary operator operand))
    (.expr operand)
  | binaryLeft {left operator right} :
      Includes (.expr (.binary left operator right)) (.expr left)
  | binaryRight {left operator right} :
      Includes (.expr (.binary left operator right)) (.expr right)
  | logicalLeft {left operator right} :
      Includes (.expr (.logical left operator right)) (.expr left)
  | logicalRight {left operator right} :
      Includes (.expr (.logical left operator right)) (.expr right)
  | assigned {id name value} : Includes (.expr (.assign id name value))
    (.expr value)
  | callee {callee paren arguments} :
      Includes (.expr (.call callee paren arguments)) (.expr callee)
  | arguments {callee paren arguments} :
      Includes (.expr (.call callee paren arguments)) (.exprs arguments)
  | object {object name} : Includes (.expr (.get object name)) (.expr object)
  | holder {object name value} : Includes (.expr (.set object name value))
    (.expr object)
  | stored {object name value} : Includes (.expr (.set object name value))
    (.expr value)
  | firstExpr {first rest} : Includes (.exprs (first :: rest)) (.expr first)
  | restExprs {first rest} : Includes (.exprs (first :: rest)) (.exprs rest)
  | printed {value} : Includes (.stmt (.print value)) (.expr value)
  | stated {value} : Includes (.stmt (.expression value)) (.expr value)
  | condition {condition thenBranch elseBranch} :
      Includes (.stmt (.conditional condition thenBranch elseBranch))
        (.expr condition)
  | thenBranch {condition thenBranch elseBranch} :
      Includes (.stmt (.conditional condition thenBranch elseBranch))
        (.stmt thenBranch)
  | elseBranch {condition thenBranch elseBranch} :
      Includes (.stmt (.conditional condition thenBranch (some elseBranch)))
        (.stmt elseBranch)
  | guard {condition body} : Includes (.stmt (.loop condition body))
    (.expr condition)
  | repeated {condition body} : Includes (.stmt (.loop condition body))
    (.stmt body)
  | returned {keyword value} : Includes (.stmt (.ret keyword (some value)))
    (.expr value)
  | firstStmt {first rest} : Includes (.stmts (first :: rest)) (.stmt first)
  | firstFunction {first rest} : Includes (.functions (first :: rest))
    (.function first)
  | restFunctions {first rest} : Includes (.functions (first :: rest))
    (.functions rest)

/-- Of two parts in a row that are accepted, the first is accepted. -/
theorem Part.Splits.accepted
    {part first second : Part}
    {before after : Analysis}
    (splits : part.Splits first second)
    (resolved : part.resolve before = .ok () after) :
    ∃ middle, first.resolve before = .ok () middle := by
  rw [splits.resolve] at resolved
  obtain ⟨⟨⟩, middle, resolvedFirst, -⟩ := bind_eq_ok_iff.mp resolved
  exact ⟨middle, resolvedFirst⟩

/-- A `return` that is accepted stands in a function. -/
theorem inFunction_of_allowReturn
    {keyword : Token}
    {before after : Analysis}
    (allowed : allowReturn keyword before = .ok () after) :
    before.inFunction = true := by
  obtain ⟨seen, middle, looks, decides⟩ := bind_eq_ok_iff.mp allowed
  cases looks
  cases inside : before.inFunction with
  | true => rfl
  | false =>
      simp only [inside, Bool.not_false, if_true] at decides
      cases decides

/-- The walk goes on to the parts that a part includes, with the same scopes. -/
theorem Part.Includes.enters
    {part other : Part}
    {before after : Analysis}
    (includes : part.Includes other)
    (orderly : part.Orderly)
    (resolved : part.resolve before = .ok () after) :
    ∃ start, Enters part before other start ∧ start.scopes = before.scopes := by
  cases includes with
  | grouping => exact ⟨before, .grouping, rfl⟩
  | operand => exact ⟨before, .operand, rfl⟩
  | binaryLeft => exact ⟨before, .binaryLeft, rfl⟩
  | binaryRight =>
      obtain ⟨middle, accepted⟩ := (Part.splits_binary _ _ _).accepted resolved
      exact ⟨middle, .binaryRight accepted, Expr.scopes_of_resolve accepted⟩
  | logicalLeft => exact ⟨before, .logicalLeft, rfl⟩
  | logicalRight =>
      obtain ⟨middle, accepted⟩ := (Part.splits_logical _ _ _).accepted resolved
      exact ⟨middle, .logicalRight accepted, Expr.scopes_of_resolve accepted⟩
  | assigned => exact ⟨before, .assigned, rfl⟩
  | callee => exact ⟨before, .callee, rfl⟩
  | arguments =>
      obtain ⟨middle, accepted⟩ := (Part.splits_call _ _ _).accepted resolved
      exact ⟨middle, .arguments accepted, Expr.scopes_of_resolve accepted⟩
  | object => exact ⟨before, .object, rfl⟩
  | holder =>
      obtain ⟨middle, accepted⟩ := (Part.splits_set _ _ _).accepted resolved
      exact ⟨middle, .holder accepted, Expr.scopes_of_resolve accepted⟩
  | stored => exact ⟨before, .stored, rfl⟩
  | firstExpr => exact ⟨before, .firstExpr, rfl⟩
  | restExprs =>
      obtain ⟨middle, accepted⟩ := (Part.splits_exprs _ _).accepted resolved
      exact ⟨middle, .restExprs accepted, Expr.scopes_of_resolve accepted⟩
  | printed => exact ⟨before, .printed, rfl⟩
  | stated => exact ⟨before, .stated, rfl⟩
  | condition => exact ⟨before, .condition, rfl⟩
  | @thenBranch _ _ elseBranch =>
      cases elseBranch with
      | none =>
          obtain ⟨middle, accepted⟩ :=
            (Part.splits_conditional _ _).accepted resolved
          exact ⟨middle, .thenBranch accepted, Expr.scopes_of_resolve accepted⟩
      | some elseBranch =>
          obtain ⟨middle, accepted⟩ :=
            (Part.splits_conditional_some _ _ _).accepted resolved
          exact ⟨middle, .thenBranch accepted, Expr.scopes_of_resolve accepted⟩
  | elseBranch =>
      simp only [Part.Orderly, Stmt.Orderly] at orderly
      simp only [Part.resolve, Stmt.resolve] at resolved
      obtain ⟨⟨⟩, middle, condition, branches⟩ := bind_eq_ok_iff.mp resolved
      obtain ⟨⟨⟩, last, thenAccepted, -⟩ := bind_eq_ok_iff.mp branches
      refine ⟨last, .elseBranch condition thenAccepted, ?_⟩
      rw [Stmt.scopes_of_resolve _ orderly.1.2 thenAccepted, orderly.1.1,
        Expr.scopes_of_resolve condition]
      rfl
  | guard => exact ⟨before, .guard, rfl⟩
  | repeated =>
      obtain ⟨middle, accepted⟩ := (Part.splits_loop _ _).accepted resolved
      exact ⟨middle, .repeated accepted, Expr.scopes_of_resolve accepted⟩
  | returned =>
      simp only [Part.resolve, Stmt.resolve] at resolved
      obtain ⟨⟨⟩, middle, allowed, -⟩ := bind_eq_ok_iff.mp resolved
      exact ⟨before, .returned (inFunction_of_allowReturn allowed), rfl⟩
  | firstStmt => exact ⟨before, .firstStmt, rfl⟩
  | firstFunction => exact ⟨before, .firstFunction, rfl⟩
  | restFunctions =>
      obtain ⟨middle, accepted⟩ := (Part.splits_functions _ _).accepted resolved
      exact ⟨middle, .restFunctions accepted,
        FunctionDecl.scopes_of_resolve accepted⟩

namespace Program.Compiled

variable {program : Program} {first next : NodeId} {scopes : List Scope}

/-- A program stands in no local scope. -/
theorem places_statements
    (program : Program) :
    program.Places (.stmts program.statements) [] :=
  ⟨{}, .here, rfl⟩

/-- What a part includes stands in the same scopes. -/
theorem places_included
    (compiled : program.Compiled first next)
    {part other : Part}
    (places : program.Places part scopes)
    (includes : part.Includes other) :
    program.Places other scopes := by
  obtain ⟨analysis, visits, rfl⟩ := places
  obtain ⟨after, accepted⟩ := compiled.accepts visits
  obtain ⟨start, enters, same⟩ :=
    includes.enters (compiled.part_orderly visits) accepted
  exact ⟨start, .enter visits enters, same⟩

/-- An initializer stands in the scope of its name, which was free and is not
ready. -/
theorem places_initializer
    (compiled : program.Compiled first next)
    {name : Token}
    {initializer : Expr}
    (places :
      program.Places (.stmt (.varDecl name (some initializer))) scopes) :
    (∀ scope ∈ scopes.head?, scope.contains name.lexeme = false) ∧
      program.Places (.expr initializer) (Scope.announcing name scopes) := by
  obtain ⟨analysis, visits, rfl⟩ := places
  obtain ⟨after, accepted⟩ := compiled.accepts visits
  obtain ⟨free, -⟩ := resolve_varDecl_eq_ok accepted
  exact ⟨free, _, .enter visits (.initializer free),
    scopes_declared name analysis⟩

/-- The statements of a block stand in a scope of their own. -/
theorem places_block
    {body : List Stmt}
    (places : program.Places (.stmt (.block body)) scopes) :
    program.Places (.stmts body) (NameMap.empty :: scopes) := by
  obtain ⟨analysis, visits, rfl⟩ := places
  exact ⟨_, .enter visits .block, rfl⟩

/-- Statements stand in the scope of what the statements before them
declared. -/
theorem places_rest
    (compiled : program.Compiled first next)
    {statement : Stmt}
    {rest : List Stmt}
    (places : program.Places (.stmts (statement :: rest)) scopes) :
    program.Places (.stmts rest)
      (Scope.declaring statement.declared? scopes) := by
  obtain ⟨analysis, visits, rfl⟩ := places
  obtain ⟨after, accepted⟩ := compiled.accepts visits
  obtain ⟨middle, acceptedFirst⟩ := (Part.splits_stmts _ _).accepted accepted
  have orderly := compiled.part_orderly visits
  simp only [Part.Orderly, Stmt.OrderlyAll] at orderly
  exact ⟨middle, .enter visits (.restStmts acceptedFirst),
    statement.scopes_of_resolve orderly.1 acceptedFirst⟩

/-- A function stands in the scope of its own name. -/
theorem places_function
    (compiled : program.Compiled first next)
    {declaration : FunctionDecl}
    (places : program.Places (.stmt (.funDecl declaration)) scopes) :
    program.Places (.function declaration)
      (Scope.declaring (some declaration.name) scopes) := by
  obtain ⟨analysis, visits, rfl⟩ := places
  obtain ⟨after, accepted⟩ := compiled.accepts visits
  obtain ⟨free, -⟩ := resolve_funDecl_eq_ok accepted
  exact ⟨_, .enter visits (.declaration free), rfl⟩

/-- The body of a function stands in the scope of its parameters. -/
theorem places_body
    (compiled : program.Compiled first next)
    {declaration : FunctionDecl}
    (places : program.Places (.function declaration) scopes) :
    program.Places (.stmts declaration.body)
      (Scope.ofParams declaration.params NameMap.empty :: scopes) := by
  obtain ⟨name, params, body⟩ := declaration
  obtain ⟨analysis, visits, rfl⟩ := places
  obtain ⟨after, accepted⟩ := compiled.accepts visits
  obtain ⟨middle, _, declares, -, -⟩ := resolve_function_eq_ok name accepted
  exact ⟨middle, .enter visits (.body declares),
    (declareParameters_eq_ok rfl declares).1⟩

/-- A superclass is named in the scope of the class's own name, which is another
one. -/
theorem places_superclass
    (compiled : program.Compiled first next)
    {name : Token}
    {named : SuperclassRef}
    {methods : List FunctionDecl}
    (places :
      program.Places (.stmt (.classDecl name (some named) methods)) scopes) :
    named.name.lexeme ≠ name.lexeme ∧
      program.Places (.expr named.expr)
        (Scope.declaring (some name) scopes) := by
  obtain ⟨analysis, visits, rfl⟩ := places
  obtain ⟨after, accepted⟩ := compiled.accepts visits
  simp only [Part.resolve] at accepted
  obtain ⟨middle, _, headed, -, -⟩ := resolve_classDecl_eq_ok accepted
  obtain ⟨free, different, -⟩ := heading_some_eq_ok headed
  exact ⟨different, _, .enter visits (.superclass free different), rfl⟩

/-- The methods of a class stand in the scopes of the class. -/
theorem places_method
    (compiled : program.Compiled first next)
    {name : Token}
    {superclass : Option SuperclassRef}
    {methods : List FunctionDecl}
    (places :
      program.Places (.stmt (.classDecl name superclass methods)) scopes) :
    ∀ method ∈ methods,
      program.Places (.function method)
        (Scope.ofClass superclass ++ Scope.declaring (some name) scopes) := by
  obtain ⟨analysis, visits, rfl⟩ := places
  obtain ⟨after, accepted⟩ := compiled.accepts visits
  obtain ⟨middle, _, headed, -, -⟩ := resolve_classDecl_eq_ok accepted
  have all : program.Places (.functions methods)
      (Scope.ofClass superclass ++ Scope.declaring
        (some name) analysis.scopes) :=
    ⟨_, .enter visits (.methods headed), by rw [(scopes_heading headed).1]⟩
  clear visits accepted headed
  induction methods with
  | nil =>
      intro method member
      cases member
  | cons declaration rest inductionHypothesis =>
      intro method member
      rcases List.mem_cons.mp member with rfl | further
      · exact compiled.places_included all .firstFunction
      · exact inductionHypothesis (compiled.places_included all .restFunctions)
          method further

end Program.Compiled

/-- From an expression, the walk goes on to expressions in the same scopes. -/
theorem Enters.scopes_of_expr
    {part other : Part}
    {before start : Analysis}
    (enters : Enters part before other start)
    (isExpr : part.IsExpr) :
    other.IsExpr ∧ start.scopes = before.scopes := by
  cases enters with
  | grouping | operand | binaryLeft | logicalLeft | assigned | callee
  | object | stored
  | firstExpr => exact ⟨trivial, rfl⟩
  | binaryRight resolved | logicalRight resolved | arguments resolved
  | holder resolved
  | restExprs resolved => exact ⟨trivial, Expr.scopes_of_resolve resolved⟩
  | _ => exact isExpr.elim

/-- From an expression, the walk only comes to expressions in the same
scopes. -/
theorem Comes.scopes_of_expr
    {start part : Part}
    {initial analysis : Analysis}
    (comes : Comes start initial part analysis)
    (isExpr : start.IsExpr) :
    part.IsExpr ∧ analysis.scopes = initial.scopes := by
  induction comes with
  | here => exact ⟨isExpr, rfl⟩
  | enter _ enters inductionHypothesis =>
      obtain ⟨isExprHere, same⟩ := inductionHypothesis
      obtain ⟨isExprNext, sameNext⟩ := enters.scopes_of_expr isExprHere
      exact ⟨isExprNext, sameNext.trans same⟩

/-- The part stands in the initializer of a local variable of this name. -/
def Program.InOwnInitializer
    (program : Program)
    (name : Token)
    (part : Part)
    (analysis : Analysis) : Prop :=
  ∃ declaration initializer before,
    program.Visits (.stmt (.varDecl declaration (some initializer))) before ∧
      before.scopes ≠ [] ∧ declaration.lexeme = name.lexeme ∧
      Comes (.expr initializer) (declared declaration before) part analysis

namespace Program.Compiled

variable {program : Program} {first next : NodeId} {part : Part}
  {analysis : Analysis}

/-- While its initializer is analysed, a local variable is not ready. -/
theorem unready_of_inOwnInitializer
    {name : Token}
    (inside : program.InOwnInitializer name part analysis) :
    ∃ scope ∈ analysis.scopes.head?, scope.find? name.lexeme = some false := by
  obtain ⟨declaration, initializer, before, -, isLocal, same, comes⟩ := inside
  rw [(comes.scopes_of_expr trivial).2, scopes_declared, ← same]
  cases shape : before.scopes with
  | nil =>
      exact absurd shape isLocal
  | cons scope outer =>
      exact ⟨_, rfl, by simp [NameMap.find?_insert]⟩

/-- The only parts at which a name of the innermost scope is not ready are those
of its own initializer. -/
theorem inOwnInitializer_of_unready
    (compiled : program.Compiled first next)
    (visits : program.Visits part analysis)
    {name : Token}
    {scope : Scope}
    (isHead : scope ∈ analysis.scopes.head?)
    (unready : scope.find? name.lexeme = some false) :
    program.InOwnInitializer name part analysis := by
  induction visits with
  | here =>
      cases isHead
  | @enter part other a b comes enters inductionHypothesis =>
      by_cases isExpr : part.IsExpr
      · obtain ⟨-, same⟩ := enters.scopes_of_expr isExpr
        rw [same] at isHead
        obtain ⟨declaration, initializer, before, visits, isLocal, named,
            inner⟩ :=
          inductionHypothesis isHead
        exact ⟨declaration, initializer, before, visits, isLocal, named,
          .enter inner enters⟩
      · -- Only an initializer leads from a part where all names are ready to
        -- one where one is not.
        have settled := (compiled.placed comes).allSettled isExpr
        have ready (wanted : List Scope) (sameScopes : wanted = a.scopes)
            (isHeadThere : scope ∈ wanted.head?) : False := by
          rw [sameScopes] at isHeadThere
          exact settled scope (List.mem_of_mem_head? isHeadThere)
            name.lexeme unready
        have nextPlaced := compiled.placed (.enter comes enters)
        rcases nextPlaced.settled with isExprNext | settledNext
        · cases enters with
          | @initializer declaration initializer _ free =>
              refine ⟨declaration, initializer, a, comes, ?_, ?_, .here⟩
              · intro noScope
                rw [scopes_declared, noScope] at isHead
                cases isHead
              · rw [scopes_declared] at isHead
                cases shape : a.scopes with
                | nil =>
                    rw [shape] at isHead
                    cases isHead
                | cons innermost outer =>
                    rw [shape] at isHead
                    cases isHead
                    rw [NameMap.find?_insert] at unready
                    split at unready
                    · assumption
                    · have isMember : innermost ∈ a.scopes := by simp [shape]
                      exact absurd unready
                        (settled innermost isMember name.lexeme)
          | printed | stated | condition | guard | returned _ =>
              exact (ready _ rfl isHead).elim
          | @superclass declared _ _ _ _ _ =>
              have orderly := compiled.part_orderly comes
              simp only [Part.Orderly, Stmt.Orderly] at orderly
              have isName : ∀ token ∈ some declared, token.IsName := by
                rintro _ ⟨⟩
                exact orderly.1
              have placed :=
                (compiled.placed comes).declaring isName (.stmts [])
              exact absurd unready
                (placed.settled.resolve_left id scope isHead name.lexeme)
          | grouping | operand | binaryLeft | binaryRight _ | logicalLeft
          | logicalRight _
          | assigned | callee | arguments _ | object | stored
          | holder _ | firstExpr
          | restExprs _ => exact absurd trivial isExpr
          | _ => exact isExprNext.elim
        · exact absurd unready (settledNext scope isHead name.lexeme)

end Program.Compiled

end LoxScript
