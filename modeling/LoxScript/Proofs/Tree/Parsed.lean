import LoxScript.Proofs.Tree.Made
import LoxScript.Program

namespace LoxScript

/-!
# What parsed programs have in common

The parsers of statements, each from the parsers of its parts, and what follows
for whole programs: the statements of a source are orderly, and the references
of sources that are parsed one after another have identities of their own.
-/

open Parse

namespace Grammar

/-- Statements up to a stop. -/
theorem makes_statementsUntil
    {stop : Kind → Bool}
    {declaration : Parse Stmt}
    (makes : MakesStmt declaration)
    (depth : Nat)
    (first : NodeId) :
    Makes first (statementsUntil stop declaration depth)
      (Stmt.MadeAll first) := by
  induction depth generalizing first with
  | zero =>
      exact Makes.fail _
  | succ depth inductionHypothesis =>
      unfold statementsUntil
      refine Makes.peek fun kind => Makes.known ?_ kind
      generalize (stop kind || _) = ended
      split
      · exact Makes.ofPure ⟨Handed.nil _ _, trivial⟩
      · refine (makes first).andThen
          fun statement middle risen statementMade => ?_
        refine (inductionHypothesis middle).andThen
          fun rest next risenOn restMade => ?_
        exact Makes.ofPure
          ⟨statementMade.1.append restMade.1 risen risenOn, statementMade.2,
            restMade.2⟩

/-- The statements of a block. -/
theorem makes_blockBody
    {declaration : Parse Stmt}
    (makes : MakesStmt declaration)
    (depth : Nat)
    (first : NodeId) :
    Makes first (blockBody declaration depth) (Stmt.MadeAll first) := by
  refine (makes_statementsUntil makes depth first).andThen
    fun body next _ bodyMade => ?_
  refine (makes_expectSymbol _ _).andThen ?_
  rintro brace same - rfl
  exact Makes.ofPure bodyMade

/-- Parameters with commas between them. -/
theorem makes_parameters
    (depth count : Nat)
    (first : NodeId) :
    Makes first (parameters depth count) fun params next =>
      next = first ∧ ∀ param ∈ params, param.IsName := by
  induction depth generalizing count first with
  | zero =>
      exact Makes.fail _
  | succ depth inductionHypothesis =>
      unfold parameters
      extract_lets goOn
      have goesOn : Makes first (goOn ()) fun params next =>
          next = first ∧ ∀ param ∈ params, param.IsName := by
        refine (makes_expectName _).andThen ?_
        rintro name same - ⟨rfl, isName⟩
        refine (makes_acceptSymbol _).andThen ?_
        rintro more same - rfl
        split
        · refine (inductionHypothesis _ same).andThen ?_
          rintro others same - ⟨rfl, areNames⟩
          exact Makes.ofPure ⟨rfl, List.forall_mem_cons.mpr ⟨isName, areNames⟩⟩
        · exact Makes.ofPure ⟨rfl, by simpa using isName⟩
      split
      · exact Makes.bind (Makes.fail _)
      · exact goesOn

/-- A function or method. -/
theorem makes_function
    {declaration : Parse Stmt}
    (makes : MakesStmt declaration)
    (depth : Nat)
    (role : FunctionRole)
    (first : NodeId) :
    Makes first (function declaration depth role)
      (FunctionDecl.Made first) := by
  refine (makes_expectName _).andThen ?_
  rintro name same - ⟨rfl, isName⟩
  refine (makes_expectSymbol _ _).andThen ?_
  rintro opening same - rfl
  refine (makes_seesSymbol _).andThen ?_
  rintro seen same - rfl
  extract_lets goOn
  have goesOn (params : List Token) (middle : NodeId) (_ : same ≤ middle)
      (paramsMade : middle = same ∧ ∀ param ∈ params, param.IsName) :
      Makes middle (goOn params) (FunctionDecl.Made same) := by
    obtain ⟨rfl, areNames⟩ := paramsMade
    refine (makes_expectSymbol _ _).andThen ?_
    rintro closing same - rfl
    refine (makes_expectSymbol _ _).andThen ?_
    rintro brace same - rfl
    refine (makes_blockBody makes depth same).andThen
      fun body next _ bodyMade => ?_
    exact Makes.ofPure ⟨bodyMade.1, isName, areNames, bodyMade.2⟩
  split
  · exact (Makes.ofPure ⟨rfl, by simp⟩).andThen goesOn
  · exact (makes_parameters depth 0 same).andThen goesOn

/-- The methods of a class. -/
theorem makes_methods
    {method : Parse FunctionDecl}
    (makes : ∀ first, Makes first method (FunctionDecl.Made first))
    (depth : Nat)
    (first : NodeId) :
    Makes first (methods method depth) (FunctionDecl.MadeAll first) := by
  induction depth generalizing first with
  | zero =>
      exact Makes.fail _
  | succ depth inductionHypothesis =>
      unfold methods
      refine Makes.peek fun kind => Makes.known ?_ kind
      generalize (closesBlock kind || _) = ended
      split
      · exact Makes.ofPure ⟨Handed.nil _ _, trivial⟩
      · refine (makes first).andThen fun method middle risen methodMade => ?_
        refine (inductionHypothesis middle).andThen
          fun rest next risenOn restMade => ?_
        exact Makes.ofPure
          ⟨methodMade.1.append restMade.1 risen risenOn, methodMade.2.2,
            restMade.2⟩

/-- A class. -/
theorem makes_classDeclaration
    {declaration : Parse Stmt}
    (makes : MakesStmt declaration)
    (depth : Nat)
    (first : NodeId) :
    Makes first (classDeclaration declaration depth) (Stmt.Made first) := by
  refine (makes_expectName _).andThen ?_
  rintro name same - ⟨rfl, isName⟩
  refine (makes_acceptSymbol _).andThen ?_
  rintro inherits same - rfl
  extract_lets goOn
  have goesOn (superclass : Option SuperclassRef) (middle : NodeId)
      (risen : same ≤ middle)
      (superclassMade :
        Handed same middle
          ((superclass.map SuperclassRef.references).getD [])) :
      Makes middle (goOn superclass) (Stmt.Made same) := by
    refine (makes_expectSymbol _ _).andThen ?_
    rintro opening same' - rfl
    refine (makes_methods (makes_function makes depth .method) depth
      same').andThen ?_
    intro declared next risenOn declaredMade
    refine (makes_expectSymbol _ _).andThen ?_
    rintro closing same'' - rfl
    refine Makes.ofPure ⟨?_, isName, declaredMade.2⟩
    have both := superclassMade.append declaredMade.1 risen risenOn
    cases superclass with
    | none =>
        simpa [Stmt.references] using both
    | some named =>
        simpa [Stmt.references] using both
  split
  · refine (makes_expectName _).andThen ?_
    rintro superclassName same' - ⟨rfl, isSuperName⟩
    refine Makes.freshNode.andThen ?_
    rintro id next risen ⟨rfl, rfl⟩
    refine Makes.bind (Makes.ofPure (goesOn _ _ risen ?_))
    exact Handed.single (Nat.le_refl _) (Nat.lt_succ_self _) isSuperName
  · exact (Makes.ofPure (Handed.nil _ _)).andThen goesOn

/-- An expression where none need be. -/
theorem makes_optional
    {expression : Parse Expr}
    (makes : MakesExpr expression)
    (first : NodeId) :
    Makes first (some <$> expression) fun value next =>
      Handed first next (optionalReferences value) :=
  Makes.map (makes first)

/-- A variable. -/
theorem makes_variableDeclaration
    {expression : Parse Expr}
    (makes : MakesExpr expression)
    (first : NodeId) :
    Makes first (variableDeclaration expression) (Stmt.Made first) := by
  refine (makes_expectName _).andThen ?_
  rintro name same - ⟨rfl, isName⟩
  refine (makes_acceptSymbol _).andThen ?_
  rintro initialized same - rfl
  extract_lets goOn
  have goesOn (initializer : Option Expr) (middle : NodeId) (_ : same ≤ middle)
      (initializerMade : Handed same middle (optionalReferences initializer)) :
      Makes middle (goOn initializer) (Stmt.Made same) := by
    refine (makes_expectSymbol _ _).andThen ?_
    rintro semicolon same' - rfl
    exact Makes.ofPure ⟨initializerMade, isName⟩
  split
  · exact (makes_optional makes same).andThen goesOn
  · exact (Makes.ofPure (Handed.nil _ _)).andThen goesOn

/-- A statement that consists of an expression. -/
theorem makes_expressionStatement
    {expression : Parse Expr}
    (makes : MakesExpr expression) :
    MakesPlain (expressionStatement expression) := by
  intro first
  refine (makes first).andThen fun value next _ valueMade => ?_
  refine (makes_expectSymbol _ _).andThen ?_
  rintro semicolon same - rfl
  exact Makes.ofPure ⟨⟨valueMade, trivial⟩, rfl⟩

/-- A `print` statement. -/
theorem makes_printStatement
    {expression : Parse Expr}
    (makes : MakesExpr expression) :
    MakesPlain (printStatement expression) := by
  intro first
  refine (makes first).andThen fun value next _ valueMade => ?_
  refine (makes_expectSymbol _ _).andThen ?_
  rintro semicolon same - rfl
  exact Makes.ofPure ⟨⟨valueMade, trivial⟩, rfl⟩

/-- A `return` statement. -/
theorem makes_returnStatement
    {expression : Parse Expr}
    (makes : MakesExpr expression)
    (keyword : Token) :
    MakesPlain (returnStatement expression keyword) := by
  intro first
  refine (makes_seesSymbol _).andThen ?_
  rintro seen same - rfl
  extract_lets goOn
  have goesOn (value : Option Expr) (middle : NodeId) (_ : same ≤ middle)
      (valueMade : Handed same middle (optionalReferences value)) :
      Makes middle (goOn value) fun statement next =>
        Stmt.Made same statement next ∧ statement.declared? = none := by
    refine (makes_expectSymbol _ _).andThen ?_
    rintro semicolon same' - rfl
    exact Makes.ofPure ⟨⟨valueMade, trivial⟩, rfl⟩
  split
  · exact (Makes.ofPure (Handed.nil _ _)).andThen goesOn
  · exact (makes_optional makes same).andThen goesOn

/-- A `require` statement. -/
theorem makes_requireStatement
    (keyword : Token) :
    MakesPlain (requireStatement keyword) := by
  intro first
  refine Makes.peek fun kind => ?_
  split
  · refine MakesAt.advance fun path _ _ => ?_
    refine (makes_expectSymbol _ _).andThen ?_
    rintro semicolon same - rfl
    exact Makes.ofPure ⟨⟨Handed.nil _ _, trivial⟩, rfl⟩
  · exact (Makes.fail _).known _

/-- A `while` statement. -/
theorem makes_whileStatement
    {expression : Parse Expr}
    {statement : Parse Stmt}
    (makes : MakesExpr expression)
    (makesBody : MakesPlain statement) :
    MakesPlain (whileStatement expression statement) := by
  intro first
  refine (makes_expectSymbol _ _).andThen ?_
  rintro opening same - rfl
  refine (makes same).andThen fun condition middle risen conditionMade => ?_
  refine (makes_expectSymbol _ _).andThen ?_
  rintro closing same' - rfl
  refine (makesBody same').andThen fun body next risenOn bodyMade => ?_
  exact Makes.ofPure
    ⟨⟨conditionMade.append bodyMade.1.1 risen risenOn, bodyMade.2,
      bodyMade.1.2⟩, rfl⟩

/-- An `if` statement. -/
theorem makes_ifStatement
    {expression : Parse Expr}
    {statement : Parse Stmt}
    (makes : MakesExpr expression)
    (makesBranch : MakesPlain statement) :
    MakesPlain (ifStatement expression statement) := by
  intro first
  refine (makes_expectSymbol _ _).andThen ?_
  rintro opening same - rfl
  refine (makes same).andThen fun condition middle risen conditionMade => ?_
  refine (makes_expectSymbol _ _).andThen ?_
  rintro closing same' - rfl
  refine (makesBranch same').andThen fun thenBranch later risenOn thenMade => ?_
  have bothMade := conditionMade.append thenMade.1.1 risen risenOn
  refine (makes_acceptKeyword _).andThen ?_
  rintro hasElse same'' - rfl
  extract_lets goOn
  split
  · have makesElse : Makes same'' (some <$> statement) fun branch next =>
        ∃ elseBranch, branch = some elseBranch ∧
          Stmt.Made same'' elseBranch next ∧ elseBranch.declared? = none :=
      Makes.map ((makesBranch same'').weaken fun branch next _ branchMade =>
        ⟨branch, rfl, branchMade⟩)
    refine makesElse.andThen ?_
    rintro _ next risenLast ⟨elseBranch, rfl, elseMade, elsePlain⟩
    refine Makes.ofPure
      ⟨⟨?_, ⟨thenMade.2, thenMade.1.2⟩, elsePlain, elseMade.2⟩, rfl⟩
    exact bothMade.append elseMade.1 (Nat.le_trans risen risenOn) risenLast
  · exact Makes.bind (Makes.ofPure (Makes.ofPure
      ⟨⟨bothMade, thenMade.2, thenMade.1.2⟩, rfl⟩))

/-- The first clause of a `for` statement. -/
theorem makes_forInitializer
    {expression : Parse Expr}
    (makes : MakesExpr expression)
    (first : NodeId) :
    Makes first (forInitializer expression) fun initializer next =>
      ∀ statement ∈ initializer, Stmt.Made first statement next := by
  refine (makes_acceptSymbol _).andThen ?_
  rintro absent same - rfl
  split
  · exact Makes.ofPure (by simp)
  · refine (makes_acceptKeyword _).andThen ?_
    rintro declares same' - rfl
    split
    · refine (makes_variableDeclaration makes same').andThen
        fun declared next _ made => ?_
      exact Makes.ofPure (by simpa using made)
    · refine (makes_expressionStatement makes same').andThen
        fun stated next _ made => ?_
      exact Makes.ofPure (by simpa using made.1)

/-- A `for` loop is orderly if its parts are, and declares nothing. -/
theorem orderly_forLoop
    {initializer : Option Stmt}
    (condition increment : Option Expr)
    {body : Stmt}
    (initializerOrderly : ∀ statement ∈ initializer, statement.Orderly)
    (plain : body.declared? = none)
    (bodyOrderly : body.Orderly) :
    (Stmt.forLoop initializer condition increment body).Orderly ∧
      (Stmt.forLoop initializer condition increment body).declared? = none := by
  cases initializer <;> cases increment <;>
    simp_all [Stmt.forLoop, Stmt.Orderly, Stmt.OrderlyAll, Stmt.declared?]

/-- A `for` loop has the references of its parts. -/
theorem references_forLoop
    (initializer : Option Stmt)
    (condition increment : Option Expr)
    (body : Stmt) :
    (Stmt.forLoop initializer condition increment body).references =
      (initializer.map Stmt.references).getD [] ++
        (optionalReferences condition ++
          (body.references ++ optionalReferences increment)) := by
  cases initializer <;> cases condition <;> cases increment <;>
    simp [Stmt.forLoop, Stmt.references, Stmt.referencesAll, optionalReferences,
      Expr.references]

/-- A clause of a `for` statement where none need be. -/
theorem makes_clause
    {expression : Parse Expr}
    (makes : MakesExpr expression)
    (absent : Symbol)
    {next : Option Expr → Parse α}
    {made : α → NodeId → Prop}
    {first : NodeId}
    (goesOn :
      ∀ clause middle, first ≤ middle →
        Handed first middle (optionalReferences clause) →
        Makes middle (next clause) made) :
    Makes first
      (do
        if ← seesSymbol absent then
          let clause ← pure none
          next clause
        else
          let clause ← some <$> expression
          next clause)
      made := by
  refine (makes_seesSymbol absent).andThen ?_
  rintro seen same - rfl
  split
  · exact (Makes.ofPure (Handed.nil _ _)).andThen goesOn
  · exact (makes_optional makes same).andThen goesOn

/-- A `for` statement.  Identities are handed out clause by clause, the
increment's before the body's. -/
theorem makes_forLoop
    {expression : Parse Expr}
    {statement : Parse Stmt}
    (makes : MakesExpr expression)
    (makesBody : MakesPlain statement)
    (first : NodeId) :
    Makes first (forStatement expression statement) fun made next =>
      Stmt.Made first made next ∧ made.declared? = none := by
  refine (makes_expectSymbol _ _).andThen ?_
  rintro opening same - rfl
  refine (makes_forInitializer makes same).andThen
    fun initializer start risen startMade => ?_
  have startHanded :
      Handed same start ((initializer.map Stmt.references).getD []) := by
    cases initializer with
    | none =>
        exact Handed.nil _ _
    | some stated =>
        exact (startMade stated rfl).1
  refine makes_clause makes .semicolon
    fun condition middle risenTwo conditionMade => ?_
  refine (makes_expectSymbol _ _).andThen ?_
  rintro semicolon same' - rfl
  refine makes_clause makes .rightParen
    fun increment later risenThree incrementMade => ?_
  refine (makes_expectSymbol _ _).andThen ?_
  rintro closing same'' - rfl
  refine (makesBody same'').andThen fun body next risenLast bodyMade => ?_
  obtain ⟨orderly, plain⟩ := orderly_forLoop condition increment
    (fun stated member => (startMade stated member).2) bodyMade.2 bodyMade.1.2
  refine Makes.ofPure ⟨⟨?_, orderly⟩, plain⟩
  rw [references_forLoop]
  refine startHanded.append ?_ risen
    (Nat.le_trans risenTwo (Nat.le_trans risenThree risenLast))
  refine conditionMade.append ?_ risenTwo (Nat.le_trans risenThree risenLast)
  exact (incrementMade.append bodyMade.1.1 risenThree risenLast).perm
    List.perm_append_comm

/-- Statements and declarations. -/
theorem makes_statement_declaration
    (depth : Nat) :
    MakesPlain (statement depth) ∧ MakesStmt (declaration depth) := by
  induction depth with
  | zero =>
      exact ⟨fun first => Makes.fail _, fun first => Makes.fail _⟩
  | succ depth inductionHypothesis =>
      obtain ⟨makesStatement, makesDeclaration⟩ := inductionHypothesis
      have makesExpression := makes_expression depth
      constructor
      · intro first
        unfold statement
        refine Makes.peek fun kind => ?_
        split
        · exact MakesAt.advance fun _ _ _ =>
            makes_ifStatement makesExpression makesStatement first
        · exact MakesAt.advance fun _ _ _ =>
            makes_printStatement makesExpression first
        · exact MakesAt.advance fun keyword _ _ =>
            makes_returnStatement makesExpression keyword first
        · exact MakesAt.advance fun keyword _ _ =>
            makes_requireStatement keyword first
        · refine MakesAt.advance fun _ _ _ => ?_
          refine (makes_blockBody makesDeclaration depth first).andThen ?_
          intro body next _ bodyMade
          exact Makes.ofPure ⟨bodyMade, rfl⟩
        · exact MakesAt.advance fun _ _ _ =>
            makes_whileStatement makesExpression makesStatement first
        · exact MakesAt.advance fun _ _ _ =>
            makes_forLoop makesExpression makesStatement first
        · exact (makes_expressionStatement makesExpression first).known _
      · intro first
        unfold declaration
        refine Makes.peek fun kind => ?_
        split
        · exact MakesAt.advance fun _ _ _ =>
            makes_variableDeclaration makesExpression first
        · refine MakesAt.advance fun _ _ _ => ?_
          refine (makes_function makesDeclaration depth .function
            first).andThen ?_
          intro declared next _ declaredMade
          exact Makes.ofPure declaredMade
        · exact MakesAt.advance fun _ _ _ =>
            makes_classDeclaration makesDeclaration depth first
        · exact ((makesStatement first).weaken fun _ _ _ made => made.1).known _

end Grammar

/-- A cursor over scanned tokens. -/
theorem Cursor.spelled_of_ofTokens?
    {tokens : List Token}
    {first : NodeId}
    {cursor : Cursor}
    (spelled : ∀ token ∈ tokens, token.Spelled)
    (placed : Cursor.ofTokens? tokens first = .ok cursor) :
    cursor.Spelled ∧ cursor.nextNode = first := by
  unfold Cursor.ofTokens? at placed
  split at placed
  · cases placed
  · rename_i last isLast
    have lastMember : last ∈ tokens := List.mem_of_getLast? isLast
    split at placed
    · cases placed
      refine ⟨⟨?_, ?_⟩, rfl⟩
      · intro token member
        exact spelled token ((List.takeWhile_sublist _).subset member)
      · cases found : tokens.find? Token.isEnd with
        | none =>
            exact spelled last lastMember
        | some finish =>
            exact spelled finish (List.mem_of_find?_eq_some found)
    · cases placed

/-- What the program parser leads to, on scanned tokens. -/
theorem Grammar.makes_program
    (depth : Nat)
    (first : NodeId) :
    Makes first (Grammar.program depth) (Stmt.MadeAll first) :=
  makes_statementsUntil (makes_statement_declaration depth).2 depth first

/-- The program that scanned tokens spell is orderly, and its references have
identities from the interval that was handed out for it. -/
theorem parseProgram_made
    {tokens : List Token}
    {first next : NodeId}
    {statements : List Stmt}
    (spelled : ∀ token ∈ tokens, token.Spelled)
    (parsed : parseProgram tokens first = (.ok statements, next)) :
    Stmt.MadeAll first statements next := by
  unfold parseProgram at parsed
  split at parsed
  · cases parsed
  · rename_i cursor placed
    obtain ⟨cursorSpelled, start⟩ := Cursor.spelled_of_ofTokens? spelled placed
    have makes :=
      Grammar.makes_program (Grammar.depthFor cursor.pending.length)
        first cursor cursorSpelled start
    split at parsed
    · rename_i made rest yields
      cases parsed
      exact (makes.ok yields).2.2
    · cases parsed

/-- Parsing scanned tokens never takes identities back. -/
theorem parseProgram_rises
    {tokens : List Token}
    (spelled : ∀ token ∈ tokens, token.Spelled)
    (first : NodeId) :
    first ≤ (parseProgram tokens first).2 := by
  unfold parseProgram
  split
  · exact Nat.le_refl _
  · rename_i cursor placed
    obtain ⟨cursorSpelled, start⟩ := Cursor.spelled_of_ofTokens? spelled placed
    have makes :=
      Grammar.makes_program (Grammar.depthFor cursor.pending.length)
        first cursor cursorSpelled start
    split
    · exact (makes.ok ‹_›).2.1
    · exact makes.error ‹_›

namespace Program

/-- The tokens of a source are those of its text. -/
theorem tokens_eq_ok_iff
    {source : ByteArray}
    {scanned : List Token} :
    tokens source = .ok scanned ↔
      ∃ text, Text.Utf8.decode source = .ok text ∧
        Token.scan text = .ok scanned := by
  unfold tokens
  cases Text.Utf8.decode source with
  | error fault => exact ⟨nofun, nofun⟩
  | ok text =>
      change (Token.scan text).mapError StaticError.scan = .ok scanned ↔ _
      cases scans : Token.scan text with
      | error error =>
          refine ⟨nofun, ?_⟩
          rintro ⟨_, ⟨⟩, accepted⟩
          cases scans.symm.trans accepted
      | ok listed =>
          constructor
          · intro same
            cases same
            exact ⟨text, rfl, scans⟩
          · rintro ⟨_, ⟨⟩, accepted⟩
            cases scans.symm.trans accepted
            rfl

/-- The tokens of a source are spelled as their kinds say. -/
theorem spelled_of_tokens
    {source : ByteArray}
    {scanned : List Token}
    (yields : tokens source = .ok scanned) :
    ∀ token ∈ scanned, token.Spelled := by
  obtain ⟨text, -, scans⟩ := tokens_eq_ok_iff.mp yields
  exact Token.spelled_of_scan scans

/-- An accepted program is orderly, its references have identities from the
interval that was handed out for it, and its distances are what the analysis
filed. -/
theorem compile_made
    {source : ByteArray}
    {first next : NodeId}
    {program : Program}
    (accepted : compile source first = (.ok program, next)) :
    Stmt.MadeAll first program.statements next ∧
      resolveProgram program.statements = .ok program.distances := by
  unfold compile at accepted
  split at accepted
  · cases accepted
  · rename_i scanned yields
    split at accepted
    · cases accepted
    · rename_i statements after parsed
      obtain ⟨analysed, rfl⟩ := Prod.mk.inj accepted
      have made := parseProgram_made (spelled_of_tokens yields) parsed
      cases resolved : resolveProgram statements with
      | error error =>
          unfold ofStatements at analysed
          rw [resolved] at analysed
          cases analysed
      | ok distances =>
          unfold ofStatements at analysed
          rw [resolved] at analysed
          cases analysed
          exact ⟨made, resolved⟩

/-- Compiling never takes identities back, whether it accepts the source or
not. -/
theorem compile_rises
    (source : ByteArray)
    (first : NodeId) :
    first ≤ (compile source first).2 := by
  unfold compile
  split
  · exact Nat.le_refl _
  · rename_i scanned yields
    have rises := parseProgram_rises (spelled_of_tokens yields) first
    split
    · rename_i parsed
      simpa [parsed] using rises
    · rename_i parsed
      simpa [parsed] using rises

end Program

end LoxScript
