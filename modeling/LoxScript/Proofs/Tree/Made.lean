import LoxScript.Proofs.Outcome
import LoxScript.Proofs.Tree.Orderly
import LoxScript.Tree.Grammar

namespace LoxScript

/-!
# What parsers make

Every parser of the grammar makes orderly trees out of scanned tokens, and hands
out identities from the one it starts with upwards.  The statements are proved
parser by parser, each from those of its parts, and meet in `parseProgram_made`.
-/

/-- The tokens still to be taken in are spelled as their kinds say. -/
def Cursor.Spelled (cursor : Cursor) : Prop :=
  (∀ token ∈ cursor.pending, token.Spelled) ∧ cursor.finish.Spelled

namespace Parse

/-- From identity `first` on, the parser makes something that `made` holds of
together with the next identity; identities only rise, whether it fails or
not. -/
def Makes (first : NodeId) (parser : Parse α) (made : α → NodeId → Prop) :
    Prop :=
  ∀ cursor : Cursor, cursor.Spelled → cursor.nextNode = first →
    Leads parser cursor
      (fun value after =>
        after.Spelled ∧ first ≤ after.nextNode ∧ made value after.nextNode)
      (fun _ after => first ≤ after.nextNode)

/-- As `Makes`, where the next token is of a known kind. -/
def MakesAt
    (kind : Kind)
    (first : NodeId)
    (parser : Parse α)
    (made : α → NodeId → Prop) : Prop :=
  ∀ cursor : Cursor, cursor.Spelled → cursor.current.kind = kind →
    cursor.nextNode = first →
    Leads parser cursor
      (fun value after =>
        after.Spelled ∧ first ≤ after.nextNode ∧ made value after.nextNode)
      (fun _ after => first ≤ after.nextNode)

variable {first : NodeId} {made : α → NodeId → Prop}

/-- The next token is spelled as its kind says. -/
theorem spelled_current
    {cursor : Cursor}
    (spelled : cursor.Spelled) :
    cursor.current.Spelled := by
  unfold Cursor.current
  cases pending : cursor.pending with
  | nil =>
      exact spelled.2
  | cons token rest =>
      exact spelled.1 token (by simp [pending])

namespace Makes

/-- A parser that makes nothing of the tokens. -/
theorem ofPure
    {value : α}
    (holds : made value first) :
    Makes first (pure value) made := by
  intro cursor spelled start
  subst start
  exact ⟨spelled, Nat.le_refl _, holds⟩

/-- One parser after the other. -/
theorem bind
    {parser : Parse α}
    {next : α → Parse β}
    {final : β → NodeId → Prop}
    (makes : Makes first parser fun value middle =>
      Makes middle (next value) final) :
    Makes first (parser >>= next) final := by
  intro cursor spelled start
  refine Leads.bind
    ((makes cursor spelled start).weaken ?_ fun _ _ risen => risen)
  rintro value after ⟨stillSpelled, risen, makesNext⟩
  refine (makesNext after stillSpelled rfl).weaken ?_ ?_
  · rintro final last ⟨lastSpelled, risenOn, holds⟩
    exact ⟨lastSpelled, Nat.le_trans risen risenOn, holds⟩
  · intro error last risenOn
    exact Nat.le_trans risen risenOn

/-- What is made may be weakened, knowing that identities only rise. -/
theorem weaken
    {parser : Parse α}
    {better : α → NodeId → Prop}
    (makes : Makes first parser better)
    (implies : ∀ value next, first ≤ next → better value next →
      made value next) :
    Makes first parser made := by
  intro cursor spelled start
  refine (makes cursor spelled start).weaken ?_ fun _ _ risen => risen
  rintro value after ⟨stillSpelled, risen, holds⟩
  exact ⟨stillSpelled, risen, implies value _ risen holds⟩

/-- One parser after the other, where what the first one makes is known. -/
theorem andThen
    {parser : Parse α}
    {next : α → Parse β}
    {between : α → NodeId → Prop}
    {final : β → NodeId → Prop}
    (makes : Makes first parser between)
    (goesOn :
      ∀ value middle, first ≤ middle → between value middle →
        Makes middle (next value) final) :
    Makes first (parser >>= next) final :=
  bind (makes.weaken goesOn)

/-- Changing what a parser makes. -/
theorem map
    {parser : Parse α}
    {change : α → β}
    {final : β → NodeId → Prop}
    (makes : Makes first parser fun value next => final (change value) next) :
    Makes first (change <$> parser) final := by
  intro cursor spelled start
  exact Leads.map (makes cursor spelled start)

/-- A parser that fails makes nothing. -/
theorem fail
    (fault : ParseFault) :
    Makes first (Parse.fail fault) made := by
  intro cursor _ start
  exact Nat.le_of_eq start.symm

/-- A parser that fails at a token makes nothing. -/
theorem ofThrow
    (error : ParseError) :
    Makes first (throw error) made := by
  intro cursor _ start
  exact Nat.le_of_eq start.symm

/-- A new identity. -/
theorem freshNode :
    Makes first Parse.freshNode fun id next =>
      id = first ∧ next = first + 1 := by
  intro cursor spelled start
  subst start
  exact ⟨spelled, Nat.le_succ _, rfl, rfl⟩

/-- Any token. -/
theorem advance : Makes first advance fun token next =>
    next = first ∧ token.Spelled := by
  intro cursor spelled start
  subst start
  refine ⟨⟨fun token member => spelled.1 token (List.mem_of_mem_tail member),
    spelled.2⟩, Nat.le_refl _, rfl, spelled_current spelled⟩

/-- Looking at the kind of the next token. -/
theorem peek
    {next : Kind → Parse β}
    {final : β → NodeId → Prop}
    (makes : ∀ kind, MakesAt kind first (next kind) final) :
    Makes first (currentKind >>= next) final := by
  intro cursor spelled start
  exact makes cursor.current.kind cursor spelled rfl start

/-- What is made whatever comes next is made when something known comes next. -/
theorem known
    {parser : Parse α}
    (makes : Makes first parser made)
    (kind : Kind) :
    MakesAt kind first parser made :=
  fun cursor spelled _ start => makes cursor spelled start

end Makes

/-- Taking in a token of a known kind. -/
theorem MakesAt.advance
    {kind : Kind}
    {next : Token → Parse β}
    {final : β → NodeId → Prop}
    (makes :
      ∀ token : Token, token.Spelled → token.kind = kind →
        Makes first (next token) final) :
    MakesAt kind first (Parse.advance >>= next) final := by
  intro cursor spelled seen start
  have taken := Makes.advance cursor spelled start
  refine Leads.bind ?_
  refine (makes cursor.current (spelled_current spelled) seen) _ taken.1 ?_
  exact start

/-- Asking for a symbol. -/
theorem makes_seesSymbol
    (symbol : Symbol) :
    Makes first (seesSymbol symbol) fun _ next => next = first := by
  refine Makes.peek fun kind => Makes.known ?_ kind
  split <;> exact Makes.ofPure rfl

/-- Taking in a symbol if it is next. -/
theorem makes_acceptSymbol
    (symbol : Symbol) :
    Makes first (acceptSymbol symbol) fun _ next => next = first := by
  refine (makes_seesSymbol symbol).andThen ?_
  rintro seen middle - rfl
  split
  · exact Makes.advance.andThen fun token next _ taken => Makes.ofPure taken.1
  · exact Makes.ofPure rfl

/-- Taking in a reserved word if it is next. -/
theorem makes_acceptKeyword
    (keyword : Keyword) :
    Makes first (acceptKeyword keyword) fun _ next => next = first := by
  refine Makes.peek fun kind => Makes.known ?_ kind
  split
  · split
    · exact Makes.advance.andThen fun token next _ taken => Makes.ofPure taken.1
    · exact Makes.ofPure rfl
  · exact Makes.ofPure rfl

/-- Taking in a symbol that has to be next. -/
theorem makes_expectSymbol
    (symbol : Symbol)
    (item : Expectation) :
    Makes first (expectSymbol symbol item) fun _ next => next = first := by
  refine (makes_seesSymbol symbol).andThen ?_
  rintro seen middle - rfl
  split
  · exact Makes.advance.weaken fun token next _ taken => taken.1
  · exact Makes.fail _

/-- A token of a name's kind that is spelled as its kind says is a name. -/
theorem isName_of_kind
    {token : Token}
    {name : String}
    (spelled : token.Spelled)
    (kind : token.kind = .identifier name) :
    token.IsName := by
  simp only [Token.Spelled, kind] at spelled
  exact spelled.2

/-- A token of a reserved word's kind has the word's spelling. -/
theorem lexeme_of_kind
    {token : Token}
    {word : Keyword}
    (spelled : token.Spelled)
    (kind : token.kind = .keyword word) :
    token.lexeme = word.spelling := by
  simpa only [Token.Spelled, kind] using spelled

/-- Taking in a name that has to be next. -/
theorem makes_expectName
    (item : Expectation) :
    Makes first (expectName item) fun token next =>
      next = first ∧ token.IsName := by
  refine Makes.peek fun kind => ?_
  split
  · intro cursor spelled seen start
    subst start
    exact ⟨(Makes.advance cursor spelled rfl).1, Nat.le_refl _, rfl,
      isName_of_kind (spelled_current spelled) seen⟩
  · exact (Makes.fail _).known _

end Parse

open Parse

/-- An expression whose references were handed out between two identities. -/
def Expr.Made (first : NodeId) (expr : Expr) (next : NodeId) : Prop :=
  Handed first next expr.references

/-- Expressions whose references were handed out between two identities. -/
def Expr.MadeAll (first : NodeId) (exprs : List Expr) (next : NodeId) : Prop :=
  Handed first next (Expr.referencesAll exprs)

/-- An orderly statement whose references were handed out between two
identities. -/
def Stmt.Made (first : NodeId) (statement : Stmt) (next : NodeId) : Prop :=
  Handed first next statement.references ∧ statement.Orderly

/-- Orderly statements whose references were handed out between two
identities. -/
def Stmt.MadeAll (first : NodeId) (statements : List Stmt) (next : NodeId) :
    Prop :=
  Handed first next (Stmt.referencesAll statements) ∧ Stmt.OrderlyAll statements

/-- An orderly function whose references were handed out between two
identities. -/
def FunctionDecl.Made (first : NodeId) (function : FunctionDecl)
    (next : NodeId) : Prop :=
  Handed first next function.references ∧ function.name.IsName ∧
    function.Orderly

/-- Orderly functions whose references were handed out between two
identities. -/
def FunctionDecl.MadeAll
    (first : NodeId)
    (functions : List FunctionDecl)
    (next : NodeId) : Prop :=
  Handed first next (FunctionDecl.referencesAll functions) ∧
    FunctionDecl.OrderlyAll functions

namespace Grammar

/-- The parser makes expressions. -/
def MakesExpr (parser : Parse Expr) : Prop :=
  ∀ first, Makes first parser (Expr.Made first)

/-- The parser makes statements. -/
def MakesStmt (parser : Parse Stmt) : Prop :=
  ∀ first, Makes first parser (Stmt.Made first)

/-- The parser makes statements that declare nothing. -/
def MakesPlain (parser : Parse Stmt) : Prop :=
  ∀ first, Makes first parser fun statement next =>
    Stmt.Made first statement next ∧ statement.declared? = none

/-- Joining two operands keeps their references in order. -/
theorem references_join
    (level : Level)
    (left right : Expr)
    (operator : Token) :
    (level.join left operator right).references =
      left.references ++ right.references := by
  cases level <;> simp [Level.join, Expr.references]

/-- Operands joined from left to right. -/
theorem makes_chainRest
    {level : Level}
    {operand : Parse Expr}
    (makes : MakesExpr operand)
    (depth : Nat)
    {start first : NodeId}
    (rising : start ≤ first)
    {left : Expr}
    (leftMade : left.Made start first) :
    Makes first (chainRest level operand depth left) (Expr.Made start) := by
  induction depth generalizing first left with
  | zero =>
      exact Makes.fail _
  | succ depth inductionHypothesis =>
      unfold chainRest
      refine Makes.peek fun kind => ?_
      split
      · refine MakesAt.advance fun operator _ _ => ?_
        refine (makes first).andThen fun right middle risen rightMade => ?_
        refine inductionHypothesis (Nat.le_trans rising risen) ?_
        unfold Expr.Made at *
        rw [references_join]
        exact leftMade.append rightMade rising risen
      · exact (Makes.ofPure leftMade).known _

/-- Operands joined by operators of one level. -/
theorem makes_chain
    {level : Level}
    {operand : Parse Expr}
    (makes : MakesExpr operand)
    (depth : Nat) :
    MakesExpr (chain level operand depth) := by
  intro first
  refine (makes first).andThen fun left middle risen leftMade => ?_
  exact makes_chainRest makes depth risen leftMade

/-- Operands joined by operators of every level. -/
theorem makes_operators
    {operand : Parse Expr}
    (makes : MakesExpr operand)
    (depth : Nat) :
    MakesExpr (operators operand depth) := by
  unfold operators
  induction Level.all with
  | nil =>
      exact makes
  | cons level rest inductionHypothesis =>
      exact makes_chain inductionHypothesis depth

/-- Storing a value in a target gives up the target's own identity. -/
theorem makes_assignTo
    {start middle first : NodeId}
    (rising : start ≤ middle)
    (risingOn : middle ≤ first)
    {target value : Expr}
    (targetMade : target.Made start middle)
    (valueMade : value.Made middle first)
    (equals : Token) :
    Makes first (assignTo target equals value) (Expr.Made start) := by
  unfold assignTo
  split
  · rename_i id name
    refine Makes.freshNode.andThen ?_
    rintro fresh next risen ⟨rfl, rfl⟩
    refine Makes.ofPure ?_
    have spelled : name.IsName :=
      targetMade.spelled ⟨.read, id, name⟩ (by simp [Expr.references])
    have alone : Handed fresh (fresh + 1) [⟨.write, fresh, name⟩] :=
      Handed.single (Nat.le_refl _) (Nat.lt_succ_self _) spelled
    have both := valueMade.append alone risingOn (Nat.le_succ _)
    refine (both.widen rising (Nat.le_refl _)).perm ?_
    exact List.perm_append_singleton _ _
  · refine Makes.ofPure ?_
    exact targetMade.append valueMade rising risingOn
  · exact Makes.ofThrow _

/-- An assignment, or the expression that would have been its target. -/
theorem makes_assignment
    {target value : Parse Expr}
    (makesTarget : MakesExpr target)
    (makesValue : MakesExpr value) :
    MakesExpr (assignment target value) := by
  intro first
  refine (makesTarget first).andThen fun left middle risen leftMade => ?_
  refine (makes_seesSymbol _).andThen ?_
  rintro seen same - rfl
  split
  · refine Makes.advance.andThen ?_
    rintro equals same - ⟨rfl, -⟩
    refine (makesValue same).andThen fun right next risenOn rightMade => ?_
    exact makes_assignTo risen risenOn leftMade rightMade equals
  · exact Makes.ofPure leftMade

/-- Arguments with commas between them. -/
theorem makes_arguments
    {expression : Parse Expr}
    (makes : MakesExpr expression)
    (depth count : Nat)
    (first : NodeId) :
    Makes first (arguments expression depth count) (Expr.MadeAll first) := by
  induction depth generalizing count first with
  | zero =>
      exact Makes.fail _
  | succ depth inductionHypothesis =>
      unfold arguments
      extract_lets goOn
      have goesOn : Makes first (goOn ()) (Expr.MadeAll first) := by
        refine (makes first).andThen
          fun argument middle risen argumentMade => ?_
        refine (makes_acceptSymbol _).andThen ?_
        rintro more same - rfl
        split
        · refine (inductionHypothesis _ same).andThen
            fun others next risenOn othersMade => ?_
          exact Makes.ofPure (argumentMade.append othersMade risen risenOn)
        · refine Makes.ofPure ?_
          simpa [Expr.Made, Expr.MadeAll, Expr.referencesAll] using argumentMade
      split
      · exact Makes.bind (Makes.fail _)
      · exact goesOn

/-- A call after its opening parenthesis. -/
theorem makes_finishCall
    {expression : Parse Expr}
    (makes : MakesExpr expression)
    (depth : Nat)
    {start first : NodeId}
    (rising : start ≤ first)
    {callee : Expr}
    (calleeMade : callee.Made start first) :
    Makes first (finishCall expression depth callee) (Expr.Made start) := by
  refine (makes_seesSymbol _).andThen ?_
  rintro seen same - rfl
  extract_lets goOn
  have goesOn (passed : List Expr) (middle : NodeId) (risen : same ≤ middle)
      (passedMade : Expr.MadeAll same passed middle) :
      Makes middle (goOn passed) (Expr.Made start) := by
    refine (makes_expectSymbol _ _).andThen ?_
    rintro paren same - rfl
    exact Makes.ofPure (calleeMade.append passedMade rising risen)
  split
  · exact (Makes.ofPure (Handed.nil _ _)).andThen goesOn
  · exact (makes_arguments makes depth 0 same).andThen goesOn

/-- Calls and property accesses from left to right. -/
theorem makes_postfixRest
    {expression : Parse Expr}
    (makes : MakesExpr expression)
    (depth : Nat)
    {start first : NodeId}
    (rising : start ≤ first)
    {object : Expr}
    (objectMade : object.Made start first) :
    Makes first (postfixRest expression depth object) (Expr.Made start) := by
  induction depth generalizing first object with
  | zero =>
      exact Makes.fail _
  | succ depth inductionHypothesis =>
      unfold postfixRest
      refine (makes_acceptSymbol _).andThen ?_
      rintro isCall same - rfl
      split
      · refine (makes_finishCall makes depth rising objectMade).andThen ?_
        intro called next risen calledMade
        exact inductionHypothesis (Nat.le_trans rising risen) calledMade
      · refine (makes_acceptSymbol _).andThen ?_
        rintro isAccess same - rfl
        split
        · refine (makes_expectName _).andThen ?_
          rintro name same - ⟨rfl, -⟩
          exact inductionHypothesis rising objectMade
        · exact Makes.ofPure objectMade

/-- An expression without operators, calls or property accesses. -/
theorem makes_primary
    {expression : Parse Expr}
    (makes : MakesExpr expression) :
    MakesExpr (primary expression) := by
  intro first
  have alone {reference : Reference} (same : reference.id = first)
      (spelled : reference.Spelled) : Handed first (first + 1) [reference] :=
    Handed.single (Nat.le_of_eq same.symm) (same ▸ Nat.lt_succ_self _) spelled
  refine Makes.peek fun kind => ?_
  split
  · refine MakesAt.advance fun token _ _ => ?_
    exact Makes.ofPure (Handed.nil _ _)
  · split
    · refine MakesAt.advance fun token spelled seen => ?_
      refine Makes.freshNode.andThen ?_
      rintro id next - ⟨rfl, rfl⟩
      exact Makes.ofPure (alone rfl (isName_of_kind spelled seen))
    · refine MakesAt.advance fun token spelled seen => ?_
      refine Makes.freshNode.andThen ?_
      rintro id next - ⟨rfl, rfl⟩
      exact Makes.ofPure (alone rfl (lexeme_of_kind spelled seen))
    · refine MakesAt.advance fun token spelled seen => ?_
      refine (makes_expectSymbol _ _).andThen ?_
      rintro dot same - rfl
      refine (makes_expectName _).andThen ?_
      rintro method same - ⟨rfl, -⟩
      refine Makes.freshNode.andThen ?_
      rintro id next - ⟨rfl, rfl⟩
      exact Makes.ofPure (alone rfl (lexeme_of_kind spelled seen))
    · refine MakesAt.advance fun token _ _ => ?_
      refine (makes first).andThen fun inner next risen innerMade => ?_
      refine (makes_expectSymbol _ _).andThen ?_
      rintro paren same - rfl
      exact Makes.ofPure innerMade
    · exact (Makes.fail _).known _

/-- Expressions and operands. -/
theorem makes_expression_unary
    (depth : Nat) :
    MakesExpr (expression depth) ∧ MakesExpr (unary depth) := by
  induction depth with
  | zero =>
      exact ⟨fun first => Makes.fail _, fun first => Makes.fail _⟩
  | succ depth inductionHypothesis =>
      obtain ⟨makesExpression, makesUnary⟩ := inductionHypothesis
      refine ⟨makes_assignment (makes_operators makesUnary depth)
        makesExpression, ?_⟩
      intro first
      unfold unary
      have makesPrimary : Makes first
          (do
            postfixRest (expression depth) depth (← primary (expression depth)))
          (Expr.Made first) := by
        refine (makes_primary makesExpression first).andThen ?_
        intro object next risen objectMade
        exact makes_postfixRest makesExpression depth risen objectMade
      have makesNegated (kind : Kind) : MakesAt kind first
          (do
            let operator ← advance
            return .unary operator (← unary depth))
          (Expr.Made first) := by
        refine MakesAt.advance fun operator _ _ => ?_
        refine (makesUnary first).andThen fun operand next _ operandMade => ?_
        exact Makes.ofPure operandMade
      refine Makes.peek fun kind => ?_
      split
      · exact makesNegated _
      · exact makesNegated _
      · exact makesPrimary.known _

/-- Expressions. -/
theorem makes_expression
    (depth : Nat) :
    MakesExpr (expression depth) :=
  (makes_expression_unary depth).1

end Grammar

end LoxScript
