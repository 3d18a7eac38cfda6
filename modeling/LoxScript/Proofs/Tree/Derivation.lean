import LoxScript.Tree.Grammar

namespace LoxScript

/-!
# Derivations

The grammar as a relation between trees and the tokens that spell them.  Phrases
are the parts of expressions, clauses those of statements.  A derivation also
says which identities the nodes of the tree have: they are handed out from left
to right, and an assignment gets its own after its value.

A statement is open if it ends with an `if` that has no `else`: an `else` that
follows would belong to that `if`.
-/

open Grammar

/-- How tightly the operators of a level bind.  Assignments have rank zero, and
the operands of the tightest operators rank seven. -/
def Level.rank : Level → Nat
  | .disjunction => 1
  | .conjunction => 2
  | .equality => 3
  | .comparison => 4
  | .sum => 5
  | .product => 6

/-- The level of an operator between two operands. -/
def Kind.level? : Kind → Option Level
  | .keyword .orWord => some .disjunction
  | .keyword .andWord => some .conjunction
  | .symbol .bangEqual => some .equality
  | .symbol .equalEqual => some .equality
  | .symbol .greater => some .comparison
  | .symbol .greaterEqual => some .comparison
  | .symbol .less => some .comparison
  | .symbol .lessEqual => some .comparison
  | .symbol .minus => some .sum
  | .symbol .plus => some .sum
  | .symbol .slash => some .product
  | .symbol .star => some .product
  | _ => none

/-- Every operator belongs to one level. -/
theorem Level.accepts_iff
    (level : Level)
    (kind : Kind) :
    level.accepts kind = true ↔ kind.level? = some level := by
  cases kind with
  | symbol sign => cases sign <;> cases level <;> decide
  | keyword word => cases word <;> cases level <;> decide
  | _ => cases level <;> simp [Level.accepts, Kind.level?]

/-- The token is a name. -/
def Token.IsIdentifier (token : Token) : Prop :=
  ∃ name, token.kind = .identifier name

/-- The parts of expressions. -/
inductive Phrase where
  /-- An expression of a rank or of a greater one. -/
  | expr (rank : Nat) (value : Expr)
  /-- An expression without operators, calls or property accesses. -/
  | primary (value : Expr)
  /-- What follows the operand `left` with operators of one level, and makes
  `value` of it. -/
  | chain (level : Level) (left value : Expr)
  /-- Calls and property accesses that follow `object`, and make `value` of
  it. -/
  | access (object value : Expr)
  /-- At least one argument, with commas between them. -/
  | arguments (values : List Expr)

/-- The tokens spell the phrase, whose nodes have the identities from the first
one up to the next. -/
inductive Phrase.Derives : Phrase → NodeId → List Token → NodeId → Prop where
  | literal {token value first} :
      literal? token.kind = some value →
      Derives (.primary (.literal value)) first [token] first
  | reference {name first} :
      name.IsIdentifier →
      Derives (.primary (.reference first name)) first [name] (first + 1)
  | thisRef {keyword first} :
      keyword.kind = .keyword .thisWord →
      Derives (.primary (.thisRef first keyword)) first [keyword] (first + 1)
  | superRef {keyword dot method first} :
      keyword.kind = .keyword .superWord → dot.kind = .symbol .dot →
      method.IsIdentifier →
      Derives (.primary (.superRef first keyword method))
        first [keyword, dot, method] (first + 1)
  | grouping {left inner first tokens next right} :
      left.kind = .symbol .leftParen →
      Derives (.expr 0 inner) first tokens next →
      right.kind = .symbol .rightParen →
      Derives (.primary (.grouping inner))
        first (left :: tokens ++ [right]) next
  | operand {object value first tokens middle others next} :
      Derives (.primary object) first tokens middle →
      Derives (.access object value) middle others next →
      Derives (.expr 7 value) first (tokens ++ others) next
  | unary {operator operand first tokens next} :
      operator.kind = .symbol .bang ∨ operator.kind = .symbol .minus →
      Derives (.expr 7 operand) first tokens next →
      Derives (.expr 7 (.unary operator operand))
        first (operator :: tokens) next
  | accessEnd {object first} :
      Derives (.access object object) first [] first
  | call {object value left right first others next} :
      left.kind = .symbol .leftParen → right.kind = .symbol .rightParen →
      Derives (.access (.call object right []) value) first others next →
      Derives (.access object value) first (left :: right :: others) next
  | callWith {object value left right values first tokens middle others next} :
      left.kind = .symbol .leftParen →
      Derives (.arguments values) first tokens middle →
      values.length ≤ argumentLimit → right.kind = .symbol .rightParen →
      Derives (.access (.call object right values) value) middle others next →
      Derives (.access object value) first (left :: tokens ++ right :: others)
        next
  | get {object value dot name first others next} :
      dot.kind = .symbol .dot → name.IsIdentifier →
      Derives (.access (.get object name) value) first others next →
      Derives (.access object value) first (dot :: name :: others) next
  | lastArgument {value first tokens next} :
      Derives (.expr 0 value) first tokens next →
      Derives (.arguments [value]) first tokens next
  | argument {value values comma first tokens middle others next} :
      Derives (.expr 0 value) first tokens middle →
      comma.kind = .symbol .comma →
      Derives (.arguments values) middle others next →
      Derives (.arguments (value :: values))
        first (tokens ++ comma :: others) next
  | chainEnd {level left first} :
      Derives (.chain level left left) first [] first
  | chainNext {level left operator right value first tokens middle
    others next} :
      level.accepts operator.kind = true →
      Derives (.expr (level.rank + 1) right) first tokens middle →
      Derives (.chain level (level.join left operator right) value) middle
        others next →
      Derives (.chain level left value)
        first (operator :: tokens ++ others) next
  | level (level : Level) {left value first tokens middle others next} :
      Derives (.expr (level.rank + 1) left) first tokens middle →
      Derives (.chain level left value) middle others next →
      Derives (.expr level.rank value) first (tokens ++ others) next
  | plain {value first tokens next} :
      Derives (.expr 1 value) first tokens next →
      Derives (.expr 0 value) first tokens next
  | assign {id name value equals first tokens middle others next} :
      Derives (.expr 1 (.reference id name)) first tokens middle →
      equals.kind = .symbol .equal →
      Derives (.expr 0 value) middle others next →
      Derives (.expr 0 (.assign next name value))
        first (tokens ++ equals :: others) (next + 1)
  | set {object name value equals first tokens middle others next} :
      Derives (.expr 1 (.get object name)) first tokens middle →
      equals.kind = .symbol .equal →
      Derives (.expr 0 value) middle others next →
      Derives (.expr 0 (.set object name value))
        first (tokens ++ equals :: others) next

/-- The tokens spell the expression, or there are neither. -/
inductive DerivesOptional : Option Expr → NodeId → List Token →
    NodeId → Prop where
  | absent {first} :
      DerivesOptional none first [] first
  | present {value first tokens next} :
      Phrase.Derives (.expr 0 value) first tokens next →
      DerivesOptional (some value) first tokens next

/-- The tokens spell the declaration of a variable after the word `var`. -/
inductive DerivesVariable : Stmt → NodeId → List Token → NodeId → Prop where
  | bare {name semicolon first} :
      name.IsIdentifier → semicolon.kind = .symbol .semicolon →
      DerivesVariable (.varDecl name none) first [name, semicolon] first
  | initialized {name equals value semicolon first tokens next} :
      name.IsIdentifier → equals.kind = .symbol .equal →
      Phrase.Derives (.expr 0 value) first tokens next →
      semicolon.kind = .symbol .semicolon →
      DerivesVariable (.varDecl name (some value)) first
        (name :: equals :: tokens ++ [semicolon]) next

/-- The tokens spell the first clause of a `for` statement with its
semicolon. -/
inductive DerivesInitializer : Option Stmt → NodeId → List Token →
    NodeId → Prop where
  | absent {semicolon first} :
      semicolon.kind = .symbol .semicolon →
      DerivesInitializer none first [semicolon] first
  | declared {keyword statement first tokens next} :
      keyword.kind = .keyword .varWord →
      DerivesVariable statement first tokens next →
      DerivesInitializer (some statement) first (keyword :: tokens) next
  | evaluated {value semicolon first tokens next} :
      Phrase.Derives (.expr 0 value) first tokens next →
      semicolon.kind = .symbol .semicolon →
      DerivesInitializer (some (.expression value))
        first (tokens ++ [semicolon]) next

/-- The tokens spell at least one name, with commas between them. -/
inductive DerivesNames : List Token → List Token → Prop where
  | last {name} :
      name.IsIdentifier →
      DerivesNames [name] [name]
  | next {name comma names tokens} :
      name.IsIdentifier → comma.kind = .symbol .comma →
      DerivesNames names tokens →
      DerivesNames (name :: names) (name :: comma :: tokens)

/-- The tokens spell the parameters of a function, if it has any. -/
inductive DerivesParameters : List Token → List Token → Prop where
  | absent :
      DerivesParameters [] []
  | present {names tokens} :
      DerivesNames names tokens → names.length ≤ argumentLimit →
      DerivesParameters names tokens

/-- The tokens spell the superclass of a class, if it has one. -/
inductive DerivesSuperclass : Option SuperclassRef → NodeId → List Token →
    NodeId → Prop where
  | absent {first} :
      DerivesSuperclass none first [] first
  | present {less name first} :
      less.kind = .symbol .less → name.IsIdentifier →
      DerivesSuperclass (some ⟨first, name⟩) first [less, name] (first + 1)

/-- The parts of statements. -/
inductive Clause where
  /-- A statement that declares nothing, open or not. -/
  | statement (value : Stmt) (opened : Bool)
  /-- A declaration or a statement, open or not. -/
  | declaration (value : Stmt) (opened : Bool)
  /-- Declarations and statements one after another. -/
  | sequence (values : List Stmt)
  /-- A function or method from its name on. -/
  | function (value : FunctionDecl)
  /-- Methods one after another. -/
  | methods (values : List FunctionDecl)

/-- The tokens spell the clause, whose nodes have the identities from the first
one up to the next. -/
inductive Clause.Derives : Clause → NodeId → List Token → NodeId → Prop where
  | print {keyword value semicolon first tokens next} :
      keyword.kind = .keyword .printWord →
      Phrase.Derives (.expr 0 value) first tokens next →
      semicolon.kind = .symbol .semicolon →
      Derives (.statement (.print value) false)
        first (keyword :: tokens ++ [semicolon]) next
  | expression {value semicolon first tokens next} :
      Phrase.Derives (.expr 0 value) first tokens next →
      semicolon.kind = .symbol .semicolon →
      Derives (.statement (.expression value) false)
        first (tokens ++ [semicolon]) next
  | ret {keyword value semicolon first tokens next} :
      keyword.kind = .keyword .returnWord →
      DerivesOptional value first tokens next →
      semicolon.kind = .symbol .semicolon →
      Derives (.statement (.ret keyword value) false)
        first (keyword :: tokens ++ [semicolon]) next
  | require {keyword named path semicolon first} :
      keyword.kind = .keyword .requireWord → named.kind = .string path →
      semicolon.kind = .symbol .semicolon →
      Derives (.statement (.require keyword path) false)
        first [keyword, named, semicolon] first
  | block {left body right first tokens next} :
      left.kind = .symbol .leftBrace →
      Derives (.sequence body) first tokens next →
      right.kind = .symbol .rightBrace →
      Derives (.statement (.block body) false)
        first (left :: tokens ++ [right]) next
  | loop {keyword left condition right body opened first tokens middle
    others next} :
      keyword.kind = .keyword .whileWord → left.kind = .symbol .leftParen →
      Phrase.Derives (.expr 0 condition) first tokens middle →
      right.kind = .symbol .rightParen →
      Derives (.statement body opened) middle others next →
      Derives (.statement (.loop condition body) opened) first
        (keyword :: left :: tokens ++ right :: others) next
  | when {keyword left condition right thenBranch opened first tokens middle
    others next} :
      keyword.kind = .keyword .ifWord → left.kind = .symbol .leftParen →
      Phrase.Derives (.expr 0 condition) first tokens middle →
      right.kind = .symbol .rightParen →
      Derives (.statement thenBranch opened) middle others next →
      Derives (.statement (.conditional condition thenBranch none) true) first
        (keyword :: left :: tokens ++ right :: others) next
  | conditional {keyword left condition right thenBranch other elseBranch opened
      first tokens middle others further last next} :
      keyword.kind = .keyword .ifWord → left.kind = .symbol .leftParen →
      Phrase.Derives (.expr 0 condition) first tokens middle →
      right.kind = .symbol .rightParen →
      Derives (.statement thenBranch false) middle others further →
      other.kind = .keyword .elseWord →
      Derives (.statement elseBranch opened) further last next →
      Derives (.statement (.conditional condition thenBranch (some elseBranch))
          opened) first
        (keyword :: left :: tokens ++ right :: others ++ other :: last) next
  | forLoop {keyword left initializer condition semicolon increment right body
      opened first tokens second others third more fourth last next} :
      keyword.kind = .keyword .forWord → left.kind = .symbol .leftParen →
      DerivesInitializer initializer first tokens second →
      DerivesOptional condition second others third →
      semicolon.kind = .symbol .semicolon →
      DerivesOptional increment third more fourth →
      right.kind = .symbol .rightParen →
      Derives (.statement body opened) fourth last next →
      Derives (.statement (.forLoop initializer condition increment body)
          opened) first
        (keyword :: left :: tokens ++ others ++ semicolon :: more ++
          right :: last) next
  | plain {value opened first tokens next} :
      Derives (.statement value opened) first tokens next →
      Derives (.declaration value opened) first tokens next
  | varDecl {keyword value first tokens next} :
      keyword.kind = .keyword .varWord →
      DerivesVariable value first tokens next →
      Derives (.declaration value false) first (keyword :: tokens) next
  | funDecl {keyword declaration first tokens next} :
      keyword.kind = .keyword .funWord →
      Derives (.function declaration) first tokens next →
      Derives (.declaration (.funDecl declaration) false)
        first (keyword :: tokens) next
  | classDecl {keyword name superclass left methods right first tokens middle
    others next} :
      keyword.kind = .keyword .classWord → name.IsIdentifier →
      DerivesSuperclass superclass first tokens middle →
      left.kind = .symbol .leftBrace →
      Derives (.methods methods) middle others next →
      right.kind = .symbol .rightBrace →
      Derives (.declaration (.classDecl name superclass methods) false) first
        (keyword :: name :: tokens ++ left :: others ++ [right]) next
  | noStatements {first} :
      Derives (.sequence []) first [] first
  | andThen {value opened values first tokens middle others next} :
      Derives (.declaration value opened) first tokens middle →
      Derives (.sequence values) middle others next →
      Derives (.sequence (value :: values)) first (tokens ++ others) next
  | function {name left params right opening body closing first tokens
    others next} :
      name.IsIdentifier → left.kind = .symbol .leftParen →
      DerivesParameters params tokens →
      right.kind = .symbol .rightParen → opening.kind = .symbol .leftBrace →
      Derives (.sequence body) first others next →
      closing.kind = .symbol .rightBrace →
      Derives (.function ⟨name, params, body⟩) first
        (name :: left :: tokens ++ right :: opening :: others ++ [closing]) next
  | noMethods {first} :
      Derives (.methods []) first [] first
  | method {value values first tokens middle others next} :
      Derives (.function value) first tokens middle →
      Derives (.methods values) middle others next →
      Derives (.methods (value :: values)) first (tokens ++ others) next

/-- An expression without operators in front starts with such a token. -/
def Kind.StartsOperand (kind : Kind) : Prop :=
  (literal? kind).isSome = true ∨ (∃ name, kind = .identifier name) ∨
    kind = .keyword .thisWord ∨ kind = .keyword .superWord ∨
      kind = .symbol .leftParen

/-- An expression starts with such a token. -/
def Kind.StartsExpr (kind : Kind) : Prop :=
  kind.StartsOperand ∨ kind = .symbol .bang ∨ kind = .symbol .minus

namespace Phrase.Derives

/-- The first token of an expression without operators, calls or property
accesses. -/
theorem starts_primary
    {value : Expr}
    {first next : NodeId}
    {tokens : List Token}
    (derives : Phrase.Derives (.primary value) first tokens next) :
    ∃ token rest, tokens = token :: rest ∧ token.kind.StartsOperand := by
  cases derives with
  | literal isLiteral =>
      exact ⟨_, [], rfl, .inl (Option.isSome_iff_exists.mpr ⟨_, isLiteral⟩)⟩
  | reference isName => exact ⟨_, [], rfl, .inr (.inl isName)⟩
  | thisRef isThis => exact ⟨_, [], rfl, .inr (.inr (.inl isThis))⟩
  | superRef isSuper => exact ⟨_, _, rfl, .inr (.inr (.inr (.inl isSuper)))⟩
  | grouping isLeft => exact ⟨_, _, rfl, .inr (.inr (.inr (.inr isLeft)))⟩

/-- The first token of an expression. -/
theorem starts
    {rank : Nat}
    {value : Expr}
    {first next : NodeId}
    {tokens : List Token}
    (derives : Phrase.Derives (.expr rank value) first tokens next) :
    ∃ token rest, tokens = token :: rest ∧ token.kind.StartsExpr := by
  generalize isPhrase : Phrase.expr rank value = phrase at derives
  induction derives generalizing rank value with
  | operand object _ _ =>
      obtain ⟨token, rest, rfl, starts⟩ := object.starts_primary
      exact ⟨token, _, rfl, .inl starts⟩
  | unary isOperator => exact ⟨_, _, rfl, .inr isOperator⟩
  | level level _ _ inductionHypothesis =>
      obtain ⟨token, rest, rfl, starts⟩ := inductionHypothesis rfl
      exact ⟨token, _, rfl, starts⟩
  | plain _ inductionHypothesis => exact inductionHypothesis rfl
  | assign _ _ _ inductionHypothesis =>
      obtain ⟨token, rest, rfl, starts⟩ := inductionHypothesis rfl
      exact ⟨token, _, rfl, starts⟩
  | set _ _ _ inductionHypothesis =>
      obtain ⟨token, rest, rfl, starts⟩ := inductionHypothesis rfl
      exact ⟨token, _, rfl, starts⟩
  | _ => cases isPhrase

/-- The first token of arguments. -/
theorem starts_arguments
    {values : List Expr}
    {first next : NodeId}
    {tokens : List Token}
    (derives : Phrase.Derives (.arguments values) first tokens next) :
    ∃ token rest, tokens = token :: rest ∧ token.kind.StartsExpr := by
  cases derives with
  | lastArgument value => exact value.starts
  | argument value =>
      obtain ⟨token, rest, rfl, starts⟩ := value.starts
      exact ⟨token, _, rfl, starts⟩

end Phrase.Derives

/-- No expression starts with a closing parenthesis. -/
theorem Kind.StartsExpr.ne_rightParen
    {kind : Kind}
    (starts : kind.StartsExpr) :
    kind ≠ .symbol .rightParen := by
  rintro rfl
  simp [StartsExpr, StartsOperand, literal?] at starts

/-- No expression starts with a semicolon. -/
theorem Kind.StartsExpr.ne_semicolon
    {kind : Kind}
    (starts : kind.StartsExpr) :
    kind ≠ .symbol .semicolon := by
  rintro rfl
  simp [StartsExpr, StartsOperand, literal?] at starts

/-- The token is none of those that no declaration or statement starts with. -/
structure Kind.StartsClause (kind : Kind) : Prop where
  notClosing : kind ≠ .symbol .rightBrace
  notEnd : kind ≠ .endOfInput
  notElse : kind ≠ .keyword .elseWord

/-- The token is none of those that no statement starts with. -/
structure Kind.StartsStatement (kind : Kind) :
    Prop extends kind.StartsClause where
  notVariable : kind ≠ .keyword .varWord
  notFunction : kind ≠ .keyword .funWord
  notClass : kind ≠ .keyword .classWord

/-- What an expression starts with can start a statement. -/
theorem Kind.StartsExpr.startsStatement
    {kind : Kind}
    (starts : kind.StartsExpr) :
    kind.StartsStatement := by
  refine ⟨⟨?_, ?_, ?_⟩, ?_, ?_, ?_⟩ <;>
    · rintro rfl
      simp [StartsExpr, StartsOperand, literal?] at starts

namespace Clause.Derives

/-- The first token of a statement. -/
theorem starts_statement
    {value : Stmt}
    {opened : Bool}
    {first next : NodeId}
    {tokens : List Token}
    (derives : Clause.Derives (.statement value opened) first tokens next) :
    ∃ token rest, tokens = token :: rest ∧ token.kind.StartsStatement := by
  have known {token : Token} {kind : Kind} (isKind : token.kind = kind)
      (starts : kind.StartsStatement) : token.kind.StartsStatement :=
    isKind ▸ starts
  cases derives with
  | expression value =>
      obtain ⟨token, rest, rfl, starts⟩ := value.starts
      exact ⟨token, _, rfl, starts.startsStatement⟩
  | print isKind =>
      exact ⟨_, _, rfl, known isKind
        ⟨⟨nofun, nofun, nofun⟩, nofun, nofun, nofun⟩⟩
  | ret isKind =>
      exact ⟨_, _, rfl, known isKind
        ⟨⟨nofun, nofun, nofun⟩, nofun, nofun, nofun⟩⟩
  | require isKind =>
      exact ⟨_, _, rfl, known isKind
        ⟨⟨nofun, nofun, nofun⟩, nofun, nofun, nofun⟩⟩
  | block isKind =>
      exact ⟨_, _, rfl, known isKind
        ⟨⟨nofun, nofun, nofun⟩, nofun, nofun, nofun⟩⟩
  | loop isKind =>
      exact ⟨_, _, rfl, known isKind
        ⟨⟨nofun, nofun, nofun⟩, nofun, nofun, nofun⟩⟩
  | when isKind =>
      exact ⟨_, _, rfl, known isKind
        ⟨⟨nofun, nofun, nofun⟩, nofun, nofun, nofun⟩⟩
  | conditional isKind =>
      exact ⟨_, _, rfl, known isKind
        ⟨⟨nofun, nofun, nofun⟩, nofun, nofun, nofun⟩⟩
  | forLoop isKind =>
      exact ⟨_, _, rfl, known isKind
        ⟨⟨nofun, nofun, nofun⟩, nofun, nofun, nofun⟩⟩

/-- The first token of a declaration or statement. -/
theorem starts
    {value : Stmt}
    {opened : Bool}
    {first next : NodeId}
    {tokens : List Token}
    (derives : Clause.Derives (.declaration value opened) first tokens next) :
    ∃ token rest, tokens = token :: rest ∧ token.kind.StartsClause := by
  have known {token : Token} {kind : Kind} (isKind : token.kind = kind)
      (starts : kind.StartsClause) : token.kind.StartsClause :=
    isKind ▸ starts
  cases derives with
  | plain statement =>
      obtain ⟨token, rest, rfl, starts⟩ := statement.starts_statement
      exact ⟨token, _, rfl, starts.toStartsClause⟩
  | varDecl isKind => exact ⟨_, _, rfl, known isKind ⟨nofun, nofun, nofun⟩⟩
  | funDecl isKind => exact ⟨_, _, rfl, known isKind ⟨nofun, nofun, nofun⟩⟩
  | classDecl isKind => exact ⟨_, _, rfl, known isKind ⟨nofun, nofun, nofun⟩⟩

/-- The first token of a function is its name. -/
theorem starts_function
    {value : FunctionDecl}
    {first next : NodeId}
    {tokens : List Token}
    (derives : Clause.Derives (.function value) first tokens next) :
    ∃ rest, tokens = value.name :: rest ∧ value.name.IsIdentifier := by
  cases derives with
  | function isName => exact ⟨_, rfl, isName⟩

/-- One sequence of statements after another. -/
theorem sequence_append
    {values others : List Stmt}
    {first middle next : NodeId}
    {tokens further : List Token}
    (derives : Clause.Derives (.sequence values) first tokens middle)
    (derivesNext : Clause.Derives (.sequence others) middle further next) :
    Clause.Derives (.sequence (values ++ others)) first (tokens ++ further)
      next := by
  induction values generalizing first tokens with
  | nil =>
      cases derives
      exact derivesNext
  | cons value values inductionHypothesis =>
      cases derives with
      | andThen derivesFirst derivesRest =>
          rw [List.append_assoc]
          exact .andThen derivesFirst (inductionHypothesis derivesRest)

end Clause.Derives

end LoxScript
