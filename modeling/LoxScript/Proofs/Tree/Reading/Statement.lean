import LoxScript.Proofs.Tree.Reading.Expression

namespace LoxScript

/-!
# What is derived is read: statements

The parsers of statements read what a derivation spells, if what follows is not
an `else` that an open statement would take in.  For a whole program this needs
no condition on what follows, and the depth that the parser starts with is
enough.
-/

open Parse Grammar

section Parts

variable {first next : NodeId} {tokens rest : List Token} {depth : Nat}

/-- An expression is read up to a token that ends every expression. -/
theorem Phrase.Derives.reads_until
    {value : Expr}
    {closing : Symbol}
    {finish : Token}
    (derives : Phrase.Derives (.expr 0 value) first tokens next)
    (deep : 2 * (tokens ++ rest).length + 2 ≤ depth)
    (isEnd : closing = .rightParen ∨ closing = .semicolon ∨ closing = .comma)
    (isClosing : (rest.headD finish).kind = .symbol closing) :
    expression depth ⟨tokens ++ rest, finish, first⟩ =
      .ok value ⟨rest, finish, next⟩ := by
  apply derives.reads
  · exact deep
  · exact .ofSymbol isEnd isClosing

/-- An expression that may be missing is read up to the token that closes it. -/
theorem DerivesOptional.reads
    {value : Option Expr}
    {closing : Symbol}
    (derives : DerivesOptional value first tokens next)
    (finish : Token)
    (deep : 2 * (tokens ++ rest).length + 2 ≤ depth)
    (isEnd : closing = .rightParen ∨ closing = .semicolon)
    (isClosing : (rest.headD finish).kind = .symbol closing) :
    ∃ closes,
      seesSymbol closing ⟨tokens ++ rest, finish, first⟩ =
          .ok closes ⟨tokens ++ rest, finish, first⟩ ∧
        (if closes = true then pure none else some <$> expression depth :
          Parse (Option Expr))
            ⟨tokens ++ rest, finish, first⟩ =
          .ok value ⟨rest, finish, next⟩ := by
  cases derives with
  | absent => exact ⟨true, seesSymbol_of_eq isClosing, rfl⟩
  | present derives =>
      have reads := derives.reads_until deep (isEnd.imp_right .inl) isClosing
      refine ⟨false, seesSymbol_of_ne ?_, ?_⟩
      · obtain ⟨token, more, rfl, starts⟩ := derives.starts
        rcases isEnd with rfl | rfl
        · exact starts.ne_rightParen
        · exact starts.ne_semicolon
      · exact map_of_ok some reads

/-- The declaration of a variable is read. -/
theorem DerivesVariable.reads
    {value : Stmt}
    (derives : DerivesVariable value first tokens next)
    (finish : Token)
    (deep : 2 * (tokens ++ rest).length + 2 ≤ depth) :
    variableDeclaration (expression depth) ⟨tokens ++ rest, finish, first⟩ =
      .ok value ⟨rest, finish, next⟩ := by
  cases derives with
  | @bare name semicolon _ isName isSemicolon =>
      have noEqual : acceptSymbol .equal ⟨semicolon :: rest, finish, first⟩ =
          .ok false ⟨semicolon :: rest, finish, first⟩ :=
        acceptSymbol_of_ne (by simp [Cursor.current, isSemicolon])
      change variableDeclaration _
        ⟨name :: semicolon :: rest, finish, first⟩ = _
      unfold variableDeclaration
      rw [bind_of_ok (expectName_of_isIdentifier isName _), bind_of_ok noEqual]
      change (expectSymbol .semicolon .variableEnd >>= _) _ = _
      rw [bind_of_ok (expectSymbol_of_eq isSemicolon _)]
      rfl
  | @initialized name equals value semicolon _ tokens _ isName isEqual derives
    isSemicolon =>
      have reads :
          expression depth ⟨tokens ++ semicolon :: rest, finish, first⟩ =
          .ok value ⟨semicolon :: rest, finish, next⟩ := by
        apply derives.reads_until
        · simp at deep ⊢
          omega
        · exact .inr (.inl rfl)
        · exact isSemicolon
      have readsInitializer :
          (some <$> expression depth)
            ⟨tokens ++ semicolon :: rest, finish, first⟩ =
            .ok (some value) ⟨semicolon :: rest, finish, next⟩ :=
        map_of_ok some reads
      rw [List.append_assoc, List.cons_append, List.cons_append,
        List.singleton_append]
      unfold variableDeclaration
      rw [bind_of_ok (expectName_of_isIdentifier isName _),
        bind_of_ok (acceptSymbol_of_eq isEqual)]
      simp only [if_true]
      rw [bind_of_ok readsInitializer,
        bind_of_ok (expectSymbol_of_eq isSemicolon _)]
      rfl

/-- The first clause of a `for` statement is read. -/
theorem DerivesInitializer.reads
    {value : Option Stmt}
    (derives : DerivesInitializer value first tokens next)
    (finish : Token)
    (deep : 2 * (tokens ++ rest).length + 2 ≤ depth) :
    forInitializer (expression depth) ⟨tokens ++ rest, finish, first⟩ =
      .ok value ⟨rest, finish, next⟩ := by
  cases derives with
  | absent isSemicolon =>
      unfold forInitializer
      rw [List.singleton_append, bind_of_ok (acceptSymbol_of_eq isSemicolon)]
      rfl
  | @declared keyword statement _ tokens _ isVar derives =>
      have noSemicolon :
          acceptSymbol .semicolon ⟨keyword :: (tokens ++ rest), finish, first⟩ =
          .ok false ⟨keyword :: (tokens ++ rest), finish, first⟩ :=
        acceptSymbol_of_ne (by simp [Cursor.current, isVar])
      have reads : variableDeclaration (expression depth)
          ⟨tokens ++ rest, finish, first⟩ =
          .ok statement ⟨rest, finish, next⟩ := by
        apply derives.reads
        simp at deep ⊢
        omega
      unfold forInitializer
      rw [List.cons_append, bind_of_ok noSemicolon]
      simp only [Bool.false_eq_true, if_false]
      rw [bind_of_ok (acceptKeyword_of_eq isVar)]
      simp only [if_true]
      rw [bind_of_ok reads]
      rfl
  | @evaluated value semicolon _ tokens _ derives isSemicolon =>
      obtain ⟨token, more, rfl, starts⟩ := derives.starts
      have noSemicolon :
          acceptSymbol .semicolon ⟨token :: more ++ semicolon :: rest, finish,
            first⟩ =
            .ok false ⟨token :: more ++ semicolon :: rest, finish, first⟩ :=
        acceptSymbol_of_ne starts.ne_semicolon
      have noVar : acceptKeyword .varWord
          ⟨token :: more ++ semicolon :: rest, finish, first⟩ =
          .ok false ⟨token :: more ++ semicolon :: rest, finish, first⟩ :=
        acceptKeyword_of_ne starts.startsStatement.notVariable
      have reads :
          expression depth ⟨token :: more ++ semicolon :: rest, finish, first⟩ =
          .ok value ⟨semicolon :: rest, finish, next⟩ := by
        apply derives.reads_until
        · simp at deep ⊢
          omega
        · exact .inr (.inl rfl)
        · exact isSemicolon
      unfold forInitializer
      rw [List.append_assoc, List.singleton_append, bind_of_ok noSemicolon]
      simp only [Bool.false_eq_true, if_false]
      rw [bind_of_ok noVar]
      simp only [Bool.false_eq_true, if_false]
      have readsStatement : expressionStatement (Grammar.expression depth)
          ⟨token :: more ++ semicolon :: rest, finish, first⟩ =
            .ok (.expression value) ⟨rest, finish, next⟩ := by
        unfold expressionStatement
        rw [bind_of_ok reads, bind_of_ok (expectSymbol_of_eq isSemicolon _)]
        rfl
      rw [bind_of_ok readsStatement]
      rfl

/-- Names with commas between them are read. -/
theorem DerivesNames.reads
    {names : List Token}
    {limit count : Nat}
    {finish : Token}
    (derives : DerivesNames names tokens)
    (enough : (tokens ++ rest).length ≤ limit)
    (few : count + names.length ≤ argumentLimit)
    (isRight : (rest.headD finish).kind = .symbol .rightParen) :
    parameters limit count ⟨tokens ++ rest, finish, first⟩ =
      .ok names ⟨rest, finish, first⟩ := by
  induction derives generalizing limit count with
  | @last name isName =>
      obtain ⟨limit, rfl⟩ : ∃ fewer, limit = fewer + 1 :=
        ⟨limit - 1, by simp at enough; omega⟩
      have allowed : ¬ argumentLimit ≤ count := by simp at few; omega
      have noComma : acceptSymbol .comma ⟨rest, finish, first⟩ =
          .ok false ⟨rest, finish, first⟩ := by
        apply acceptSymbol_of_ne
        change (rest.headD finish).kind ≠ _
        rw [isRight]
        exact nofun
      unfold parameters
      rw [if_neg allowed]
      change (expectName .parameterName >>= _) ⟨name :: rest, finish, first⟩ = _
      rw [bind_of_ok (expectName_of_isIdentifier isName _), bind_of_ok noComma]
      rfl
  | @next name comma names tokens isName isComma _ inductionHypothesis =>
      obtain ⟨limit, rfl⟩ : ∃ fewer, limit = fewer + 1 :=
        ⟨limit - 1, by simp at enough; omega⟩
      have allowed : ¬ argumentLimit ≤ count := by simp at few; omega
      have readsOthers : parameters limit (count + 1)
          ⟨tokens ++ rest, finish, first⟩ =
          .ok names ⟨rest, finish, first⟩ := by
        apply inductionHypothesis
        · simp at enough ⊢
          omega
        · simp at few
          omega
      unfold parameters
      rw [if_neg allowed]
      change (expectName .parameterName >>= _)
        ⟨name :: comma :: (tokens ++ rest), finish, first⟩ = _
      rw [bind_of_ok (expectName_of_isIdentifier isName _),
        bind_of_ok (acceptSymbol_of_eq isComma)]
      simp only [if_true]
      rw [bind_of_ok readsOthers]
      rfl

/-- The parameters of a function are read up to the closing parenthesis. -/
theorem DerivesParameters.reads
    {names : List Token}
    {limit : Nat}
    (first : NodeId)
    (finish : Token)
    (derives : DerivesParameters names tokens)
    (enough : (tokens ++ rest).length ≤ limit)
    (isRight : (rest.headD finish).kind = .symbol .rightParen) :
    ∃ closes,
      seesSymbol .rightParen ⟨tokens ++ rest, finish, first⟩ =
          .ok closes ⟨tokens ++ rest, finish, first⟩ ∧
        (if closes = true then pure [] else parameters limit 0 :
          Parse (List Token))
            ⟨tokens ++ rest, finish, first⟩ =
          .ok names ⟨rest, finish, first⟩ := by
  cases derives with
  | absent => exact ⟨true, seesSymbol_of_eq isRight, rfl⟩
  | present derives few =>
      refine ⟨false, seesSymbol_of_ne ?_, derives.reads enough
        (by omega) isRight⟩
      cases derives with
      | last isName =>
          obtain ⟨text, isIdentifier⟩ := isName
          simp [Cursor.current, isIdentifier]
      | next isName =>
          obtain ⟨text, isIdentifier⟩ := isName
          simp [Cursor.current, isIdentifier]

end Parts

/-- With enough depth, the parser of the clause reads just the tokens, if what
follows neither continues the clause nor is an `else` that the clause would take
in. -/
def Clause.Reads (first : NodeId) (tokens : List Token) (next : NodeId) :
    Clause → Prop
  | .statement value opened =>
      ∀ depth rest finish, 2 * (tokens ++ rest).length + 3 ≤ depth →
        (opened = true → (rest.headD finish).kind ≠ .keyword .elseWord) →
        Grammar.statement depth ⟨tokens ++ rest, finish, first⟩ =
          .ok value ⟨rest, finish, next⟩
  | .declaration value opened =>
      ∀ depth rest finish, 2 * (tokens ++ rest).length + 4 ≤ depth →
        (opened = true → (rest.headD finish).kind ≠ .keyword .elseWord) →
        Grammar.declaration depth ⟨tokens ++ rest, finish, first⟩ =
          .ok value ⟨rest, finish, next⟩
  | .sequence values =>
      ∀ depth limit rest finish stop, 2 * (tokens ++ rest).length + 4 ≤ depth →
        (tokens ++ rest).length < limit →
        (∀ kind, stop kind = true → kind = .symbol .rightBrace) →
        stop (rest.headD finish).kind = true ∨
        (rest.headD finish).kind = .endOfInput →
        statementsUntil stop (Grammar.declaration depth) limit
          ⟨tokens ++ rest, finish, first⟩ = .ok values ⟨rest, finish, next⟩
  | .function value =>
      ∀ depth limit rest finish role, 2 * (tokens ++ rest).length + 4 ≤ depth →
        (tokens ++ rest).length < limit →
        Grammar.function (Grammar.declaration depth) limit role
          ⟨tokens ++ rest, finish, first⟩ = .ok value ⟨rest, finish, next⟩
  | .methods values =>
      ∀ depth size limit rest finish, 2 * (tokens ++ rest).length + 4 ≤ depth →
        (tokens ++ rest).length < size → (tokens ++ rest).length < limit →
        (rest.headD finish).kind = .symbol .rightBrace →
        Grammar.methods
          (Grammar.function (Grammar.declaration depth) size .method) limit
            ⟨tokens ++ rest, finish, first⟩ =
          .ok values ⟨rest, finish, next⟩

namespace Clause.Reads

variable {first middle next : NodeId} {tokens others : List Token}

/-- What starts with an expression is read as an expression statement. -/
theorem statement_of_startsExpr
    {token : Token}
    (starts : token.kind.StartsExpr)
    (depth : Nat)
    (rest : List Token)
    (finish : Token) :
    Grammar.statement (depth + 1) ⟨token :: rest, finish, first⟩ =
      expressionStatement (Grammar.expression depth)
        ⟨token :: rest, finish, first⟩ := by
  have looks : currentKind ⟨token :: rest, finish, first⟩ =
      .ok token.kind ⟨token :: rest, finish, first⟩ := rfl
  unfold Grammar.statement
  rw [bind_of_ok looks]
  generalize token.kind = kind at starts ⊢
  cases kind with
  | symbol sign =>
      cases sign with
      | leftBrace =>
          simp [Kind.StartsExpr, Kind.StartsOperand, literal?] at starts
      | _ => rfl
  | keyword word =>
      cases word with
      | ifWord => simp [Kind.StartsExpr, Kind.StartsOperand, literal?] at starts
      | printWord =>
          simp [Kind.StartsExpr, Kind.StartsOperand, literal?] at starts
      | returnWord =>
          simp [Kind.StartsExpr, Kind.StartsOperand, literal?] at starts
      | requireWord =>
          simp [Kind.StartsExpr, Kind.StartsOperand, literal?] at starts
      | whileWord =>
          simp [Kind.StartsExpr, Kind.StartsOperand, literal?] at starts
      | forWord =>
          simp [Kind.StartsExpr, Kind.StartsOperand, literal?] at starts
      | _ => rfl
  | _ => rfl

/-- What starts with none of the words of declarations is read as a
statement. -/
theorem declaration_of_startsStatement
    {token : Token}
    (starts : token.kind.StartsStatement)
    (depth : Nat)
    (rest : List Token)
    (finish : Token) :
    Grammar.declaration (depth + 1) ⟨token :: rest, finish, first⟩ =
      Grammar.statement depth ⟨token :: rest, finish, first⟩ := by
  have looks : currentKind ⟨token :: rest, finish, first⟩ =
      .ok token.kind ⟨token :: rest, finish, first⟩ := rfl
  unfold Grammar.declaration
  rw [bind_of_ok looks]
  generalize token.kind = kind at starts ⊢
  cases kind with
  | keyword word =>
      cases word with
      | varWord => exact absurd rfl starts.notVariable
      | funWord => exact absurd rfl starts.notFunction
      | classWord => exact absurd rfl starts.notClass
      | _ => rfl
  | _ => rfl

/-- A `print` statement. -/
theorem print
    {keyword semicolon : Token}
    {value : Expr}
    (isPrint : keyword.kind = .keyword .printWord)
    (derives : Phrase.Derives (.expr 0 value) first tokens next)
    (isSemicolon : semicolon.kind = .symbol .semicolon) :
    Clause.Reads first (keyword :: tokens ++ [semicolon]) next
      (.statement (.print value) false) := by
  intro depth rest finish deep _
  obtain ⟨depth, rfl⟩ : ∃ fewer, depth = fewer + 1 :=
    ⟨depth - 1, by simp at deep; omega⟩
  have looks :
      currentKind ⟨keyword :: (tokens ++ semicolon :: rest), finish, first⟩ =
      .ok keyword.kind ⟨keyword :: (tokens ++ semicolon :: rest), finish,
        first⟩ := rfl
  have reads : Grammar.expression depth
      ⟨tokens ++ semicolon :: rest, finish, first⟩ =
      .ok value ⟨semicolon :: rest, finish, next⟩ := by
    apply derives.reads_until
    · simp at deep ⊢
      omega
    · exact .inr (.inl rfl)
    · exact isSemicolon
  rw [List.append_assoc, List.cons_append, List.singleton_append]
  unfold Grammar.statement
  rw [bind_of_ok looks, isPrint]
  change printStatement _ ⟨tokens ++ semicolon :: rest, finish, first⟩ = _
  unfold printStatement
  rw [bind_of_ok reads, bind_of_ok (expectSymbol_of_eq isSemicolon _)]
  rfl

/-- An expression that stands as a statement. -/
theorem expression
    {semicolon : Token}
    {value : Expr}
    (derives : Phrase.Derives (.expr 0 value) first tokens next)
    (isSemicolon : semicolon.kind = .symbol .semicolon) :
    Clause.Reads first (tokens ++ [semicolon])
      next (.statement (.expression value) false) := by
  intro depth rest finish deep _
  obtain ⟨depth, rfl⟩ : ∃ fewer, depth = fewer + 1 :=
    ⟨depth - 1, by simp at deep; omega⟩
  have reads : Grammar.expression depth
      ⟨tokens ++ semicolon :: rest, finish, first⟩ =
      .ok value ⟨semicolon :: rest, finish, next⟩ := by
    apply derives.reads_until
    · simp at deep ⊢
      omega
    · exact .inr (.inl rfl)
    · exact isSemicolon
  obtain ⟨token, more, rfl, starts⟩ := derives.starts
  rw [List.append_assoc, List.singleton_append, List.cons_append,
    statement_of_startsExpr starts]
  unfold expressionStatement
  rw [List.cons_append] at reads
  rw [bind_of_ok reads, bind_of_ok (expectSymbol_of_eq isSemicolon _)]
  rfl

/-- A `return` statement. -/
theorem ret
    {keyword semicolon : Token}
    {value : Option Expr}
    (isReturn : keyword.kind = .keyword .returnWord)
    (derives : DerivesOptional value first tokens next)
    (isSemicolon : semicolon.kind = .symbol .semicolon) :
    Clause.Reads first (keyword :: tokens ++ [semicolon]) next
      (.statement (.ret keyword value) false) := by
  intro depth rest finish deep _
  obtain ⟨depth, rfl⟩ : ∃ fewer, depth = fewer + 1 :=
    ⟨depth - 1, by simp at deep; omega⟩
  have looks :
      currentKind ⟨keyword :: (tokens ++ semicolon :: rest), finish, first⟩ =
      .ok keyword.kind ⟨keyword :: (tokens ++ semicolon :: rest), finish,
        first⟩ := rfl
  have deepEnough : 2 * (tokens ++ semicolon :: rest).length + 2 ≤ depth := by
    simp at deep ⊢
    omega
  obtain ⟨closes, sees, reads⟩ :=
    derives.reads finish deepEnough (.inr rfl) isSemicolon
  rw [List.append_assoc, List.cons_append, List.singleton_append]
  unfold Grammar.statement
  rw [bind_of_ok looks, isReturn]
  change returnStatement _ keyword
    ⟨tokens ++ semicolon :: rest, finish, first⟩ = _
  unfold returnStatement
  rw [bind_of_ok sees, choice_of_ok reads]
  dsimp only
  rw [bind_of_ok (expectSymbol_of_eq isSemicolon _)]
  rfl

/-- A `require` statement. -/
theorem require
    {keyword named semicolon : Token}
    {path : String}
    (isRequire : keyword.kind = .keyword .requireWord)
    (isString : named.kind = .string path)
    (isSemicolon : semicolon.kind = .symbol .semicolon) :
    Clause.Reads first [keyword, named, semicolon] first
      (.statement (.require keyword path) false) := by
  intro depth rest finish deep _
  obtain ⟨depth, rfl⟩ : ∃ fewer, depth = fewer + 1 :=
    ⟨depth - 1, by simp at deep; omega⟩
  have looks :
      currentKind ⟨[keyword, named, semicolon] ++ rest, finish, first⟩ =
      .ok keyword.kind ⟨[keyword, named, semicolon] ++ rest, finish, first⟩ :=
        rfl
  have looksNext : currentKind ⟨named :: semicolon :: rest, finish, first⟩ =
      .ok named.kind ⟨named :: semicolon :: rest, finish, first⟩ := rfl
  unfold Grammar.statement
  rw [bind_of_ok looks, isRequire]
  change requireStatement keyword
    ⟨named :: semicolon :: rest, finish, first⟩ = _
  unfold requireStatement
  rw [bind_of_ok looksNext, isString]
  change (expectSymbol .semicolon .requireEnd >>= _)
    ⟨semicolon :: rest, finish, first⟩ = _
  rw [bind_of_ok (expectSymbol_of_eq isSemicolon _)]
  rfl

/-- The statements of a block are read with the brace that closes it. -/
theorem blockBody
    {right : Token}
    {body : List Stmt}
    (reads : Clause.Reads first tokens next (.sequence body))
    (isRight : right.kind = .symbol .rightBrace)
    {depth limit : Nat}
    {rest : List Token}
    (finish : Token)
    (deep : 2 * (tokens ++ right :: rest).length + 4 ≤ depth)
    (enough : (tokens ++ right :: rest).length < limit) :
    Grammar.blockBody (Grammar.declaration depth) limit
      ⟨tokens ++ right :: rest, finish, first⟩ =
      .ok body ⟨rest, finish, next⟩ := by
  have readsBody : statementsUntil closesBlock (Grammar.declaration depth) limit
      ⟨tokens ++ right :: rest, finish, first⟩ = .ok body
      ⟨right :: rest, finish, next⟩ := by
    apply reads
    · exact deep
    · exact enough
    · intro kind closes
      unfold closesBlock at closes
      split at closes
      · rfl
      · cases closes
    · left
      change closesBlock right.kind = true
      rw [isRight]
      rfl
  unfold Grammar.blockBody
  rw [bind_of_ok readsBody, bind_of_ok (expectSymbol_of_eq isRight _)]
  rfl

/-- A block. -/
theorem block
    {left right : Token}
    {body : List Stmt}
    (isLeft : left.kind = .symbol .leftBrace)
    (reads : Clause.Reads first tokens next (.sequence body))
    (isRight : right.kind = .symbol .rightBrace) :
    Clause.Reads first (left :: tokens ++ [right])
      next (.statement (.block body) false) := by
  intro depth rest finish deep _
  obtain ⟨depth, rfl⟩ : ∃ fewer, depth = fewer + 1 :=
    ⟨depth - 1, by simp at deep; omega⟩
  have looks : currentKind ⟨left :: (tokens ++ right :: rest), finish, first⟩ =
      .ok left.kind ⟨left :: (tokens ++ right :: rest), finish, first⟩ := rfl
  have takes : advance ⟨left :: (tokens ++ right :: rest), finish, first⟩ =
      .ok left ⟨tokens ++ right :: rest, finish, first⟩ := rfl
  have readsBody : Grammar.blockBody (Grammar.declaration depth) depth
      ⟨tokens ++ right :: rest, finish, first⟩ = .ok body
      ⟨rest, finish, next⟩ := by
    apply blockBody reads isRight
    · simp at deep ⊢
      omega
    · simp at deep ⊢
      omega
  rw [List.append_assoc, List.cons_append, List.singleton_append]
  unfold Grammar.statement
  rw [bind_of_ok looks, isLeft]
  change (advance >>= _) _ = _
  rw [bind_of_ok takes, bind_of_ok readsBody]
  rfl

/-- A `while` statement. -/
theorem loop
    {keyword left right : Token}
    {condition : Expr}
    {body : Stmt}
    {opened : Bool}
    (isWhile : keyword.kind = .keyword .whileWord)
    (isLeft : left.kind = .symbol .leftParen)
    (derives : Phrase.Derives (.expr 0 condition) first tokens middle)
    (isRight : right.kind = .symbol .rightParen)
    (readsNext : Clause.Reads middle others next (.statement body opened)) :
    Clause.Reads first (keyword :: left :: tokens ++ right :: others) next
      (.statement (.loop condition body) opened) := by
  intro depth rest finish deep closed
  obtain ⟨depth, rfl⟩ : ∃ fewer, depth = fewer + 1 :=
    ⟨depth - 1, by simp at deep; omega⟩
  have looks :
      currentKind ⟨keyword :: left :: (tokens ++ right :: (others ++ rest)),
        finish, first⟩ = .ok keyword.kind
          ⟨keyword :: left :: (tokens ++ right :: (others ++ rest)), finish,
            first⟩ := rfl
  have readsCondition :
      Grammar.expression depth ⟨tokens ++ right :: (others ++ rest), finish,
        first⟩ = .ok condition ⟨right :: (others ++ rest), finish, middle⟩ := by
    apply derives.reads_until
    · simp at deep ⊢
      omega
    · exact .inl rfl
    · exact isRight
  have readsBody : Grammar.statement depth ⟨others ++ rest, finish, middle⟩ =
      .ok body ⟨rest, finish, next⟩ := by
    apply readsNext
    · simp at deep ⊢
      omega
    · exact closed
  rw [List.append_assoc, List.cons_append, List.cons_append, List.cons_append]
  unfold Grammar.statement
  rw [bind_of_ok looks, isWhile]
  change whileStatement _ _ ⟨left :: (tokens ++ right :: (others ++ rest)),
    finish, first⟩ = _
  unfold whileStatement
  rw [bind_of_ok (expectSymbol_of_eq isLeft _), bind_of_ok readsCondition,
    bind_of_ok (expectSymbol_of_eq isRight _), bind_of_ok readsBody]
  rfl

/-- An `if` statement: its condition and first branch, and what may follow
them. -/
theorem conditional
    {keyword left right : Token}
    {condition : Expr}
    {thenBranch : Stmt}
    {elseBranch : Option Stmt}
    {opened : Bool}
    {further : NodeId}
    {rest after : List Token}
    {finish : Token}
    {depth : Nat}
    (isIf : keyword.kind = .keyword .ifWord)
    (isLeft : left.kind = .symbol .leftParen)
    (derives : Phrase.Derives (.expr 0 condition) first tokens middle)
    (isRight : right.kind = .symbol .rightParen)
    (readsNext :
      Clause.Reads middle others further (.statement thenBranch opened))
    (deep : 2 * (keyword :: left :: tokens ++ right ::
      (others ++ rest)).length + 3 ≤ depth + 1)
    (closed : opened = true → (rest.headD finish).kind ≠ .keyword .elseWord)
    (readsElse :
      ∃ isElse middle,
        acceptKeyword .elseWord ⟨rest, finish, further⟩ = .ok isElse middle ∧
        (if isElse = true then some <$> Grammar.statement depth else pure none :
            Parse (Option Stmt)) middle =
          .ok elseBranch ⟨after, finish, next⟩) :
    Grammar.statement (depth + 1)
        ⟨keyword :: left :: tokens ++ right :: (others ++ rest), finish,
          first⟩ =
      .ok (.conditional condition thenBranch elseBranch)
        ⟨after, finish, next⟩ := by
  have looks :
      currentKind ⟨keyword :: left :: tokens ++ right :: (others ++ rest),
        finish, first⟩ = .ok keyword.kind
          ⟨keyword :: left :: tokens ++ right :: (others ++ rest), finish,
            first⟩ := rfl
  have readsCondition :
      Grammar.expression depth ⟨tokens ++ right :: (others ++ rest), finish,
        first⟩ = .ok condition ⟨right :: (others ++ rest), finish, middle⟩ := by
    apply derives.reads_until
    · simp at deep ⊢
      omega
    · exact .inl rfl
    · exact isRight
  have readsThen : Grammar.statement depth ⟨others ++ rest, finish, middle⟩ =
      .ok thenBranch ⟨rest, finish, further⟩ := by
    apply readsNext
    · simp at deep ⊢
      omega
    · exact closed
  obtain ⟨isElse, branching, accepts, reads⟩ := readsElse
  unfold Grammar.statement
  rw [bind_of_ok looks, isIf]
  change ifStatement _ _ ⟨left :: (tokens ++ right :: (others ++ rest)), finish,
    first⟩ = _
  unfold ifStatement
  rw [bind_of_ok (expectSymbol_of_eq isLeft _), bind_of_ok readsCondition,
    bind_of_ok (expectSymbol_of_eq isRight _), bind_of_ok readsThen,
    bind_of_ok accepts, choice_of_ok reads]
  rfl

/-- A `for` statement. -/
theorem forLoop
    {keyword left semicolon right : Token}
    {initializer : Option Stmt}
    {condition increment : Option Expr}
    {body : Stmt}
    {opened : Bool}
    {second third fourth : NodeId}
    {more last : List Token}
    (isFor : keyword.kind = .keyword .forWord)
    (isLeft : left.kind = .symbol .leftParen)
    (derivesInitializer : DerivesInitializer initializer first tokens second)
    (derivesCondition : DerivesOptional condition second others third)
    (isSemicolon : semicolon.kind = .symbol .semicolon)
    (derivesIncrement : DerivesOptional increment third more fourth)
    (isRight : right.kind = .symbol .rightParen)
    (readsNext : Clause.Reads fourth last next (.statement body opened)) :
    Clause.Reads first
      (keyword :: left :: tokens ++ others ++ semicolon :: more ++
        right :: last) next
      (.statement (.forLoop initializer condition increment body) opened) := by
  intro depth rest finish deep closed
  obtain ⟨depth, rfl⟩ : ∃ fewer, depth = fewer + 1 :=
    ⟨depth - 1, by simp at deep; omega⟩
  have whole : keyword :: left :: tokens ++ others ++ semicolon :: more ++
      right :: last ++ rest =
      keyword :: left ::
        (tokens ++ (others ++ semicolon ::
          (more ++ right :: (last ++ rest)))) := by
    simp
  rw [whole] at deep ⊢
  have looks : currentKind ⟨keyword :: left ::
      (tokens ++ (others ++ semicolon :: (more ++ right :: (last ++ rest)))),
        finish, first⟩ = .ok keyword.kind ⟨keyword :: left ::
          (tokens ++ (others ++ semicolon ::
            (more ++ right :: (last ++ rest)))), finish, first⟩ :=
    rfl
  have readsInitializer : forInitializer (Grammar.expression depth)
      ⟨tokens ++ (others ++ semicolon :: (more ++ right :: (last ++ rest))),
        finish, first⟩ = .ok initializer
          ⟨others ++ semicolon :: (more ++ right :: (last ++ rest)), finish,
            second⟩ := by
    apply derivesInitializer.reads
    simp at deep ⊢
    omega
  have deepCondition :
      2 * (others ++ semicolon :: (more ++ right :: (last ++ rest))).length +
        2 ≤ depth := by
    simp at deep ⊢
    omega
  obtain ⟨closesCondition, seesCondition, readsCondition⟩ :=
    derivesCondition.reads finish deepCondition (.inr rfl) isSemicolon
  have deepIncrement : 2 * (more ++ right :: (last ++ rest)).length +
      2 ≤ depth := by
    simp at deep ⊢
    omega
  obtain ⟨closesIncrement, seesIncrement, readsIncrement⟩ :=
    derivesIncrement.reads finish deepIncrement (.inl rfl) isRight
  have readsBody : Grammar.statement depth ⟨last ++ rest, finish, fourth⟩ =
      .ok body ⟨rest, finish, next⟩ := by
    apply readsNext
    · simp at deep ⊢
      omega
    · exact closed
  unfold Grammar.statement
  rw [bind_of_ok looks, isFor]
  change forStatement _ _ ⟨left :: _, finish, first⟩ = _
  unfold forStatement
  rw [bind_of_ok (expectSymbol_of_eq isLeft _), bind_of_ok readsInitializer,
    bind_of_ok seesCondition, choice_of_ok readsCondition]
  dsimp only
  rw [bind_of_ok (expectSymbol_of_eq isSemicolon _), bind_of_ok seesIncrement,
    choice_of_ok readsIncrement]
  rw [bind_of_ok (expectSymbol_of_eq isRight _), bind_of_ok readsBody]
  rfl

/-- A statement stands for a declaration. -/
theorem plain
    {value : Stmt}
    {opened : Bool}
    (derives : Clause.Derives (.statement value opened) first tokens next)
    (reads : Clause.Reads first tokens next (.statement value opened)) :
    Clause.Reads first tokens next (.declaration value opened) := by
  intro depth rest finish deep closed
  obtain ⟨depth, rfl⟩ : ∃ fewer, depth = fewer + 1 :=
    ⟨depth - 1, by simp at deep; omega⟩
  have readsStatement := reads depth rest finish (by omega) closed
  obtain ⟨token, more, rfl, starts⟩ := derives.starts_statement
  rw [List.cons_append, declaration_of_startsStatement starts]
  exact readsStatement

/-- A variable declaration. -/
theorem varDecl
    {keyword : Token}
    {value : Stmt}
    (isVar : keyword.kind = .keyword .varWord)
    (derives : DerivesVariable value first tokens next) :
    Clause.Reads first (keyword :: tokens) next (.declaration value false) := by
  intro depth rest finish deep _
  obtain ⟨depth, rfl⟩ : ∃ fewer, depth = fewer + 1 :=
    ⟨depth - 1, by simp at deep; omega⟩
  have looks : currentKind ⟨keyword :: tokens ++ rest, finish, first⟩ =
      .ok keyword.kind ⟨keyword :: tokens ++ rest, finish, first⟩ := rfl
  unfold Grammar.declaration
  rw [bind_of_ok looks, isVar]
  change variableDeclaration _ ⟨tokens ++ rest, finish, first⟩ = _
  apply derives.reads
  simp at deep ⊢
  omega

/-- A function declaration. -/
theorem funDecl
    {keyword : Token}
    {declaration : FunctionDecl}
    (isFun : keyword.kind = .keyword .funWord)
    (reads : Clause.Reads first tokens next (.function declaration)) :
    Clause.Reads first (keyword :: tokens) next
      (.declaration (.funDecl declaration) false) := by
  intro depth rest finish deep _
  obtain ⟨depth, rfl⟩ : ∃ fewer, depth = fewer + 1 :=
    ⟨depth - 1, by simp at deep; omega⟩
  have looks : currentKind ⟨keyword :: tokens ++ rest, finish, first⟩ =
      .ok keyword.kind ⟨keyword :: tokens ++ rest, finish, first⟩ := rfl
  have takes : advance ⟨keyword :: tokens ++ rest, finish, first⟩ =
      .ok keyword ⟨tokens ++ rest, finish, first⟩ := rfl
  have readsFunction : Grammar.function (Grammar.declaration depth)
      depth .function
      ⟨tokens ++ rest, finish, first⟩ = .ok declaration
      ⟨rest, finish, next⟩ := by
    apply reads
    · simp at deep ⊢
      omega
    · simp at deep ⊢
      omega
  unfold Grammar.declaration
  rw [bind_of_ok looks, isFun]
  change (advance >>= _) _ = _
  rw [bind_of_ok takes, bind_of_ok readsFunction]
  rfl

/-- A class declaration. -/
theorem classDecl
    {keyword name left right : Token}
    {superclass : Option SuperclassRef}
    {methods : List FunctionDecl}
    (isClass : keyword.kind = .keyword .classWord)
    (isName : name.IsIdentifier)
    (derives : DerivesSuperclass superclass first tokens middle)
    (isLeft : left.kind = .symbol .leftBrace)
    (readsNext : Clause.Reads middle others next (.methods methods))
    (isRight : right.kind = .symbol .rightBrace) :
    Clause.Reads first (keyword :: name :: tokens ++ left :: others ++ [right])
      next (.declaration (.classDecl name superclass methods) false) := by
  intro depth rest finish deep _
  obtain ⟨depth, rfl⟩ : ∃ fewer, depth = fewer + 1 :=
    ⟨depth - 1, by simp at deep; omega⟩
  have whole : keyword :: name :: tokens ++ left :: others ++ [right] ++ rest =
      keyword :: name :: (tokens ++ left :: (others ++ right :: rest)) := by
    simp
  rw [whole] at deep ⊢
  have looks : currentKind
      ⟨keyword :: name :: (tokens ++ left :: (others ++ right :: rest)), finish,
        first⟩ = .ok keyword.kind
          ⟨keyword :: name :: (tokens ++ left :: (others ++ right :: rest)),
            finish, first⟩ :=
    rfl
  have readsMethods : Grammar.methods
      (Grammar.function (Grammar.declaration depth) depth .method) depth
      ⟨others ++ right :: rest, finish, middle⟩ = .ok methods
      ⟨right :: rest, finish, next⟩ := by
    apply readsNext
    · simp at deep ⊢
      omega
    · simp at deep ⊢
      omega
    · simp at deep ⊢
      omega
    · exact isRight
  unfold Grammar.declaration
  rw [bind_of_ok looks, isClass]
  change classDeclaration _ _ ⟨name :: _, finish, first⟩ = _
  unfold classDeclaration
  rw [bind_of_ok (expectName_of_isIdentifier isName _)]
  cases derives with
  | absent =>
      have noLess : acceptSymbol .less
          ⟨left :: (others ++ right :: rest), finish, first⟩ =
          .ok false ⟨left :: (others ++ right :: rest), finish, first⟩ :=
        acceptSymbol_of_ne (by simp [Cursor.current, isLeft])
      change (acceptSymbol .less >>= _)
        ⟨left :: (others ++ right :: rest), finish, first⟩ = _
      rw [bind_of_ok noLess]
      change (expectSymbol .leftBrace .classOpening >>= _) _ = _
      rw [bind_of_ok (expectSymbol_of_eq isLeft _), bind_of_ok readsMethods,
        bind_of_ok (expectSymbol_of_eq isRight _)]
      rfl
  | @present less parent _ isLess isParent =>
      change (acceptSymbol .less >>= _)
        ⟨less :: parent :: left :: (others ++ right :: rest), finish, first⟩ = _
      rw [bind_of_ok (acceptSymbol_of_eq isLess)]
      simp only [if_true]
      rw [bind_of_ok (expectName_of_isIdentifier isParent _)]
      change (expectSymbol .leftBrace .classOpening >>= _) _ = _
      rw [bind_of_ok (expectSymbol_of_eq isLeft _), bind_of_ok readsMethods,
        bind_of_ok (expectSymbol_of_eq isRight _)]
      rfl

/-- A function or method. -/
theorem function
    {name left right opening closing : Token}
    {params : List Token}
    {body : List Stmt}
    (isName : name.IsIdentifier)
    (isLeft : left.kind = .symbol .leftParen)
    (derives : DerivesParameters params tokens)
    (isRight : right.kind = .symbol .rightParen)
    (isOpening : opening.kind = .symbol .leftBrace)
    (reads : Clause.Reads first others next (.sequence body))
    (isClosing : closing.kind = .symbol .rightBrace) :
    Clause.Reads first
      (name :: left :: tokens ++ right :: opening :: others ++ [closing]) next
      (.function ⟨name, params, body⟩) := by
  intro depth limit rest finish role deep enough
  have whole : name :: left :: tokens ++ right :: opening :: others ++
      [closing] ++ rest =
      name :: left ::
        (tokens ++ right :: opening :: (others ++ closing :: rest)) := by
    simp
  rw [whole] at deep enough ⊢
  have room : (tokens ++ right :: opening ::
      (others ++ closing :: rest)).length ≤ limit := by
    simp at enough ⊢
    omega
  obtain ⟨closes, sees, readsParameters⟩ :=
    derives.reads first finish room isRight
  have readsBody : Grammar.blockBody (Grammar.declaration depth) limit
      ⟨others ++ closing :: rest, finish, first⟩ = .ok body
      ⟨rest, finish, next⟩ := by
    apply blockBody reads isClosing
    · simp at deep ⊢
      omega
    · simp at enough ⊢
      omega
  unfold Grammar.function
  rw [bind_of_ok (expectName_of_isIdentifier isName _),
    bind_of_ok (expectSymbol_of_eq isLeft _),
    bind_of_ok sees, choice_of_ok readsParameters]
  dsimp only
  rw [bind_of_ok (expectSymbol_of_eq isRight _),
    bind_of_ok (expectSymbol_of_eq isOpening _), bind_of_ok readsBody]
  rfl

/-- Methods one after another. -/
theorem method
    {value : FunctionDecl}
    {values : List FunctionDecl}
    (derives : Clause.Derives (.function value) first tokens middle)
    (reads : Clause.Reads first tokens middle (.function value))
    (readsNext : Clause.Reads middle others next (.methods values)) :
    Clause.Reads first (tokens ++ others)
      next (.methods (value :: values)) := by
  intro depth size limit rest finish deep roomy enough isRight
  obtain ⟨more, rfl, ⟨text, isIdentifier⟩⟩ := derives.starts_function
  obtain ⟨limit, rfl⟩ : ∃ fewer, limit = fewer + 1 :=
    ⟨limit - 1, by simp at enough; omega⟩
  have looks :
      currentKind ⟨value.name :: more ++ (others ++ rest), finish, first⟩ =
      .ok value.name.kind ⟨value.name :: more ++ (others ++ rest), finish,
        first⟩ := rfl
  have readsFirst : Grammar.function (Grammar.declaration depth) size .method
      ⟨value.name :: more ++ (others ++ rest), finish, first⟩ =
        .ok value ⟨others ++ rest, finish, middle⟩ := by
    apply reads
    · simp at deep ⊢
      omega
    · simp at roomy ⊢
      omega
  have readsOthers : Grammar.methods
      (Grammar.function (Grammar.declaration depth) size .method) limit
      ⟨others ++ rest, finish, middle⟩ = .ok values ⟨rest, finish, next⟩ := by
    apply readsNext
    · simp at deep ⊢
      omega
    · simp at roomy ⊢
      omega
    · simp at enough ⊢
      omega
    · exact isRight
  rw [List.append_assoc]
  unfold Grammar.methods
  rw [bind_of_ok looks, isIdentifier]
  change (Grammar.function _ _ _ >>= _) _ = _
  rw [bind_of_ok readsFirst, bind_of_ok readsOthers]
  rfl

/-- A class without methods, or the end of its methods. -/
theorem noMethods :
    Clause.Reads first [] first (.methods []) := by
  intro depth size limit rest finish _ _ enough isRight
  obtain ⟨limit, rfl⟩ :=
    Nat.exists_eq_succ_of_ne_zero (Nat.ne_zero_of_lt enough)
  have looks : currentKind ⟨rest, finish, first⟩ =
      .ok (rest.headD finish).kind ⟨rest, finish, first⟩ := rfl
  change Grammar.methods _ (limit + 1) ⟨rest, finish, first⟩ = _
  unfold Grammar.methods
  rw [bind_of_ok looks, isRight]
  rfl

/-- The end of the statements. -/
theorem noStatements :
    Clause.Reads first [] first (.sequence []) := by
  intro depth limit rest finish stop _ enough _ stops
  obtain ⟨limit, rfl⟩ :=
    Nat.exists_eq_succ_of_ne_zero (Nat.ne_zero_of_lt enough)
  have looks : currentKind ⟨rest, finish, first⟩ =
      .ok (rest.headD finish).kind ⟨rest, finish, first⟩ := rfl
  change statementsUntil _ _ (limit + 1) ⟨rest, finish, first⟩ = _
  unfold statementsUntil
  rw [bind_of_ok looks]
  rcases stops with stops | isEnd
  · rw [stops]
    rfl
  · rw [isEnd, Bool.or_true]
    rfl

/-- A statement and those that follow it. -/
theorem andThen
    {value : Stmt}
    {opened : Bool}
    {values : List Stmt}
    (derives : Clause.Derives (.declaration value opened) first tokens middle)
    (reads : Clause.Reads first tokens middle (.declaration value opened))
    (derivesNext : Clause.Derives (.sequence values) middle others next)
    (readsNext : Clause.Reads middle others next (.sequence values)) :
    Clause.Reads first (tokens ++ others)
      next (.sequence (value :: values)) := by
  intro depth limit rest finish stop deep enough onlyBrace stops
  obtain ⟨token, more, rfl, starts⟩ := derives.starts
  obtain ⟨limit, rfl⟩ : ∃ fewer, limit = fewer + 1 :=
    ⟨limit - 1, by simp at enough; omega⟩
  have looks : currentKind ⟨token :: more ++ (others ++ rest), finish, first⟩ =
      .ok token.kind ⟨token :: more ++ (others ++ rest), finish, first⟩ := rfl
  -- What follows the first statement is the next one or the end, and neither is
  -- an `else`.
  have notElse : ((others ++ rest).headD finish).kind ≠ .keyword .elseWord := by
    cases derivesNext with
    | noStatements =>
        intro isElse
        rcases stops with stops | isEnd
        · cases isElse.symm.trans (onlyBrace _ stops)
        · cases isElse.symm.trans isEnd
    | andThen derivesSecond =>
        obtain ⟨second, further, rfl, startsSecond⟩ := derivesSecond.starts
        exact startsSecond.notElse
  have readsFirst : Grammar.declaration depth
      ⟨token :: more ++ (others ++ rest), finish, first⟩ =
      .ok value ⟨others ++ rest, finish, middle⟩ := by
    apply reads
    · simp at deep ⊢
      omega
    · intro _
      exact notElse
  have readsOthers : statementsUntil stop (Grammar.declaration depth) limit
      ⟨others ++ rest, finish, middle⟩ = .ok values ⟨rest, finish, next⟩ := by
    apply readsNext
    · simp at deep ⊢
      omega
    · simp at enough ⊢
      omega
    · exact onlyBrace
    · exact stops
  have notStop : stop token.kind = false :=
    Bool.eq_false_iff.mpr fun stops => starts.notClosing (onlyBrace _ stops)
  rw [List.append_assoc]
  unfold statementsUntil
  rw [bind_of_ok looks, notStop, Bool.false_or, if_neg]
  · rw [bind_of_ok readsFirst, bind_of_ok readsOthers]
    rfl
  · split
    · next isEnd => exact absurd isEnd starts.notEnd
    · exact Bool.false_ne_true

end Clause.Reads

/-- The parsers of statements read what is derived. -/
theorem Clause.Derives.reads
    {clause : Clause}
    {first next : NodeId}
    {tokens : List Token}
    (derives : clause.Derives first tokens next) :
    clause.Reads first tokens next := by
  induction derives with
  | print isPrint derives isSemicolon =>
      exact .print isPrint derives isSemicolon
  | expression derives isSemicolon => exact .expression derives isSemicolon
  | ret isReturn derives isSemicolon => exact .ret isReturn derives isSemicolon
  | require isRequire isString isSemicolon =>
      exact .require isRequire isString isSemicolon
  | block isLeft _ isRight reads => exact .block isLeft reads isRight
  | loop isWhile isLeft derives isRight _ readsNext =>
      exact .loop isWhile isLeft derives isRight readsNext
  | @«when» _ _ _ _ _ _ _ _ _ _ next isIf isLeft derives isRight _ readsNext =>
      intro depth rest finish deep closed
      obtain ⟨depth, rfl⟩ : ∃ fewer, depth = fewer + 1 :=
        ⟨depth - 1, by simp at deep; omega⟩
      have notElse := closed rfl
      rw [List.append_assoc, List.cons_append] at deep ⊢
      exact Clause.Reads.conditional isIf isLeft derives isRight readsNext deep
        (fun _ => notElse) ⟨false, _, acceptKeyword_of_ne notElse, rfl⟩
  | conditional isIf isLeft derives isRight _ isElse _ readsNext readsLast =>
      intro depth rest finish deep closed
      obtain ⟨depth, rfl⟩ : ∃ fewer, depth = fewer + 1 :=
        ⟨depth - 1, by simp at deep; omega⟩
      have readsElse :=
        readsLast depth rest finish (by simp at deep ⊢; omega) closed
      rw [List.append_assoc, List.append_assoc, List.cons_append,
        List.cons_append] at deep ⊢
      refine Clause.Reads.conditional isIf isLeft derives isRight
        readsNext deep nofun ⟨true, _, acceptKeyword_of_eq isElse, ?_⟩
      exact map_of_ok some readsElse
  | forLoop isFor isLeft derivesInitializer derivesCondition isSemicolon
    derivesIncrement isRight _
      readsNext =>
      exact .forLoop isFor isLeft derivesInitializer derivesCondition
        isSemicolon derivesIncrement isRight readsNext
  | plain derives reads => exact .plain derives reads
  | varDecl isVar derives => exact .varDecl isVar derives
  | funDecl isFun _ reads => exact .funDecl isFun reads
  | classDecl isClass isName derives isLeft _ isRight readsNext =>
      exact .classDecl isClass isName derives isLeft readsNext isRight
  | noStatements => exact .noStatements
  | andThen derives derivesNext reads readsNext =>
      exact .andThen derives reads derivesNext readsNext
  | function isName isLeft derives isRight isOpening _ isClosing reads =>
      exact .function isName isLeft derives isRight isOpening reads isClosing
  | noMethods => exact .noMethods
  | method derives _ reads readsNext => exact .method derives reads readsNext

end LoxScript
