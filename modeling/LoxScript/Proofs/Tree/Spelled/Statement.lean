import LoxScript.Proofs.Tree.Spelled.Expression

namespace LoxScript

/-!
# What is read is derived: statements

The parsers of statements take in tokens that spell what they yield, and never
leave an `else` behind an `if` that could have taken it in.  At the end of a
program nothing is left.
-/

open Parse Grammar

/-- Before the end of input `finish`, the parser takes in just tokens that spell
the statement it yields; no `else` follows a statement that is open. -/
def Parse.SpellsClause
    (finish : Token)
    (parser : Parse Stmt)
    (clause : Stmt → Bool → Clause) : Prop :=
  ∀ pending first value after,
    parser ⟨pending, finish, first⟩ = .ok value after →
    ∃ opened tokens rest next,
      pending = tokens ++ rest ∧ after = ⟨rest, finish, next⟩ ∧
        (clause value opened).Derives first tokens next ∧
        (opened = true → (rest.headD finish).kind ≠ .keyword .elseWord)

namespace Grammar

variable {finish : Token}
variable {expression : Parse Expr} {statement declaration : Parse Stmt}

/-- An expression that may be missing. -/
theorem spells_optional
    (sound : Spells finish expression fun value =>
      Phrase.Derives (.expr 0 value))
    (closes : Bool) :
    Spells finish
      (if closes = true then pure none else some <$> expression :
        Parse (Option Expr))
      DerivesOptional := by
  intro pending first value after run
  cases closes with
  | true =>
      cases run
      exact ⟨[], pending, first, rfl, rfl, .absent⟩
  | false =>
      obtain ⟨value, readsValue, rfl⟩ := map_eq_ok_iff.mp run
      obtain ⟨tokens, rest, next, rfl, rfl, derives⟩ := sound _ _ _ _ readsValue
      exact ⟨tokens, rest, next, rfl, rfl, .present derives⟩

/-- A variable after the word `var`. -/
theorem spells_variableDeclaration
    (sound : Spells finish expression fun value =>
      Phrase.Derives (.expr 0 value))
    (isEnd : finish.kind = .endOfInput) :
    Spells finish (variableDeclaration expression) DerivesVariable := by
  intro pending first value after run
  obtain ⟨name, _, expectsName, run⟩ := bind_eq_ok_iff.mp run
  obtain ⟨rest, rfl, rfl, isName⟩ := expectName_cases isEnd expectsName
  obtain ⟨accepted, _, accepts, run⟩ := bind_eq_ok_iff.mp run
  rcases acceptSymbol_cases isEnd accepts with
    ⟨rfl, equals, rest, rfl, rfl, isEqual⟩ | ⟨rfl, rfl, _⟩
  · obtain ⟨initializer, _, readsInitializer, run⟩ := choice_eq_ok_iff.mp run
    obtain ⟨value, readsValue, rfl⟩ := map_eq_ok_iff.mp readsInitializer
    obtain ⟨tokens, rest, next, rfl, rfl, derives⟩ := sound _ _ _ _ readsValue
    obtain ⟨semicolon, _, expects, run⟩ := bind_eq_ok_iff.mp run
    obtain ⟨rest, rfl, rfl, isSemicolon⟩ := expectSymbol_cases isEnd expects
    cases run
    exact ⟨name :: equals :: tokens ++ [semicolon], rest, next, by simp, rfl,
      .initialized isName isEqual derives isSemicolon⟩
  · obtain ⟨initializer, _, readsInitializer, run⟩ := choice_eq_ok_iff.mp run
    cases readsInitializer
    obtain ⟨semicolon, _, expects, run⟩ := bind_eq_ok_iff.mp run
    obtain ⟨rest, rfl, rfl, isSemicolon⟩ := expectSymbol_cases isEnd expects
    cases run
    exact ⟨[name, semicolon], rest, first, rfl, rfl, .bare isName isSemicolon⟩

/-- An expression that stands as a statement. -/
theorem spells_expressionStatement
    (sound : Spells finish expression fun value =>
      Phrase.Derives (.expr 0 value))
    (isEnd : finish.kind = .endOfInput) :
    Spells finish (expressionStatement expression)
      fun result first tokens next =>
        ∃ value semicolon more, result = .expression value ∧
          tokens = more ++ [semicolon] ∧
          Phrase.Derives (.expr 0 value) first more next ∧
          semicolon.kind = .symbol .semicolon := by
  intro pending first value after run
  obtain ⟨value, _, readsValue, run⟩ := bind_eq_ok_iff.mp run
  obtain ⟨tokens, rest, next, rfl, rfl, derives⟩ := sound _ _ _ _ readsValue
  obtain ⟨semicolon, _, expects, run⟩ := bind_eq_ok_iff.mp run
  obtain ⟨rest, rfl, rfl, isSemicolon⟩ := expectSymbol_cases isEnd expects
  cases run
  exact ⟨tokens ++ [semicolon], rest, next,
    by simp, rfl, value, semicolon, tokens, rfl, rfl, derives, isSemicolon⟩

/-- The first clause of a `for` statement. -/
theorem spells_forInitializer
    (sound : Spells finish expression fun value =>
      Phrase.Derives (.expr 0 value))
    (isEnd : finish.kind = .endOfInput) :
    Spells finish (forInitializer expression) DerivesInitializer := by
  intro pending first value after run
  obtain ⟨accepted, _, accepts, run⟩ := bind_eq_ok_iff.mp run
  rcases acceptSymbol_cases isEnd accepts with
    ⟨rfl, semicolon, rest, rfl, rfl, isSemicolon⟩ | ⟨rfl, rfl, _⟩
  · cases run
    exact ⟨[semicolon], rest, first, rfl, rfl, .absent isSemicolon⟩
  · rw [if_neg Bool.false_ne_true] at run
    obtain ⟨accepted, _, accepts, run⟩ := bind_eq_ok_iff.mp run
    rcases acceptKeyword_cases isEnd accepts with
      ⟨rfl, keyword, rest, rfl, rfl, isVar⟩ | ⟨rfl, rfl, _⟩
    · rw [if_pos rfl] at run
      obtain ⟨declared, _, readsDeclared, run⟩ := bind_eq_ok_iff.mp run
      obtain ⟨tokens, rest, next, rfl, rfl, derives⟩ :=
        spells_variableDeclaration sound isEnd _ _ _ _ readsDeclared
      cases run
      exact ⟨keyword :: tokens, rest, next, rfl, rfl, .declared isVar derives⟩
    · rw [if_neg Bool.false_ne_true] at run
      obtain ⟨statement, _, readsStatement, yields⟩ := bind_eq_ok_iff.mp run
      obtain ⟨tokens, rest, next, rfl, rfl, value, semicolon, more, rfl, rfl,
          derives, isSemicolon⟩ :=
        spells_expressionStatement sound isEnd _ _ _ _ readsStatement
      cases yields
      exact ⟨more ++ [semicolon], rest, next, rfl, rfl,
        .evaluated derives isSemicolon⟩

/-- Parameters with commas between them, as many as are allowed. -/
theorem spells_parameters
    (isEnd : finish.kind = .endOfInput)
    (limit count : Nat) :
    Spells finish (parameters limit count) fun names first tokens next =>
      next = first ∧ DerivesNames names tokens ∧
        count + names.length ≤ argumentLimit := by
  induction limit generalizing count with
  | zero =>
      intro pending first names after run
      cases run
  | succ limit inductionHypothesis =>
      intro pending first names after run
      unfold parameters at run
      by_cases tooMany : argumentLimit ≤ count
      · rw [if_pos tooMany] at run
        cases run
      · rw [if_neg tooMany] at run
        change (expectName .parameterName >>= _) _ = _ at run
        obtain ⟨name, _, expectsName, run⟩ := bind_eq_ok_iff.mp run
        obtain ⟨rest, rfl, rfl, isName⟩ := expectName_cases isEnd expectsName
        obtain ⟨accepted, _, accepts, run⟩ := bind_eq_ok_iff.mp run
        rcases acceptSymbol_cases isEnd accepts with
          ⟨rfl, comma, rest, rfl, rfl, isComma⟩ | ⟨rfl, rfl, _⟩
        · obtain ⟨others, last, readsOthers, yields⟩ := bind_eq_ok_iff.mp run
          obtain ⟨further, rest, next, rfl, rfl, rfl, derivesNext, few⟩ :=
            inductionHypothesis (count + 1) _ _ _ _ readsOthers
          cases yields
          refine ⟨name :: comma :: further, rest, next, rfl, rfl, rfl,
            .next isName isComma derivesNext, ?_⟩
          simp only [List.length_cons]
          omega
        · cases run
          refine ⟨[name], rest, first, rfl, rfl, rfl, .last isName, ?_⟩
          simp only [List.length_cons, List.length_nil]
          omega

/-- The parameters of a function, if it has any. -/
theorem spells_parameterList
    (isEnd : finish.kind = .endOfInput)
    (closes : Bool)
    (limit : Nat) :
    Spells finish
      (if closes = true then pure [] else parameters limit 0 :
        Parse (List Token))
      fun names first tokens next =>
        next = first ∧ DerivesParameters names tokens := by
  intro pending first names after run
  cases closes with
  | true =>
      cases run
      exact ⟨[], pending, first, rfl, rfl, rfl, .absent⟩
  | false =>
      obtain ⟨tokens, rest, next, rfl, rfl, rfl, derives, few⟩ :=
        spells_parameters isEnd limit 0 _ _ _ _ run
      rw [Nat.zero_add] at few
      exact ⟨tokens, rest, next, rfl, rfl, rfl, .present derives few⟩

/-- Statements up to a stop: what follows them stops them. -/
theorem spells_statementsUntil
    {stop : Kind → Bool}
    (sound : SpellsClause finish declaration Clause.declaration)
    (limit : Nat) :
    ∀ pending first values after,
      statementsUntil stop declaration limit ⟨pending, finish, first⟩ =
        .ok values after →
      ∃ tokens rest next, pending = tokens ++ rest ∧
        after = ⟨rest, finish, next⟩ ∧
        Clause.Derives (.sequence values) first tokens next ∧
        (stop (rest.headD finish).kind = true ∨
          (rest.headD finish).kind = .endOfInput) := by
  induction limit with
  | zero =>
      intro pending first values after run
      cases run
  | succ limit inductionHypothesis =>
      intro pending first values after run
      have looks : currentKind ⟨pending, finish, first⟩ =
          .ok (pending.headD finish).kind ⟨pending, finish, first⟩ := rfl
      unfold statementsUntil at run
      rw [bind_of_ok looks] at run
      by_cases stops :
          stop (pending.headD finish).kind = true ∨
            (pending.headD finish).kind = .endOfInput
      · rw [if_pos] at run
        · cases run
          exact ⟨[], pending, first, rfl, rfl, .noStatements, stops⟩
        · rcases stops with stops | ends
          · rw [stops, Bool.true_or]
          · rw [ends, Bool.or_true]
      · obtain ⟨notStop, notEnd⟩ := not_or.mp stops
        rw [if_neg] at run
        · obtain ⟨value, _, readsValue, run⟩ := bind_eq_ok_iff.mp run
          obtain ⟨opened, tokens, rest, middle, rfl, rfl, derives, _⟩ :=
            sound _ _ _ _ readsValue
          obtain ⟨others, last, readsOthers, yields⟩ := bind_eq_ok_iff.mp run
          obtain ⟨further, rest, next, rfl, rfl, derivesNext, stopsThere⟩ :=
            inductionHypothesis _ _ _ _ readsOthers
          cases yields
          exact ⟨tokens ++ further, rest, next,
            by simp, rfl, .andThen derives derivesNext, stopsThere⟩
        · rw [Bool.eq_false_iff.mpr notStop, Bool.false_or]
          split
          · next ends => exact absurd ends notEnd
          · exact Bool.false_ne_true

/-- The statements of a block and the brace that closes it. -/
theorem spells_blockBody
    (sound : SpellsClause finish declaration Clause.declaration)
    (isEnd : finish.kind = .endOfInput)
    (limit : Nat) :
    Spells finish (blockBody declaration limit) fun body first tokens next =>
      ∃ more right, tokens = more ++ [right] ∧
        Clause.Derives (.sequence body) first more next ∧
        right.kind = .symbol .rightBrace := by
  intro pending first body after run
  obtain ⟨values, _, readsValues, run⟩ := bind_eq_ok_iff.mp run
  obtain ⟨tokens, rest, next, rfl, rfl, derives, _⟩ :=
    spells_statementsUntil sound limit _ _ _ _ readsValues
  obtain ⟨right, _, expects, yields⟩ := bind_eq_ok_iff.mp run
  obtain ⟨rest, rfl, rfl, isRight⟩ := expectSymbol_cases isEnd expects
  cases yields
  exact ⟨tokens ++ [right], rest, next,
    by simp, rfl, tokens, right, rfl, derives, isRight⟩

/-- A function or method. -/
theorem spells_function
    (sound : SpellsClause finish declaration Clause.declaration)
    (isEnd : finish.kind = .endOfInput)
    (limit : Nat)
    (role : FunctionRole) :
    Spells finish (function declaration limit role)
      fun value => Clause.Derives (.function value) := by
  intro pending first value after run
  obtain ⟨name, _, expectsName, run⟩ := bind_eq_ok_iff.mp run
  obtain ⟨rest, rfl, rfl, isName⟩ := expectName_cases isEnd expectsName
  obtain ⟨left, _, expectsLeft, run⟩ := bind_eq_ok_iff.mp run
  obtain ⟨rest, rfl, rfl, isLeft⟩ := expectSymbol_cases isEnd expectsLeft
  obtain ⟨closes, _, sees, run⟩ := bind_eq_ok_iff.mp run
  obtain ⟨rfl, _⟩ := seesSymbol_cases sees
  obtain ⟨params, _, readsParams, readsRest⟩ := choice_eq_ok_iff.mp run
  obtain ⟨tokens, rest, _, rfl, rfl, rfl, derives⟩ :=
    spells_parameterList isEnd closes limit _ _ _ _ readsParams
  obtain ⟨right, _, expectsRight, readsRest⟩ := bind_eq_ok_iff.mp readsRest
  obtain ⟨rest, rfl, rfl, isRight⟩ := expectSymbol_cases isEnd expectsRight
  obtain ⟨opening, _, expectsOpening, readsRest⟩ := bind_eq_ok_iff.mp readsRest
  obtain ⟨rest, rfl, rfl, isOpening⟩ := expectSymbol_cases isEnd expectsOpening
  obtain ⟨body, _, readsBody, yields⟩ := bind_eq_ok_iff.mp readsRest
  obtain ⟨others, rest, next, rfl, rfl, more, closing, rfl, derivesBody,
      isClosing⟩ :=
    spells_blockBody sound isEnd limit _ _ _ _ readsBody
  cases yields
  exact ⟨name :: left :: tokens ++ right :: opening :: more ++ [closing], rest,
    next, by simp, rfl,
    .function isName isLeft derives isRight isOpening derivesBody isClosing⟩

/-- Methods one after another. -/
theorem spells_methods
    {method : Parse FunctionDecl}
    (sound : Spells finish method fun value => Clause.Derives (.function value))
    (limit : Nat) :
    Spells finish (methods method limit) fun values =>
      Clause.Derives (.methods values) := by
  induction limit with
  | zero =>
      intro pending first values after run
      cases run
  | succ limit inductionHypothesis =>
      intro pending first values after run
      obtain ⟨kind, _, looks, run⟩ := bind_eq_ok_iff.mp run
      cases looks
      generalize (closesBlock _ || _) = ended at run
      cases ended with
      | true =>
          cases run
          exact ⟨[], pending, first, rfl, rfl, .noMethods⟩
      | false =>
          rw [if_neg Bool.false_ne_true] at run
          obtain ⟨value, _, readsValue, run⟩ := bind_eq_ok_iff.mp run
          obtain ⟨tokens, rest, middle, rfl, rfl, derives⟩ :=
            sound _ _ _ _ readsValue
          obtain ⟨others, _, readsOthers, yields⟩ := bind_eq_ok_iff.mp run
          obtain ⟨further, rest, next, rfl, rfl, derivesNext⟩ :=
            inductionHypothesis _ _ _ _ readsOthers
          cases yields
          exact ⟨tokens ++ further, rest, next,
            by simp, rfl, .method derives derivesNext⟩

/-- A class after the word `class`. -/
theorem spells_classDeclaration
    {keyword : Token}
    {pending : List Token}
    {first : NodeId}
    {value : Stmt}
    {after : Cursor}
    (sound : SpellsClause finish declaration Clause.declaration)
    (isEnd : finish.kind = .endOfInput)
    (limit : Nat)
    (isClass : keyword.kind = .keyword .classWord)
    (run : classDeclaration declaration limit ⟨pending, finish, first⟩ =
      .ok value after) :
    ∃ tokens rest next, pending = tokens ++ rest ∧
      after = ⟨rest, finish, next⟩ ∧
      Clause.Derives (.declaration value false) first (keyword :: tokens)
        next := by
  obtain ⟨name, _, expectsName, run⟩ := bind_eq_ok_iff.mp run
  obtain ⟨rest, rfl, rfl, isName⟩ := expectName_cases isEnd expectsName
  have body {superclass : Option SuperclassRef} {tokens rest : List Token}
      {middle : NodeId}
      (derives : DerivesSuperclass superclass first tokens middle)
      (run : (do
        let _ ← expectSymbol .leftBrace .classOpening
        let declared ← methods (function declaration limit .method) limit
        let _ ← expectSymbol .rightBrace .classClosing
        return .classDecl name superclass declared :
          Parse Stmt) ⟨rest, finish, middle⟩ = .ok value after) :
      ∃ others last next, rest = others ++ last ∧ after = ⟨last, finish, next⟩ ∧
        Clause.Derives (.declaration value false)
          first (keyword :: name :: tokens ++ others)
          next := by
    obtain ⟨left, _, expectsLeft, run⟩ := bind_eq_ok_iff.mp run
    obtain ⟨rest, rfl, rfl, isLeft⟩ := expectSymbol_cases isEnd expectsLeft
    obtain ⟨values, _, readsValues, run⟩ := bind_eq_ok_iff.mp run
    obtain ⟨others, rest, next, rfl, rfl, derivesMethods⟩ :=
      spells_methods (spells_function sound isEnd limit .method) limit _ _ _ _
        readsValues
    obtain ⟨right, _, expectsRight, yields⟩ := bind_eq_ok_iff.mp run
    obtain ⟨rest, rfl, rfl, isRight⟩ := expectSymbol_cases isEnd expectsRight
    cases yields
    refine ⟨left :: others ++ [right], rest, next, by simp, rfl, ?_⟩
    have whole :=
      Clause.Derives.classDecl isClass isName derives isLeft
      derivesMethods isRight
    simpa using whole
  obtain ⟨accepted, _, accepts, run⟩ := bind_eq_ok_iff.mp run
  rcases acceptSymbol_cases isEnd accepts with
    ⟨rfl, less, rest, rfl, rfl, isLess⟩ | ⟨rfl, rfl, _⟩
  · rw [if_pos rfl] at run
    obtain ⟨parent, _, expectsParent, run⟩ := bind_eq_ok_iff.mp run
    obtain ⟨rest, rfl, rfl, isParent⟩ := expectName_cases isEnd expectsParent
    obtain ⟨others, last, next, rfl, rfl, derives⟩ :=
      body (.present isLess isParent) run
    exact ⟨name :: less :: parent :: others, last, next, rfl, rfl, derives⟩
  · obtain ⟨others, last, next, rfl, rfl, derives⟩ := body .absent run
    exact ⟨name :: others, last, next, rfl, rfl, derives⟩

/-- A `require` statement after its keyword. -/
theorem spells_requireStatement
    {keyword : Token}
    {pending : List Token}
    {first : NodeId}
    {value : Stmt}
    {after : Cursor}
    (isEnd : finish.kind = .endOfInput)
    (isRequire : keyword.kind = .keyword .requireWord)
    (run : requireStatement keyword ⟨pending, finish, first⟩ =
      .ok value after) :
    ∃ tokens rest next, pending = tokens ++ rest ∧
      after = ⟨rest, finish, next⟩ ∧
      Clause.Derives (.statement value false) first (keyword :: tokens)
        next := by
  have looks : currentKind ⟨pending, finish, first⟩ =
      .ok (pending.headD finish).kind ⟨pending, finish, first⟩ := rfl
  unfold requireStatement at run
  rw [bind_of_ok looks] at run
  generalize isKind : (pending.headD finish).kind = kind at run
  cases kind with
  | string path =>
      obtain ⟨named, rest, rfl, isString⟩ := current_cases isEnd isKind nofun
      change (expectSymbol .semicolon .requireEnd >>= _)
        ⟨rest, finish, first⟩ = _ at run
      obtain ⟨semicolon, _, expects, yields⟩ := bind_eq_ok_iff.mp run
      obtain ⟨rest, rfl, rfl, isSemicolon⟩ := expectSymbol_cases isEnd expects
      cases yields
      exact ⟨[named, semicolon], rest, first, rfl, rfl,
        .require isRequire isString isSemicolon⟩
  | _ => cases run

/-- A `return` statement after its keyword. -/
theorem spells_returnStatement
    {keyword : Token}
    {pending : List Token}
    {first : NodeId}
    {value : Stmt}
    {after : Cursor}
    (sound : Spells finish expression fun value =>
      Phrase.Derives (.expr 0 value))
    (isEnd : finish.kind = .endOfInput)
    (isReturn : keyword.kind = .keyword .returnWord)
    (run : returnStatement expression keyword ⟨pending, finish, first⟩ =
      .ok value after) :
    ∃ tokens rest next, pending = tokens ++ rest ∧
      after = ⟨rest, finish, next⟩ ∧
      Clause.Derives (.statement value false) first (keyword :: tokens)
        next := by
  obtain ⟨closes, _, sees, run⟩ := bind_eq_ok_iff.mp run
  obtain ⟨rfl, _⟩ := seesSymbol_cases sees
  obtain ⟨result, _, readsResult, run⟩ := choice_eq_ok_iff.mp run
  obtain ⟨tokens, rest, next, rfl, rfl, derives⟩ :=
    spells_optional sound closes _ _ _ _ readsResult
  obtain ⟨semicolon, _, expects, yields⟩ := bind_eq_ok_iff.mp run
  obtain ⟨rest, rfl, rfl, isSemicolon⟩ := expectSymbol_cases isEnd expects
  cases yields
  exact ⟨tokens ++ [semicolon], rest, next,
    by simp, rfl, .ret isReturn derives isSemicolon⟩

/-- A condition in parentheses. -/
theorem spells_condition
    {opening closing : Expectation}
    {next : Expr → Parse Stmt}
    {pending : List Token}
    {first : NodeId}
    {value : Stmt}
    {after : Cursor}
    (sound : Spells finish expression fun value =>
      Phrase.Derives (.expr 0 value))
    (isEnd : finish.kind = .endOfInput)
    (run : (do
      let _ ← expectSymbol .leftParen opening
      let condition ← expression
      let _ ← expectSymbol .rightParen closing
      next condition) ⟨pending, finish, first⟩ = .ok value after) :
    ∃ left condition right tokens rest middle,
      pending = left :: tokens ++ right :: rest ∧
        left.kind = .symbol .leftParen ∧
        Phrase.Derives (.expr 0 condition) first tokens middle ∧
        right.kind = .symbol .rightParen ∧
        next condition ⟨rest, finish, middle⟩ = .ok value after := by
  obtain ⟨left, _, expectsLeft, run⟩ := bind_eq_ok_iff.mp run
  obtain ⟨rest, rfl, rfl, isLeft⟩ := expectSymbol_cases isEnd expectsLeft
  obtain ⟨condition, _, readsCondition, run⟩ := bind_eq_ok_iff.mp run
  obtain ⟨tokens, rest, middle, rfl, rfl, derives⟩ :=
    sound _ _ _ _ readsCondition
  obtain ⟨right, _, expectsRight, run⟩ := bind_eq_ok_iff.mp run
  obtain ⟨rest, rfl, rfl, isRight⟩ := expectSymbol_cases isEnd expectsRight
  exact ⟨left, condition, right, tokens, rest, middle, rfl, isLeft, derives,
    isRight, run⟩

/-- A `while` statement after its keyword. -/
theorem spells_whileStatement
    {keyword : Token}
    {pending : List Token}
    {first : NodeId}
    {value : Stmt}
    {after : Cursor}
    (sound : Spells finish expression fun value =>
      Phrase.Derives (.expr 0 value))
    (soundBody : SpellsClause finish statement Clause.statement)
    (isEnd : finish.kind = .endOfInput)
    (isWhile : keyword.kind = .keyword .whileWord)
    (run : whileStatement expression statement ⟨pending, finish, first⟩ =
      .ok value after) :
    ∃ opened tokens rest next, pending = tokens ++ rest ∧
      after = ⟨rest, finish, next⟩ ∧
      Clause.Derives (.statement value opened) first (keyword :: tokens) next ∧
      (opened = true → (rest.headD finish).kind ≠ .keyword .elseWord) := by
  obtain ⟨left, condition, right, tokens, rest, middle, rfl, isLeft, derives,
    isRight, run⟩ := spells_condition sound isEnd run
  obtain ⟨body, _, readsBody, yields⟩ := bind_eq_ok_iff.mp run
  obtain ⟨opened, others, rest, next, rfl, rfl, derivesBody, closed⟩ :=
    soundBody _ _ _ _ readsBody
  cases yields
  exact ⟨opened, left :: tokens ++ right :: others, rest, next, by simp, rfl,
    .loop isWhile isLeft derives isRight derivesBody, closed⟩

/-- An `if` statement after its keyword. -/
theorem spells_ifStatement
    {keyword : Token}
    {pending : List Token}
    {first : NodeId}
    {value : Stmt}
    {after : Cursor}
    (sound : Spells finish expression fun value =>
      Phrase.Derives (.expr 0 value))
    (soundBranch : SpellsClause finish statement Clause.statement)
    (isEnd : finish.kind = .endOfInput)
    (isIf : keyword.kind = .keyword .ifWord)
    (run : ifStatement expression statement ⟨pending, finish, first⟩ =
      .ok value after) :
    ∃ opened tokens rest next, pending = tokens ++ rest ∧
      after = ⟨rest, finish, next⟩ ∧
      Clause.Derives (.statement value opened) first (keyword :: tokens) next ∧
      (opened = true → (rest.headD finish).kind ≠ .keyword .elseWord) := by
  obtain ⟨left, condition, right, tokens, rest, middle, rfl, isLeft, derives,
    isRight, run⟩ := spells_condition sound isEnd run
  obtain ⟨thenBranch, _, readsThen, run⟩ := bind_eq_ok_iff.mp run
  obtain ⟨opened, others, rest, further, rfl, rfl, derivesThen, closed⟩ :=
    soundBranch _ _ _ _ readsThen
  obtain ⟨accepted, _, accepts, run⟩ := bind_eq_ok_iff.mp run
  rcases acceptKeyword_cases isEnd accepts with
    ⟨rfl, other, rest, rfl, rfl, isElse⟩ | ⟨rfl, rfl, notElse⟩
  · -- An open first branch would have taken the `else` in.
    obtain rfl : opened = false := Bool.eq_false_iff.mpr fun isOpened =>
      closed isOpened isElse
    obtain ⟨branch, _, readsBranch, yields⟩ := choice_eq_ok_iff.mp run
    obtain ⟨elseBranch, readsElse, rfl⟩ := map_eq_ok_iff.mp readsBranch
    obtain ⟨opened, last, rest, next, rfl, rfl, derivesElse, closed⟩ :=
      soundBranch _ _ _ _ readsElse
    cases yields
    exact ⟨opened, left :: tokens ++ right :: others ++ other :: last, rest,
      next, by simp, rfl,
      .conditional isIf isLeft derives isRight derivesThen isElse derivesElse,
        closed⟩
  · obtain ⟨branch, _, readsBranch, yields⟩ := choice_eq_ok_iff.mp run
    cases readsBranch
    cases yields
    exact ⟨true, left :: tokens ++ right :: others, rest, further, by simp, rfl,
      .when isIf isLeft derives isRight derivesThen, fun _ => notElse⟩

/-- A `for` statement after its keyword. -/
theorem spells_forStatement
    {keyword : Token}
    {pending : List Token}
    {first : NodeId}
    {value : Stmt}
    {after : Cursor}
    (sound : Spells finish expression fun value =>
      Phrase.Derives (.expr 0 value))
    (soundBody : SpellsClause finish statement Clause.statement)
    (isEnd : finish.kind = .endOfInput)
    (isFor : keyword.kind = .keyword .forWord)
    (run : forStatement expression statement ⟨pending, finish, first⟩ =
      .ok value after) :
    ∃ opened tokens rest next, pending = tokens ++ rest ∧
      after = ⟨rest, finish, next⟩ ∧
      Clause.Derives (.statement value opened) first (keyword :: tokens) next ∧
      (opened = true → (rest.headD finish).kind ≠ .keyword .elseWord) := by
  obtain ⟨left, _, expectsLeft, run⟩ := bind_eq_ok_iff.mp run
  obtain ⟨rest, rfl, rfl, isLeft⟩ := expectSymbol_cases isEnd expectsLeft
  obtain ⟨initializer, _, readsInitializer, run⟩ := bind_eq_ok_iff.mp run
  obtain ⟨tokens, rest, second, rfl, rfl, derivesInitializer⟩ :=
    spells_forInitializer sound isEnd _ _ _ _ readsInitializer
  obtain ⟨closes, _, sees, run⟩ := bind_eq_ok_iff.mp run
  obtain ⟨rfl, _⟩ := seesSymbol_cases sees
  obtain ⟨condition, _, readsCondition, run⟩ := choice_eq_ok_iff.mp run
  obtain ⟨others, rest, third, rfl, rfl, derivesCondition⟩ :=
    spells_optional sound closes _ _ _ _ readsCondition
  obtain ⟨semicolon, _, expectsSemicolon, run⟩ := bind_eq_ok_iff.mp run
  obtain ⟨rest, rfl, rfl, isSemicolon⟩ :=
    expectSymbol_cases isEnd expectsSemicolon
  obtain ⟨closes, _, sees, run⟩ := bind_eq_ok_iff.mp run
  obtain ⟨rfl, _⟩ := seesSymbol_cases sees
  obtain ⟨increment, _, readsIncrement, run⟩ := choice_eq_ok_iff.mp run
  obtain ⟨more, rest, fourth, rfl, rfl, derivesIncrement⟩ :=
    spells_optional sound closes _ _ _ _ readsIncrement
  obtain ⟨right, _, expectsRight, run⟩ := bind_eq_ok_iff.mp run
  obtain ⟨rest, rfl, rfl, isRight⟩ := expectSymbol_cases isEnd expectsRight
  obtain ⟨body, _, readsBody, yields⟩ := bind_eq_ok_iff.mp run
  obtain ⟨opened, last, rest, next, rfl, rfl, derivesBody, closed⟩ :=
    soundBody _ _ _ _ readsBody
  cases yields
  refine ⟨opened, left ::
    (tokens ++ others ++ semicolon :: (more ++ right :: last)), rest, next,
    by simp, rfl, ?_, closed⟩
  have whole :=
    Clause.Derives.forLoop isFor isLeft derivesInitializer derivesCondition
    isSemicolon derivesIncrement isRight derivesBody
  simpa using whole

/-- A statement, given the parsers of what it may contain. -/
theorem spells_statement
    {depth : Nat}
    (sound : Spells finish (Grammar.expression depth)
      fun value => Phrase.Derives (.expr 0 value))
    (soundStatement :
      SpellsClause finish (Grammar.statement depth) Clause.statement)
    (soundDeclaration :
      SpellsClause finish (Grammar.declaration depth) Clause.declaration)
    (isEnd : finish.kind = .endOfInput) :
    SpellsClause finish (Grammar.statement (depth + 1)) Clause.statement := by
  intro pending first value after run
  have looks : currentKind ⟨pending, finish, first⟩ =
      .ok (pending.headD finish).kind ⟨pending, finish, first⟩ := rfl
  unfold Grammar.statement at run
  rw [bind_of_ok looks] at run
  have other (run : expressionStatement (Grammar.expression depth)
      ⟨pending, finish, first⟩ =
      .ok value after) : ∃ opened tokens rest next, pending = tokens ++ rest ∧
        after = ⟨rest, finish, next⟩ ∧
        Clause.Derives (.statement value opened) first tokens next ∧
        (opened = true → (rest.headD finish).kind ≠ .keyword .elseWord) := by
    obtain ⟨tokens, rest, next, rfl, rfl, result, semicolon, more, rfl, rfl,
        derives, isSemicolon⟩ :=
      spells_expressionStatement sound isEnd _ _ _ _ run
    exact ⟨false, more ++ [semicolon], rest, next, rfl, rfl,
      .expression derives isSemicolon, nofun⟩
  generalize isKind : (pending.headD finish).kind = kind at run
  cases kind with
  | keyword word =>
      obtain ⟨keyword, pending, rfl, isWord⟩ := current_cases isEnd isKind nofun
      cases word with
      | ifWord =>
          obtain ⟨opened, tokens, rest, next, rfl, rfl, derives, closed⟩ :=
            spells_ifStatement sound soundStatement isEnd isWord run
          exact ⟨opened, keyword :: tokens, rest, next, rfl, rfl, derives,
            closed⟩
      | printWord =>
          change printStatement (Grammar.expression depth)
            ⟨pending, finish, first⟩ = _ at run
          obtain ⟨result, _, readsResult, run⟩ := bind_eq_ok_iff.mp run
          obtain ⟨tokens, rest, next, rfl, rfl, derives⟩ :=
            sound _ _ _ _ readsResult
          obtain ⟨semicolon, _, expects, yields⟩ := bind_eq_ok_iff.mp run
          obtain ⟨rest, rfl, rfl, isSemicolon⟩ :=
            expectSymbol_cases isEnd expects
          cases yields
          exact ⟨false, keyword :: tokens ++ [semicolon], rest, next,
            by simp, rfl, .print isWord derives isSemicolon, nofun⟩
      | returnWord =>
          obtain ⟨tokens, rest, next, rfl, rfl, derives⟩ :=
            spells_returnStatement sound isEnd isWord run
          exact ⟨false, keyword :: tokens, rest, next, rfl, rfl, derives, nofun⟩
      | requireWord =>
          obtain ⟨tokens, rest, next, rfl, rfl, derives⟩ :=
            spells_requireStatement isEnd isWord run
          exact ⟨false, keyword :: tokens, rest, next, rfl, rfl, derives, nofun⟩
      | whileWord =>
          obtain ⟨opened, tokens, rest, next, rfl, rfl, derives, closed⟩ :=
            spells_whileStatement sound soundStatement isEnd isWord run
          exact ⟨opened, keyword :: tokens, rest, next, rfl, rfl, derives,
            closed⟩
      | forWord =>
          obtain ⟨opened, tokens, rest, next, rfl, rfl, derives, closed⟩ :=
            spells_forStatement sound soundStatement isEnd isWord run
          exact ⟨opened, keyword :: tokens, rest, next, rfl, rfl, derives,
            closed⟩
      | _ => exact other run
  | symbol sign =>
      cases sign with
      | leftBrace =>
          obtain ⟨left, pending, rfl, isLeft⟩ :=
            current_cases isEnd isKind nofun
          change (Stmt.block <$> blockBody (Grammar.declaration depth) depth)
            ⟨pending, finish, first⟩ = _ at run
          obtain ⟨body, readsBody, rfl⟩ := map_eq_ok_iff.mp run
          obtain ⟨tokens, rest, next, rfl, rfl, more, right, rfl, derives,
              isRight⟩ :=
            spells_blockBody soundDeclaration isEnd depth _ _ _ _ readsBody
          exact ⟨false, left :: more ++ [right], rest, next, rfl, rfl,
            .block isLeft derives isRight, nofun⟩
      | _ => exact other run
  | _ => exact other run

/-- A declaration or a statement, given the parsers of what it may contain. -/
theorem spells_declaration
    {depth : Nat}
    (sound : Spells finish (Grammar.expression depth)
      fun value => Phrase.Derives (.expr 0 value))
    (soundStatement :
      SpellsClause finish (Grammar.statement depth) Clause.statement)
    (soundDeclaration :
      SpellsClause finish (Grammar.declaration depth) Clause.declaration)
    (isEnd : finish.kind = .endOfInput) :
    SpellsClause finish (Grammar.declaration (depth + 1))
      Clause.declaration := by
  intro pending first value after run
  have looks : currentKind ⟨pending, finish, first⟩ =
      .ok (pending.headD finish).kind ⟨pending, finish, first⟩ := rfl
  unfold Grammar.declaration at run
  rw [bind_of_ok looks] at run
  have other (run : Grammar.statement depth ⟨pending, finish, first⟩ =
      .ok value after) :
      ∃ opened tokens rest next, pending = tokens ++ rest ∧
        after = ⟨rest, finish, next⟩ ∧
        Clause.Derives (.declaration value opened) first tokens next ∧
        (opened = true → (rest.headD finish).kind ≠ .keyword .elseWord) := by
    obtain ⟨opened, tokens, rest, next, rfl, rfl, derives, closed⟩ :=
      soundStatement _ _ _ _ run
    exact ⟨opened, tokens, rest, next, rfl, rfl, .plain derives, closed⟩
  generalize isKind : (pending.headD finish).kind = kind at run
  cases kind with
  | keyword word =>
      obtain ⟨keyword, pending, rfl, isWord⟩ := current_cases isEnd isKind nofun
      cases word with
      | varWord =>
          obtain ⟨tokens, rest, next, rfl, rfl, derives⟩ :=
            spells_variableDeclaration sound isEnd _ _ _ _ run
          exact ⟨false, keyword :: tokens, rest, next, rfl, rfl,
            .varDecl isWord derives, nofun⟩
      | funWord =>
          change (Stmt.funDecl <$> function (Grammar.declaration depth)
            depth .function) ⟨pending, finish, first⟩ = _ at run
          obtain ⟨declared, readsFunction, rfl⟩ := map_eq_ok_iff.mp run
          obtain ⟨tokens, rest, next, rfl, rfl, derives⟩ :=
            spells_function soundDeclaration isEnd depth .function _ _ _ _
              readsFunction
          exact ⟨false, keyword :: tokens, rest, next, rfl, rfl,
            .funDecl isWord derives, nofun⟩
      | classWord =>
          obtain ⟨tokens, rest, next, rfl, rfl, derives⟩ :=
            spells_classDeclaration soundDeclaration isEnd depth isWord run
          exact ⟨false, keyword :: tokens, rest, next, rfl, rfl, derives, nofun⟩
      | _ => exact other run
  | _ => exact other run

/-- Statements and declarations, by induction on the depth. -/
theorem spells_statement_declaration
    (isEnd : finish.kind = .endOfInput)
    (depth : Nat) :
    SpellsClause finish (Grammar.statement depth) Clause.statement ∧
      SpellsClause finish (Grammar.declaration depth) Clause.declaration := by
  induction depth with
  | zero =>
      constructor
      · intro pending first value after run
        cases run
      · intro pending first value after run
        cases run
  | succ depth inductionHypothesis =>
      obtain ⟨soundStatement, soundDeclaration⟩ := inductionHypothesis
      have soundExpression := (spells_expression_unary isEnd depth).1
      exact ⟨spells_statement soundExpression soundStatement
        soundDeclaration isEnd,
        spells_declaration soundExpression soundStatement
          soundDeclaration isEnd⟩

end Grammar

end LoxScript
