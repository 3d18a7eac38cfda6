import LoxScript.Proofs.Tree.Shape

namespace LoxScript

/-!
# Derivations have the shape of the grammar

What is derived from tokens has the shape of the grammar and is written with
just these tokens.  A chain of operators says so of what it makes of its first
operand.
-/

open Grammar

section Fitting

variable {pieces others : List Piece} {tokens more : List Token}

/-- What fits in two parts fits as a whole. -/
theorem Fit.append
    (fit : Fit pieces tokens)
    (fitNext : Fit others more) :
    Fit (pieces ++ others) (tokens ++ more) :=
  List.rel_append fit fitNext

/-- What fits the pieces of two parts comes in two parts. -/
theorem fit_append_iff :
    Fit (pieces ++ others) tokens ↔
      ∃ before after, tokens = before ++ after ∧ Fit pieces before ∧
        Fit others after := by
  constructor
  · intro fit
    induction pieces generalizing tokens with
    | nil => exact ⟨[], tokens, rfl, .nil, fit⟩
    | cons piece pieces inductionHypothesis =>
        cases fit with
        | cons fits fit =>
            obtain ⟨before, after, rfl, fitBefore, fitAfter⟩ :=
              inductionHypothesis fit
            exact ⟨_ :: before, after, rfl, .cons fits fitBefore, fitAfter⟩
  · rintro ⟨before, after, rfl, fitBefore, fitAfter⟩
    exact Fit.append fitBefore fitAfter

/-- One token fits one piece. -/
theorem fit_singleton_iff
    {piece : Piece} :
    Fit [piece] tokens ↔ ∃ token, tokens = [token] ∧ piece.Fits token := by
  constructor
  · intro fit
    cases fit with
    | cons fits fit =>
        cases fit
        exact ⟨_, rfl, fits⟩
  · rintro ⟨token, rfl, fits⟩
    exact .cons fits .nil

/-- What fits a list of pieces before the end of input. -/
theorem fit_concat_iff
    {piece : Piece}
    {token : Token} :
    Fit (pieces ++ [piece]) (tokens ++ [token]) ↔ Fit pieces tokens ∧
      piece.Fits token := by
  constructor
  · intro fit
    obtain ⟨before, after, same, fitBefore, fitAfter⟩ := fit_append_iff.mp fit
    obtain ⟨last, rfl, fits⟩ := fit_singleton_iff.mp fitAfter
    obtain ⟨rfl, isLast⟩ := List.append_inj' same rfl
    cases isLast
    exact ⟨fitBefore, fits⟩
  · rintro ⟨fit, fits⟩
    exact fit.append (.cons fits .nil)

end Fitting

/-- The literals are known by the kinds of their tokens. -/
theorem Grammar.literal?_eq_some_iff
    {kind : Kind}
    {value : Literal} :
    literal? kind = some value ↔ kind = value.kind := by
  constructor
  · intro isLiteral
    cases kind with
    | keyword word => cases word <;> cases isLiteral <;> rfl
    | symbol sign => cases isLiteral
    | identifier name => cases isLiteral
    | endOfInput => cases isLiteral
    | string text => cases isLiteral; rfl
    | number value => cases isLiteral; rfl
  · rintro rfl
    cases value with
    | boolean value => cases value <;> rfl
    | _ => rfl

/-- What an operator of a level makes of operands that bind tightly enough has
the shape of the grammar, binds as the level does and is written from left to
right. -/
theorem Level.join_shaped
    {level : Level}
    {left right : Expr}
    {operator : Token}
    (accepted : level.accepts operator.kind = true)
    (shapedLeft : left.Shaped)
    (boundLeft : level.rank ≤ left.rank)
    (shapedRight : right.Shaped)
    (boundRight : level.rank < right.rank) :
    (level.join left operator right).Shaped ∧
      (level.join left operator right).rank = level.rank ∧
      (level.join left operator right).pieces = left.pieces ++ .kept operator ::
        right.pieces := by
  have isLevel := (level.accepts_iff operator.kind).mp accepted
  cases level <;>
    exact ⟨⟨_, isLevel, rfl, boundLeft, shapedLeft, boundRight, shapedRight⟩,
      by simp [join, Expr.rank, isLevel], rfl⟩

/-- What the tokens of a phrase say of its tree. -/
def Phrase.Tells (tokens : List Token) : Phrase → Prop
  | .expr rank value =>
      value.Shaped ∧ rank ≤ value.rank ∧ Fit value.pieces tokens
  | .primary value => value.Shaped ∧ 8 ≤ value.rank ∧ Fit value.pieces tokens
  | .chain level left value =>
      ∀ before, left.Shaped → level.rank ≤ left.rank → Fit left.pieces before →
        value.Shaped ∧ level.rank ≤ value.rank ∧
          Fit value.pieces (before ++ tokens)
  | .access object value =>
      ∀ before, object.Shaped → 8 ≤ object.rank → Fit object.pieces before →
        value.Shaped ∧ 8 ≤ value.rank ∧ Fit value.pieces (before ++ tokens)
  | .arguments values =>
      Expr.ShapedAll values ∧
        Fit (Piece.separated (Expr.piecesAll values)) tokens

/-- Every phrase is derived from what it is written with. -/
theorem Phrase.Derives.tells
    {phrase : Phrase}
    {first next : NodeId}
    {tokens : List Token}
    (derives : phrase.Derives first tokens next) :
    phrase.Tells tokens := by
  induction derives with
  | literal isLiteral =>
      exact ⟨trivial, Nat.le_refl _,
        .cons (literal?_eq_some_iff.mp isLiteral) .nil⟩
  | reference isName => exact ⟨isName, Nat.le_refl _, .cons rfl .nil⟩
  | thisRef isThis => exact ⟨isThis, Nat.le_refl _, .cons rfl .nil⟩
  | superRef isSuper isDot isName =>
      exact ⟨⟨isSuper, isName⟩, Nat.le_refl _,
        .cons rfl (.cons isDot (.cons rfl .nil))⟩
  | grouping isLeft _ isRight tells =>
      obtain ⟨shaped, _, fit⟩ := tells
      exact ⟨shaped, Nat.le_refl _, .cons isLeft
        (fit.append (.cons isRight .nil))⟩
  | operand _ _ tells tellsNext =>
      obtain ⟨shaped, bound, fit⟩ := tells
      obtain ⟨shaped, bound, fit⟩ := tellsNext _ shaped bound fit
      exact ⟨shaped, Nat.le_trans (by decide) bound, fit⟩
  | unary isOperator _ tells =>
      obtain ⟨shaped, bound, fit⟩ := tells
      exact ⟨⟨isOperator, bound, shaped⟩, Nat.le_refl _, .cons rfl fit⟩
  | accessEnd =>
      intro before shaped bound fit
      rw [List.append_nil]
      exact ⟨shaped, bound, fit⟩
  | @call object value left right first others next isLeft isRight
    _ tellsNext =>
      intro before shaped bound fit
      have fitLeft : Piece.Fits (.ofSymbol .leftParen) left := isLeft
      have fitCall : Fit (Expr.call object right []).pieces
          (before ++ [left] ++ [right]) :=
        (fit.append (.cons fitLeft .nil)).append (.cons rfl .nil)
      have whole := tellsNext _ ⟨bound, shaped, isRight, Nat.zero_le _, trivial⟩
        (Nat.le_refl _) fitCall
      rw [List.append_assoc, List.append_assoc] at whole
      exact whole
  | @callWith object _ left right values _ tokens _ _ _ isLeft _ few isRight _
    tells tellsNext =>
      intro before shaped bound fit
      obtain ⟨shapedAll, fitAll⟩ := tells
      have fitLeft : Piece.Fits (.ofSymbol .leftParen) left := isLeft
      have fitCall : Fit (Expr.call object right values).pieces
          (before ++ left :: tokens ++ [right]) :=
        (fit.append (.cons fitLeft fitAll)).append (.cons rfl .nil)
      have whole := tellsNext _ ⟨bound, shaped, isRight, few, shapedAll⟩
        (Nat.le_refl _) fitCall
      rw [List.append_assoc, List.append_assoc] at whole
      exact whole
  | @get _ _ dot name _ _ _ isDot isName _ tellsNext =>
      intro before shaped bound fit
      have whole := tellsNext (before ++ [dot, name]) ⟨bound, shaped, isName⟩
        (Nat.le_refl _) (fit.append (.cons isDot (.cons rfl .nil)))
      rw [List.append_assoc] at whole
      exact whole
  | lastArgument _ tells =>
      obtain ⟨shaped, _, fit⟩ := tells
      exact ⟨⟨shaped, trivial⟩, fit⟩
  | argument _ isComma derivesNext tells tellsNext =>
      obtain ⟨shaped, _, fit⟩ := tells
      obtain ⟨shapedAll, fitAll⟩ := tellsNext
      refine ⟨⟨shaped, shapedAll⟩, ?_⟩
      cases derivesNext <;> exact fit.append (.cons isComma fitAll)
  | chainEnd =>
      intro before shaped bound fit
      rw [List.append_nil]
      exact ⟨shaped, bound, fit⟩
  | @chainNext _ _ operator _ _ _ tokens _ _ _ accepted _ _ tells tellsNext =>
      intro before shaped bound fit
      obtain ⟨shapedRight, boundRight, fitRight⟩ := tells
      obtain ⟨shapedJoin, boundJoin, piecesJoin⟩ :=
        Level.join_shaped accepted shaped bound shapedRight boundRight
      have whole := tellsNext (before ++ operator :: tokens) shapedJoin
        (Nat.le_of_eq boundJoin.symm)
        (piecesJoin ▸ fit.append (.cons rfl fitRight))
      rw [List.append_assoc] at whole
      exact whole
  | level level _ _ tells tellsNext =>
      obtain ⟨shaped, bound, fit⟩ := tells
      exact tellsNext _ shaped (Nat.le_of_succ_le bound) fit
  | plain _ tells =>
      obtain ⟨shaped, _, fit⟩ := tells
      exact ⟨shaped, Nat.zero_le _, fit⟩
  | assign _ isEqual _ tells tellsNext =>
      obtain ⟨isName, _, fit⟩ := tells
      obtain ⟨shaped, _, fitValue⟩ := tellsNext
      exact ⟨⟨isName, shaped⟩, Nat.zero_le _,
        fit.append (.cons isEqual fitValue)⟩
  | set _ isEqual _ tells tellsNext =>
      obtain ⟨⟨bound, shapedObject, isName⟩, _, fit⟩ := tells
      obtain ⟨shaped, _, fitValue⟩ := tellsNext
      exact ⟨⟨bound, shapedObject, isName, shaped⟩, Nat.zero_le _,
        fit.append (.cons isEqual fitValue)⟩

/-- An expression that may be missing. -/
theorem DerivesOptional.tells
    {value : Option Expr}
    {first next : NodeId}
    {tokens : List Token}
    (derives : DerivesOptional value first tokens next) :
    (∀ result ∈ value, result.Shaped) ∧
      Fit (Expr.optionalPieces value) tokens := by
  cases derives with
  | absent => exact ⟨nofun, .nil⟩
  | present derives =>
      obtain ⟨shaped, _, fit⟩ := derives.tells
      exact ⟨fun _ isValue => Option.some.inj isValue ▸ shaped, fit⟩

/-- Names with commas between them. -/
theorem DerivesNames.tells
    {names tokens : List Token}
    (derives : DerivesNames names tokens) :
    (∀ name ∈ names, name.IsIdentifier) ∧
      Fit (Piece.separated (names.map fun name => [.kept name])) tokens := by
  induction derives with
  | last isName => exact ⟨by simpa using isName, .cons rfl .nil⟩
  | next isName isComma derivesNext inductionHypothesis =>
      obtain ⟨areNames, fit⟩ := inductionHypothesis
      refine ⟨List.forall_mem_cons.mpr ⟨isName, areNames⟩, ?_⟩
      cases derivesNext <;> exact .cons rfl (.cons isComma fit)

/-- The parameters of a function. -/
theorem DerivesParameters.tells
    {names tokens : List Token}
    (derives : DerivesParameters names tokens) :
    (∀ name ∈ names, name.IsIdentifier) ∧ names.length ≤ argumentLimit ∧
      Fit (Piece.separated (names.map fun name => [.kept name])) tokens := by
  cases derives with
  | absent => exact ⟨nofun, Nat.zero_le _, .nil⟩
  | present derives few => exact ⟨derives.tells.1, few, derives.tells.2⟩

/-- What the tokens of a clause say of its tree. -/
def Clause.Tells (tokens : List Token) : Clause → Prop
  | .statement value opened =>
      value.Shaped ∧ value.declares = false ∧ value.endsOpen = opened ∧
        Fit value.pieces tokens
  | .declaration value opened =>
      value.Shaped ∧ value.endsOpen = opened ∧ Fit value.pieces tokens
  | .sequence values =>
      Stmt.ShapedAll values ∧ Fit (Stmt.piecesAll values) tokens
  | .function value => value.Shaped ∧ Fit value.pieces tokens
  | .methods values =>
      FunctionDecl.ShapedAll values ∧ Fit (FunctionDecl.piecesAll values) tokens

/-- No token is the word `for`. -/
def NoFor (tokens : List Token) : Prop :=
  ∀ token ∈ tokens, token.kind ≠ .keyword .forWord

/-- Without `for`, every clause is derived from what it is written with. -/
theorem Clause.Derives.tells
    {clause : Clause}
    {first next : NodeId}
    {tokens : List Token}
    (derives : clause.Derives first tokens next)
    (noFor : NoFor tokens) :
    clause.Tells tokens := by
  induction derives with
  | print isPrint derives isSemicolon =>
      obtain ⟨shaped, _, fit⟩ := derives.tells
      exact ⟨shaped, rfl, rfl, .cons isPrint
        (fit.append (.cons isSemicolon .nil))⟩
  | expression derives isSemicolon =>
      obtain ⟨shaped, _, fit⟩ := derives.tells
      exact ⟨shaped, rfl, rfl, fit.append (.cons isSemicolon .nil)⟩
  | ret isReturn derives isSemicolon =>
      obtain ⟨shaped, fit⟩ := derives.tells
      exact ⟨⟨isReturn, shaped⟩, rfl, rfl,
        .cons rfl (fit.append (.cons isSemicolon .nil))⟩
  | require isRequire isString isSemicolon =>
      exact ⟨isRequire, rfl, rfl,
        .cons rfl (.cons isString (.cons isSemicolon .nil))⟩
  | block isLeft _ isRight tells =>
      obtain ⟨shaped, fit⟩ := tells fun token member =>
        noFor token (by simp [member])
      exact ⟨shaped, rfl, rfl, .cons isLeft (fit.append (.cons isRight .nil))⟩
  | loop isWhile isLeft derives isRight _ tells =>
      obtain ⟨shaped, _, fit⟩ := derives.tells
      obtain ⟨shapedBody, plain, opens, fitBody⟩ :=
        tells fun token member => noFor token (by simp [member])
      exact ⟨⟨shaped, plain, shapedBody⟩, rfl, opens,
        .cons isWhile (.cons isLeft (fit.append (.cons isRight fitBody)))⟩
  | «when» isIf isLeft derives isRight _ tells =>
      obtain ⟨shaped, _, fit⟩ := derives.tells
      obtain ⟨shapedBody, plain, _, fitBody⟩ :=
        tells fun token member => noFor token (by simp [member])
      exact ⟨⟨shaped, plain, shapedBody⟩, rfl, rfl,
        .cons isIf (.cons isLeft (fit.append (.cons isRight fitBody)))⟩
  | conditional isIf isLeft derives isRight _ isElse _ tells tellsElse =>
      obtain ⟨shaped, _, fit⟩ := derives.tells
      obtain ⟨shapedThen, plainThen, closed, fitThen⟩ :=
        tells fun token member => noFor token (by simp [member])
      obtain ⟨shapedElse, plainElse, opens, fitElse⟩ :=
        tellsElse fun token member => noFor token (by simp [member])
      refine ⟨⟨shaped, plainThen, shapedThen, closed, plainElse, shapedElse⟩,
        rfl, opens, ?_⟩
      exact .cons isIf (.cons isLeft
        (Fit.append (fit.append (.cons isRight fitThen))
          (.cons isElse fitElse)))
  | forLoop isFor => exact absurd isFor (noFor _ (by simp))
  | plain _ tells =>
      obtain ⟨shaped, _, opens, fit⟩ := tells noFor
      exact ⟨shaped, opens, fit⟩
  | varDecl isVar derives =>
      cases derives with
      | bare isName isSemicolon =>
          exact ⟨⟨isName, nofun⟩, rfl,
            .cons isVar (.cons rfl (.cons isSemicolon .nil))⟩
      | initialized isName isEqual derives isSemicolon =>
          obtain ⟨shaped, _, fit⟩ := derives.tells
          exact ⟨⟨isName, fun _ isValue => Option.some.inj isValue ▸ shaped⟩,
            rfl, .cons isVar
            (.cons rfl (.cons isEqual (fit.append (.cons isSemicolon .nil))))⟩
  | funDecl isFun _ tells =>
      obtain ⟨shaped, fit⟩ := tells fun token member =>
        noFor token (by simp [member])
      exact ⟨shaped, rfl, .cons isFun fit⟩
  | classDecl isClass isName derives isLeft _ isRight tells =>
      obtain ⟨shaped, fit⟩ := tells fun token member =>
        noFor token (by simp [member])
      have fitLeft : Piece.Fits (.ofSymbol .leftBrace) _ := isLeft
      cases derives with
      | absent =>
          exact ⟨⟨isName, nofun, shaped⟩, rfl, .cons isClass
            (.cons rfl (Fit.append (.cons fitLeft fit) (.cons isRight .nil)))⟩
      | present isLess isParent =>
          exact ⟨⟨isName, fun _ isValue => Option.some.inj isValue ▸ isParent,
            shaped⟩, rfl, .cons isClass (.cons rfl (.cons isLess (.cons rfl
              (Fit.append (.cons fitLeft fit) (.cons isRight .nil)))))⟩
  | noStatements => exact ⟨trivial, .nil⟩
  | andThen _ _ tells tellsNext =>
      obtain ⟨shaped, _, fit⟩ := tells fun token member =>
        noFor token (by simp [member])
      obtain ⟨shapedNext, fitNext⟩ := tellsNext fun token member =>
        noFor token (by simp [member])
      exact ⟨⟨shaped, shapedNext⟩, fit.append fitNext⟩
  | function isName isLeft derives isRight isOpening _ isClosing tells =>
      obtain ⟨areNames, few, fitParams⟩ := derives.tells
      obtain ⟨shaped, fit⟩ := tells fun token member =>
        noFor token (by simp [member])
      have fitRight : Piece.Fits (.ofSymbol .rightParen) _ := isRight
      exact ⟨⟨isName, areNames, few, shaped⟩, .cons rfl (.cons isLeft
        (Fit.append (fitParams.append (.cons fitRight (.cons isOpening fit)))
          (.cons isClosing .nil)))⟩
  | noMethods => exact ⟨trivial, .nil⟩
  | method _ _ tells tellsNext =>
      obtain ⟨shaped, fit⟩ := tells fun token member =>
        noFor token (by simp [member])
      obtain ⟨shapedNext, fitNext⟩ := tellsNext fun token member =>
        noFor token (by simp [member])
      exact ⟨⟨shaped, shapedNext⟩, fit.append fitNext⟩

end LoxScript
