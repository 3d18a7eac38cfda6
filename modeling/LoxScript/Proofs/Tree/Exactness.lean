import LoxScript.Proofs.Tree.Recognition
import LoxScript.Proofs.Tree.Shape.Built

namespace LoxScript

/-!
# The parser accepts exactly the shapes of the grammar

On the tokens of a source without `for`, the parser yields the one tree that has
the shape of the grammar and is written with these tokens, and it yields nothing
if there is none.  Every tree of that shape is written with some tokens of a
source.
-/

open Grammar

/-- The tree has the shape of the grammar, and what it is written with, followed
by the end of input, are the tokens one by one. -/
def Spells (tokens : List Token) (statements : List Stmt) : Prop :=
  Stmt.ShapedAll statements ∧
    Fit (Stmt.piecesAll statements ++ [.fixed .endOfInput]) tokens

namespace Piece

/-- The kind of the tokens that fit a piece. -/
def kind : Piece → Kind
  | .kept token => token.kind
  | .fixed kind => kind

/-- A token that fits a piece. -/
def sample : Piece → Token
  | .kept token => token
  | .fixed kind => ⟨kind, "", 1⟩

/-- The piece is neither an end of input nor the word `for`. -/
def Ordinary (piece : Piece) : Prop :=
  piece.kind ≠ .endOfInput ∧ piece.kind ≠ .keyword .forWord

/-- Symbols are ordinary. -/
@[simp] theorem ordinary_ofSymbol (symbol : Symbol) :
    (ofSymbol symbol).Ordinary :=
  ⟨nofun, nofun⟩

/-- Reserved words other than `for` are ordinary. -/
@[simp] theorem ordinary_ofKeyword
    (keyword : Keyword) :
    (ofKeyword keyword).Ordinary ↔ keyword ≠ .forWord := by
  simp [Ordinary, ofKeyword, kind]

/-- Names are ordinary. -/
theorem ordinary_of_isIdentifier
    {name : Token}
    (isName : name.IsIdentifier) :
    (kept name).Ordinary := by
  obtain ⟨text, isIdentifier⟩ := isName
  simp [Ordinary, kind, isIdentifier]

/-- Operators are ordinary. -/
theorem ordinary_of_level
    {operator : Token}
    {level : Level}
    (isLevel : operator.kind.level? = some level) :
    (kept operator).Ordinary := by
  constructor
  · intro isEnd
    rw [show operator.kind = .endOfInput from isEnd] at isLevel
    cases isLevel
  · intro isFor
    rw [show operator.kind = .keyword .forWord from isFor] at isLevel
    cases isLevel

/-- Literals are ordinary. -/
theorem ordinary_literal
    (value : Literal) :
    (fixed value.kind).Ordinary := by
  cases value with
  | boolean value => cases value <;> simp [Ordinary, kind, Literal.kind]
  | _ => simp [Ordinary, kind, Literal.kind]

/-- Commas between ordinary pieces leave them ordinary. -/
theorem ordinary_separated
    {lists : List (List Piece)}
    (ordinary : ∀ list ∈ lists, ∀ piece ∈ list, piece.Ordinary) :
    ∀ piece ∈ separated lists, piece.Ordinary := by
  fun_induction separated lists with
  | case1 => simp
  | case2 last => simpa using ordinary
  | case3 first second rest inductionHypothesis =>
      obtain ⟨ordinaryFirst, ordinaryRest⟩ := List.forall_mem_cons.mp ordinary
      simp only [List.forall_mem_append, List.forall_mem_cons]
      exact ⟨ordinaryFirst, ordinary_ofSymbol _,
        inductionHypothesis ordinaryRest⟩

/-- Pieces fit their samples. -/
theorem fit_sample
    (pieces : List Piece) :
    Fit pieces (pieces.map sample) := by
  induction pieces with
  | nil => exact .nil
  | cons piece pieces inductionHypothesis =>
      refine .cons ?_ inductionHypothesis
      cases piece <;> rfl

/-- A sample is of the kind of its piece. -/
theorem kind_sample (piece : Piece) : piece.sample.kind = piece.kind := by
  cases piece <;> rfl

end Piece

mutual

/-- An expression of the grammar's shape is written with ordinary tokens. -/
theorem Expr.ordinary_of_shaped :
    (value : Expr) → value.Shaped → ∀ piece ∈ value.pieces, piece.Ordinary
  | .literal value, _ => by simpa [pieces] using Piece.ordinary_literal value
  | .grouping inner, shaped => by
      simpa [pieces, or_imp, forall_and] using inner.ordinary_of_shaped shaped
  | .unary operator operand, ⟨isOperator, _, shaped⟩ => by
      have ordinary : (Piece.kept operator).Ordinary := by
        rcases isOperator with isBang | isMinus
        · simp [Piece.Ordinary, Piece.kind, isBang]
        · simp [Piece.Ordinary, Piece.kind, isMinus]
      exact List.forall_mem_cons.mpr
        ⟨ordinary, operand.ordinary_of_shaped shaped⟩
  | .binary left operator right, shaped => by
      obtain ⟨level, isLevel, _, _, shapedLeft, _, shapedRight⟩ := shaped
      exact List.forall_mem_append.mpr ⟨left.ordinary_of_shaped shapedLeft,
        List.forall_mem_cons.mpr
          ⟨Piece.ordinary_of_level isLevel,
            right.ordinary_of_shaped shapedRight⟩⟩
  | .logical left operator right, shaped => by
      obtain ⟨level, isLevel, _, _, shapedLeft, _, shapedRight⟩ := shaped
      exact List.forall_mem_append.mpr ⟨left.ordinary_of_shaped shapedLeft,
        List.forall_mem_cons.mpr
          ⟨Piece.ordinary_of_level isLevel,
            right.ordinary_of_shaped shapedRight⟩⟩
  | .reference _ name, isName => by
      simpa [pieces] using Piece.ordinary_of_isIdentifier isName
  | .assign _ name value, ⟨isName, shaped⟩ =>
      List.forall_mem_cons.mpr ⟨Piece.ordinary_of_isIdentifier isName,
        List.forall_mem_cons.mpr
          ⟨Piece.ordinary_ofSymbol _, value.ordinary_of_shaped shaped⟩⟩
  | .call callee paren arguments, shaped => by
      obtain ⟨_, shapedCallee, isRight, _, shapedAll⟩ := shaped
      have ordinaryParen : (Piece.kept paren).Ordinary := by
        simp [Piece.Ordinary, Piece.kind, isRight]
      simp only [pieces, List.forall_mem_append, List.forall_mem_cons]
      exact ⟨⟨callee.ordinary_of_shaped shapedCallee, Piece.ordinary_ofSymbol _,
        Piece.ordinary_separated
          (Expr.ordinary_of_shapedAll arguments shapedAll)⟩, ordinaryParen,
        nofun⟩
  | .get object name, ⟨_, shaped, isName⟩ => by
      simp only [pieces, List.forall_mem_append, List.forall_mem_cons]
      exact ⟨object.ordinary_of_shaped shaped, Piece.ordinary_ofSymbol _,
        Piece.ordinary_of_isIdentifier isName, nofun⟩
  | .set object name value, ⟨_, shapedObject, isName, shaped⟩ => by
      simp only [pieces, List.forall_mem_append, List.forall_mem_cons]
      exact ⟨⟨object.ordinary_of_shaped shapedObject, Piece.ordinary_ofSymbol _,
          Piece.ordinary_of_isIdentifier isName, nofun⟩,
        Piece.ordinary_ofSymbol _, value.ordinary_of_shaped shaped⟩
  | .thisRef _ keyword, isThis => by
      have isThis : keyword.kind = .keyword .thisWord := isThis
      simp [pieces, Piece.Ordinary, Piece.kind, isThis]
  | .superRef _ keyword method, ⟨isSuper, isName⟩ => by
      have ordinary : (Piece.kept keyword).Ordinary := by
        simp [Piece.Ordinary, Piece.kind, isSuper]
      simp only [pieces, List.forall_mem_cons]
      exact ⟨ordinary, Piece.ordinary_ofSymbol _, Piece.ordinary_of_isIdentifier
        isName, nofun⟩

/-- Expressions of the grammar's shape are written with ordinary tokens. -/
theorem Expr.ordinary_of_shapedAll :
    (values : List Expr) → Expr.ShapedAll values →
      ∀ list ∈ Expr.piecesAll values, ∀ piece ∈ list, piece.Ordinary
  | [], _ => nofun
  | value :: values, ⟨shaped, shapedAll⟩ =>
      List.forall_mem_cons.mpr
        ⟨value.ordinary_of_shaped shaped,
          Expr.ordinary_of_shapedAll values shapedAll⟩

end

mutual

/-- A statement of the grammar's shape is written with ordinary tokens. -/
theorem Stmt.ordinary_of_shaped :
    (value : Stmt) → value.Shaped → ∀ piece ∈ value.pieces, piece.Ordinary
  | .print value, shaped => by
      simpa [Stmt.pieces, or_imp, forall_and] using value.ordinary_of_shaped
        shaped
  | .expression value, shaped => by
      simpa [Stmt.pieces, or_imp, forall_and] using value.ordinary_of_shaped
        shaped
  | .varDecl name none, ⟨isName, _⟩ => by
      simpa [Stmt.pieces,
        Expr.initializerPieces] using Piece.ordinary_of_isIdentifier isName
  | .varDecl name (some value), ⟨isName, shaped⟩ => by
      simpa [Stmt.pieces, Expr.initializerPieces, or_imp, forall_and] using
        ⟨Piece.ordinary_of_isIdentifier isName, value.ordinary_of_shaped
          (shaped value rfl)⟩
  | .block body, shaped => by
      simpa [Stmt.pieces, or_imp, forall_and] using Stmt.ordinary_of_shapedAll
        body shaped
  | .conditional condition thenBranch none, ⟨shaped, _, shapedThen⟩ => by
      simpa [Stmt.pieces, or_imp, forall_and] using
        ⟨condition.ordinary_of_shaped shaped,
          thenBranch.ordinary_of_shaped shapedThen⟩
  | .conditional condition thenBranch (some elseBranch), shaped => by
      obtain ⟨shaped, _, shapedThen, _, _, shapedElse⟩ := shaped
      simpa [Stmt.pieces, or_imp, forall_and] using
        ⟨condition.ordinary_of_shaped shaped,
          thenBranch.ordinary_of_shaped shapedThen,
          elseBranch.ordinary_of_shaped shapedElse⟩
  | .loop condition body, ⟨shaped, _, shapedBody⟩ => by
      simpa [Stmt.pieces, or_imp, forall_and] using
        ⟨condition.ordinary_of_shaped shaped,
          body.ordinary_of_shaped shapedBody⟩
  | .funDecl declaration, shaped => by
      simpa [Stmt.pieces, or_imp,
        forall_and] using declaration.ordinary_of_shaped shaped
  | .ret keyword value, ⟨isReturn, shaped⟩ => by
      have ordinary : (Piece.kept keyword).Ordinary := by
        simp [Piece.Ordinary, Piece.kind, isReturn]
      cases value with
      | none => simpa [Stmt.pieces, Expr.optionalPieces] using ordinary
      | some value =>
          simpa [Stmt.pieces, Expr.optionalPieces, or_imp, forall_and] using
            ⟨ordinary, value.ordinary_of_shaped (shaped value rfl)⟩
  | .classDecl name none methods, ⟨isName, _, shaped⟩ => by
      simpa [Stmt.pieces, SuperclassRef.pieces, or_imp, forall_and] using
        ⟨Piece.ordinary_of_isIdentifier isName,
          FunctionDecl.ordinary_of_shapedAll methods shaped⟩
  | .classDecl name (some superclass) methods, ⟨isName, isParent, shaped⟩ => by
      simpa [Stmt.pieces, SuperclassRef.pieces, or_imp, forall_and] using
        ⟨Piece.ordinary_of_isIdentifier isName,
          Piece.ordinary_of_isIdentifier (isParent superclass rfl),
          FunctionDecl.ordinary_of_shapedAll methods shaped⟩
  | .require keyword path, isRequire => by
      have isRequire : keyword.kind = .keyword .requireWord := isRequire
      simp [Stmt.pieces, Piece.Ordinary, Piece.kind, Piece.ofSymbol, isRequire]

/-- Statements of the grammar's shape are written with ordinary tokens. -/
theorem Stmt.ordinary_of_shapedAll :
    (values : List Stmt) → Stmt.ShapedAll values →
      ∀ piece ∈ Stmt.piecesAll values, piece.Ordinary
  | [], _ => nofun
  | value :: values, ⟨shaped, shapedAll⟩ =>
      List.forall_mem_append.mpr
        ⟨value.ordinary_of_shaped shaped,
          Stmt.ordinary_of_shapedAll values shapedAll⟩

/-- A function of the grammar's shape is written with ordinary tokens. -/
theorem FunctionDecl.ordinary_of_shaped :
    (value : FunctionDecl) → value.Shaped → ∀ piece ∈ value.pieces,
      piece.Ordinary
  | ⟨name, params, body⟩, ⟨isName, areNames, _, shaped⟩ => by
      have ordinaryParams :
          ∀ list ∈ params.map (fun param => [Piece.kept param]),
          ∀ piece ∈ list, piece.Ordinary := by
        simpa using fun param member =>
          Piece.ordinary_of_isIdentifier (areNames param member)
      simpa [FunctionDecl.pieces, or_imp, forall_and] using
        ⟨Piece.ordinary_of_isIdentifier isName,
          Piece.ordinary_separated ordinaryParams,
          Stmt.ordinary_of_shapedAll body shaped⟩

/-- Functions of the grammar's shape are written with ordinary tokens. -/
theorem FunctionDecl.ordinary_of_shapedAll :
    (values : List FunctionDecl) → FunctionDecl.ShapedAll values →
      ∀ piece ∈ FunctionDecl.piecesAll values, piece.Ordinary
  | [], _ => nofun
  | value :: values, ⟨shaped, shapedAll⟩ =>
      List.forall_mem_append.mpr
        ⟨value.ordinary_of_shaped shaped, FunctionDecl.ordinary_of_shapedAll
          values shapedAll⟩

end

/-- Samples of what a tree of the grammar's shape is written with are the tokens
of a source without `for`, and spell the tree. -/
theorem spells_samples
    {statements : List Stmt}
    (shaped : Stmt.ShapedAll statements) :
    Sealed ((Stmt.piecesAll statements).map Piece.sample) ⟨.endOfInput, "", 1⟩ ∧
      NoFor ((Stmt.piecesAll statements).map Piece.sample) ∧
      Spells ((Stmt.piecesAll statements).map Piece.sample ++
        [⟨.endOfInput, "", 1⟩])
        statements := by
  have sampled : ∀ token ∈ (Stmt.piecesAll statements).map Piece.sample,
      token.kind ≠ .endOfInput ∧ token.kind ≠ .keyword .forWord := by
    rw [List.forall_mem_map]
    intro piece member
    rw [piece.kind_sample]
    exact Stmt.ordinary_of_shapedAll statements shaped piece member
  exact ⟨⟨rfl, fun token member => (sampled token member).1⟩,
    fun token member => (sampled token member).2, shaped,
    (Piece.fit_sample _).append (.cons rfl .nil)⟩

/-- What the parser makes of the tokens of a source without `for`, up to
identities, are the trees that the tokens spell. -/
theorem parses_iff_spells
    {body : List Token}
    {finish : Token}
    (isSealed : Sealed body finish)
    (noFor : NoFor body)
    (first : NodeId)
    (statements : List Stmt) :
    (∃ parsed next, parseProgram (body ++ [finish]) first = (.ok parsed, next) ∧
        Stmt.unnumberedAll parsed = Stmt.unnumberedAll statements) ↔
      Spells (body ++ [finish]) statements := by
  constructor
  · rintro ⟨parsed, next, parses, same⟩
    have derives :=
      (parseProgram_eq_ok_iff isSealed first next parsed).mp parses
    obtain ⟨shaped, fit⟩ := derives.tells noFor
    have sameShape : Stmt.ShapedAll parsed ↔ Stmt.ShapedAll statements := by
      rw [← Stmt.shapedAll_mapped (fun _ => 0) parsed,
        ← Stmt.shapedAll_mapped (fun _ => 0) statements]
      exact iff_of_eq (congrArg Stmt.ShapedAll same)
    have samePieces : Stmt.piecesAll parsed = Stmt.piecesAll statements := by
      rw [← Stmt.piecesAll_mapped (fun _ => 0) parsed,
        ← Stmt.piecesAll_mapped (fun _ => 0) statements]
      exact congrArg Stmt.piecesAll same
    exact ⟨sameShape.mp shaped, fit_concat_iff.mpr
      ⟨samePieces ▸ fit, isSealed.isEnd⟩⟩
  · rintro ⟨shaped, fit⟩
    obtain ⟨fitBody, _⟩ := fit_concat_iff.mp fit
    obtain ⟨parsed, next, same, derives⟩ :=
      Stmt.derives_of_shapedAll statements shaped fitBody first
    exact ⟨parsed, next, (parseProgram_eq_ok_iff isSealed first next parsed).mpr
      derives, same⟩

/-- The parser accepts exactly its grammar.  On the tokens of a source without
`for` it yields a program exactly if, up to identities, the program has the
shape of the grammar and is written with just these tokens; there is at most one
such program; and every program of that shape is written with the tokens of some
source. -/
theorem parser_accepts_exactly_its_grammar
    {body : List Token}
    {finish : Token}
    (isSealed : Sealed body finish)
    (noFor : NoFor body)
    (first : NodeId)
    (statements : List Stmt) :
    ((∃ parsed next, parseProgram (body ++ [finish]) first =
      (.ok parsed, next) ∧
        Stmt.unnumberedAll parsed = Stmt.unnumberedAll statements) ↔
      Spells (body ++ [finish]) statements) ∧
    (∀ other, Spells (body ++ [finish]) statements →
      Spells (body ++ [finish]) other →
      Stmt.unnumberedAll other = Stmt.unnumberedAll statements) ∧
    (Stmt.ShapedAll statements →
      ∃ tokens last, Sealed tokens last ∧ NoFor tokens ∧
        Spells (tokens ++ [last]) statements) := by
  refine ⟨parses_iff_spells isSealed noFor first statements, ?_,
    fun shaped => ⟨_, _, spells_samples shaped⟩⟩
  intro other spells spellsOther
  obtain ⟨parsed, next, parses, same⟩ :=
    (parses_iff_spells isSealed noFor first statements).mpr spells
  obtain ⟨parsedOther, nextOther, parsesOther, sameOther⟩ :=
    (parses_iff_spells isSealed noFor first other).mpr spellsOther
  -- The parser is a function, so both programs are what it yields.
  cases parses.symm.trans parsesOther
  exact sameOther.symm.trans same

/-- Two conditions in a row, of which the second one has the `else`. -/
def nestedConditions : List Stmt :=
  let name (text : String) : Expr := .reference 0 ⟨.identifier text, text, 1⟩
  [.conditional (name "a")
    (.conditional (name "b") (.expression (name "c"))
      (some (.expression (name "d")))) none]

/-- An `else` after two conditions belongs to the second of them. -/
theorem parser_accepts_exactly_its_grammar_beside_else :
    ∃ parsed next,
      parseProgram
          ((Stmt.piecesAll nestedConditions).map Piece.sample ++
            [⟨.endOfInput, "", 1⟩]) 0 =
        (.ok parsed, next) ∧
      Stmt.unnumberedAll parsed = Stmt.unnumberedAll nestedConditions := by
  have shaped : Stmt.ShapedAll nestedConditions :=
    ⟨⟨⟨"a", rfl⟩, rfl, ⟨"b", rfl⟩, rfl, ⟨"c", rfl⟩, rfl, rfl, ⟨"d", rfl⟩⟩,
      trivial⟩
  obtain ⟨isSealed, noFor, spells⟩ := spells_samples shaped
  exact (parser_accepts_exactly_its_grammar isSealed noFor 0
    nestedConditions).1.mpr spells

end LoxScript
