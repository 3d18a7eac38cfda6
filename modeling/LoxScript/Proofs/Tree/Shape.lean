import Mathlib.Data.List.Forall2
import LoxScript.Proofs.Tree.Derivation
import LoxScript.Proofs.Tree.Mapped

namespace LoxScript

/-!
# The shape of a program

What a program looks like, said of its tree alone: how tightly the operands of
an operator have to bind, what can stand where, and which tokens the tree is
written with.  None of this mentions how a tree is found from tokens.
-/

/-- What a tree says of one of the tokens it is written with. -/
inductive Piece where
  /-- The token, which the tree keeps. -/
  | kept (token : Token)
  /-- Some token of this kind. -/
  | fixed (kind : Kind)

/-- The token is what the tree says of it. -/
def Piece.Fits : Piece → Token → Prop
  | .kept token, other => token = other
  | .fixed kind, other => other.kind = kind

/-- The piece that is a symbol. -/
def Piece.ofSymbol (symbol : Symbol) : Piece :=
  .fixed (.symbol symbol)

/-- The piece that is a reserved word. -/
def Piece.ofKeyword (keyword : Keyword) : Piece :=
  .fixed (.keyword keyword)

/-- Lists of pieces with commas between them. -/
def Piece.separated : List (List Piece) → List Piece
  | [] => []
  | [last] => last
  | first :: second :: rest =>
      first ++ .ofSymbol .comma :: separated (second :: rest)

/-- The tokens, one by one, are what the pieces say. -/
abbrev Fit : List Piece → List Token → Prop :=
  List.Forall₂ Piece.Fits

/-- The kind of the token that a literal is written with. -/
def Literal.kind : Literal → Kind
  | .nil => .keyword .nilWord
  | .boolean value => .keyword (if value then .trueWord else .falseWord)
  | .number value => .number value
  | .string value => .string value

mutual

/-- What an expression is written with, in order. -/
def Expr.pieces : Expr → List Piece
  | .literal value => [.fixed value.kind]
  | .grouping inner =>
      .ofSymbol .leftParen :: inner.pieces ++ [.ofSymbol .rightParen]
  | .unary operator operand => .kept operator :: operand.pieces
  | .binary left operator right => left.pieces ++ .kept operator :: right.pieces
  | .logical left operator right =>
      left.pieces ++ .kept operator :: right.pieces
  | .reference _ name => [.kept name]
  | .assign _ name value => .kept name :: .ofSymbol .equal :: value.pieces
  | .call callee paren arguments =>
      callee.pieces ++ .ofSymbol .leftParen ::
        Piece.separated (Expr.piecesAll arguments) ++ [.kept paren]
  | .get object name => object.pieces ++ [.ofSymbol .dot, .kept name]
  | .set object name value =>
      object.pieces ++ [.ofSymbol .dot, .kept name] ++ .ofSymbol .equal ::
        value.pieces
  | .thisRef _ keyword => [.kept keyword]
  | .superRef _ keyword method => [.kept keyword, .ofSymbol .dot, .kept method]

/-- What several expressions are written with, one by one. -/
def Expr.piecesAll : List Expr → List (List Piece)
  | [] => []
  | first :: rest => first.pieces :: Expr.piecesAll rest

end

/-- What the superclass of a class is written with. -/
def SuperclassRef.pieces : Option SuperclassRef → List Piece
  | none => []
  | some superclass => [.ofSymbol .less, .kept superclass.name]

/-- What the initial value of a variable is written with. -/
def Expr.initializerPieces : Option Expr → List Piece
  | none => []
  | some value => .ofSymbol .equal :: value.pieces

/-- What an expression that may be missing is written with. -/
def Expr.optionalPieces : Option Expr → List Piece
  | none => []
  | some value => value.pieces

mutual

/-- What a statement is written with, in order. -/
def Stmt.pieces : Stmt → List Piece
  | .print value =>
      .ofKeyword .printWord :: value.pieces ++ [.ofSymbol .semicolon]
  | .expression value => value.pieces ++ [.ofSymbol .semicolon]
  | .varDecl name initializer =>
      .ofKeyword .varWord :: .kept name :: Expr.initializerPieces initializer ++
        [.ofSymbol .semicolon]
  | .block body =>
      .ofSymbol .leftBrace :: Stmt.piecesAll body ++ [.ofSymbol .rightBrace]
  | .conditional condition thenBranch none =>
      .ofKeyword .ifWord :: .ofSymbol .leftParen :: condition.pieces ++
        .ofSymbol .rightParen :: thenBranch.pieces
  | .conditional condition thenBranch (some elseBranch) =>
      .ofKeyword .ifWord :: .ofSymbol .leftParen :: condition.pieces ++
        .ofSymbol .rightParen :: thenBranch.pieces ++ .ofKeyword .elseWord ::
        elseBranch.pieces
  | .loop condition body =>
      .ofKeyword .whileWord :: .ofSymbol .leftParen :: condition.pieces ++
        .ofSymbol .rightParen :: body.pieces
  | .funDecl declaration => .ofKeyword .funWord :: declaration.pieces
  | .ret keyword value =>
      .kept keyword :: Expr.optionalPieces value ++ [.ofSymbol .semicolon]
  | .classDecl name superclass methods =>
      .ofKeyword .classWord :: .kept name :: SuperclassRef.pieces superclass ++
        .ofSymbol .leftBrace :: FunctionDecl.piecesAll methods ++
        [.ofSymbol .rightBrace]
  | .require keyword path =>
      [.kept keyword, .fixed (.string path), .ofSymbol .semicolon]

/-- What several statements are written with, in order. -/
def Stmt.piecesAll : List Stmt → List Piece
  | [] => []
  | first :: rest => first.pieces ++ Stmt.piecesAll rest

/-- What a function is written with from its name on, in order. -/
def FunctionDecl.pieces : FunctionDecl → List Piece
  | ⟨name, params, body⟩ =>
      .kept name :: .ofSymbol .leftParen ::
        Piece.separated (params.map fun param => [.kept param]) ++
        .ofSymbol .rightParen :: .ofSymbol .leftBrace :: Stmt.piecesAll body ++
        [.ofSymbol .rightBrace]

/-- What several methods are written with, in order. -/
def FunctionDecl.piecesAll : List FunctionDecl → List Piece
  | [] => []
  | first :: rest => first.pieces ++ FunctionDecl.piecesAll rest

end

/-- How tightly an expression binds: assignments not at all, operators as their
level does, and calls, property accesses and what stands for itself as tightly
as can be. -/
def Expr.rank : Expr → Nat
  | .assign _ _ _ => 0
  | .set _ _ _ => 0
  | .logical _ operator _ => (operator.kind.level?.map Level.rank).getD 0
  | .binary _ operator _ => (operator.kind.level?.map Level.rank).getD 0
  | .unary _ _ => 7
  | _ => 8

/-- Whether the operators of a level may leave their right operand aside. -/
def Level.isLogical : Level → Bool
  | .disjunction => true
  | .conjunction => true
  | _ => false

mutual

/-- The expression has the shape of the grammar. -/
def Expr.Shaped : Expr → Prop
  | .literal _ => True
  | .grouping inner => inner.Shaped
  | .unary operator operand =>
      (operator.kind = .symbol .bang ∨ operator.kind = .symbol .minus) ∧
        7 ≤ operand.rank ∧ operand.Shaped
  -- Equal operators join from left to right: only the left operand may be of
  -- the same level.
  | .binary left operator right =>
      ∃ level, operator.kind.level? = some level ∧ level.isLogical = false ∧
        level.rank ≤ left.rank ∧ left.Shaped ∧ level.rank < right.rank ∧
          right.Shaped
  | .logical left operator right =>
      ∃ level, operator.kind.level? = some level ∧ level.isLogical = true ∧
        level.rank ≤ left.rank ∧ left.Shaped ∧ level.rank < right.rank ∧
          right.Shaped
  | .reference _ name => name.IsIdentifier
  | .assign _ name value => name.IsIdentifier ∧ value.Shaped
  | .call callee paren arguments =>
      8 ≤ callee.rank ∧ callee.Shaped ∧ paren.kind = .symbol .rightParen ∧
        arguments.length ≤ Grammar.argumentLimit ∧ Expr.ShapedAll arguments
  | .get object name => 8 ≤ object.rank ∧ object.Shaped ∧ name.IsIdentifier
  | .set object name value =>
      8 ≤ object.rank ∧ object.Shaped ∧ name.IsIdentifier ∧ value.Shaped
  | .thisRef _ keyword => keyword.kind = .keyword .thisWord
  | .superRef _ keyword method =>
      keyword.kind = .keyword .superWord ∧ method.IsIdentifier

/-- All expressions have the shape of the grammar. -/
def Expr.ShapedAll : List Expr → Prop
  | [] => True
  | first :: rest => first.Shaped ∧ Expr.ShapedAll rest

end

/-- Whether the statement declares something in the scope it stands in. -/
def Stmt.declares : Stmt → Bool
  | .varDecl _ _ => true
  | .funDecl _ => true
  | .classDecl _ _ _ => true
  | _ => false

/-- Whether the statement ends with an `if` that has no `else`. -/
def Stmt.endsOpen : Stmt → Bool
  | .conditional _ _ none => true
  | .conditional _ _ (some elseBranch) => elseBranch.endsOpen
  | .loop _ body => body.endsOpen
  | _ => false

mutual

/-- The statement has the shape of the grammar. -/
def Stmt.Shaped : Stmt → Prop
  | .print value => value.Shaped
  | .expression value => value.Shaped
  | .varDecl name initializer =>
      name.IsIdentifier ∧ ∀ value ∈ initializer, value.Shaped
  | .block body => Stmt.ShapedAll body
  | .conditional condition thenBranch none =>
      condition.Shaped ∧ thenBranch.declares = false ∧ thenBranch.Shaped
  -- An `else` belongs to the nearest `if` without one, so none may end the
  -- first branch.
  | .conditional condition thenBranch (some elseBranch) =>
      condition.Shaped ∧ thenBranch.declares = false ∧ thenBranch.Shaped ∧
        thenBranch.endsOpen = false ∧ elseBranch.declares = false ∧
          elseBranch.Shaped
  | .loop condition body =>
      condition.Shaped ∧ body.declares = false ∧ body.Shaped
  | .funDecl declaration => declaration.Shaped
  | .ret keyword value =>
      keyword.kind = .keyword .returnWord ∧ ∀ result ∈ value, result.Shaped
  | .classDecl name superclass methods =>
      name.IsIdentifier ∧ (∀ parent ∈ superclass, parent.name.IsIdentifier) ∧
        FunctionDecl.ShapedAll methods
  | .require keyword _ => keyword.kind = .keyword .requireWord

/-- All statements have the shape of the grammar. -/
def Stmt.ShapedAll : List Stmt → Prop
  | [] => True
  | first :: rest => first.Shaped ∧ Stmt.ShapedAll rest

/-- The function has the shape of the grammar. -/
def FunctionDecl.Shaped : FunctionDecl → Prop
  | ⟨name, params, body⟩ =>
      name.IsIdentifier ∧ (∀ param ∈ params, param.IsIdentifier) ∧
        params.length ≤ Grammar.argumentLimit ∧ Stmt.ShapedAll body

/-- All functions have the shape of the grammar. -/
def FunctionDecl.ShapedAll : List FunctionDecl → Prop
  | [] => True
  | first :: rest => first.Shaped ∧ FunctionDecl.ShapedAll rest

end

section Unnumbered

variable (node : NodeId → NodeId)

mutual

/-- What an expression is written with does not depend on its identities. -/
theorem Expr.pieces_mapped :
    (value : Expr) → (value.mapped node id).pieces = value.pieces
  | .literal _ => rfl
  | .grouping inner => by simp only [mapped, pieces, inner.pieces_mapped]
  | .unary operator operand => by
      simp only [mapped, pieces, operand.pieces_mapped, id]
  | .binary left operator right => by
      simp only [mapped, pieces, left.pieces_mapped, right.pieces_mapped, id]
  | .logical left operator right => by
      simp only [mapped, pieces, left.pieces_mapped, right.pieces_mapped, id]
  | .reference _ _ => rfl
  | .assign _ name value => by
      simp only [mapped, pieces, value.pieces_mapped, id]
  | .call callee paren arguments => by
      simp only [mapped, pieces, callee.pieces_mapped,
        Expr.piecesAll_mapped arguments, id]
  | .get object name => by simp only [mapped, pieces, object.pieces_mapped, id]
  | .set object name value => by
      simp only [mapped, pieces, object.pieces_mapped, value.pieces_mapped, id]
  | .thisRef _ _ => rfl
  | .superRef _ _ _ => rfl

/-- What several expressions are written with does not depend on their
identities. -/
theorem Expr.piecesAll_mapped :
    (values : List Expr) →
      Expr.piecesAll (Expr.mappedAll node id values) = Expr.piecesAll values
  | [] => rfl
  | value :: values => by
      simp only [mappedAll, piecesAll, value.pieces_mapped,
        Expr.piecesAll_mapped values]

end

/-- How tightly an expression binds does not depend on its identities. -/
theorem Expr.rank_mapped
    (value : Expr) :
    (value.mapped node id).rank = value.rank := by
  cases value <;> rfl

mutual

/-- The shape of an expression does not depend on its identities. -/
theorem Expr.shaped_mapped :
    (value : Expr) → ((value.mapped node id).Shaped ↔ value.Shaped)
  | .literal _ => Iff.rfl
  | .grouping inner => by simp only [mapped, Shaped, inner.shaped_mapped]
  | .unary operator operand => by
      simp only [mapped, Shaped, operand.shaped_mapped, Expr.rank_mapped, id]
  | .binary left operator right => by
      simp only [mapped, Shaped, left.shaped_mapped, right.shaped_mapped,
        Expr.rank_mapped, id]
  | .logical left operator right => by
      simp only [mapped, Shaped, left.shaped_mapped, right.shaped_mapped,
        Expr.rank_mapped, id]
  | .reference _ _ => Iff.rfl
  | .assign _ name value => by
      simp only [mapped, Shaped, value.shaped_mapped, id]
  | .call callee paren arguments => by
      have sameLength : (Expr.mappedAll node id arguments).length =
          arguments.length := by
        rw [Expr.mappedAll_eq_map, List.length_map]
      simp only [mapped, Shaped, callee.shaped_mapped,
        Expr.shapedAll_mapped arguments, Expr.rank_mapped, sameLength, id]
  | .get object name => by
      simp only [mapped, Shaped, object.shaped_mapped, Expr.rank_mapped, id]
  | .set object name value => by
      simp only [mapped, Shaped, object.shaped_mapped, value.shaped_mapped,
        Expr.rank_mapped, id]
  | .thisRef _ _ => Iff.rfl
  | .superRef _ _ _ => Iff.rfl

/-- The shape of several expressions does not depend on their identities. -/
theorem Expr.shapedAll_mapped :
    (values : List Expr) →
      (Expr.ShapedAll (Expr.mappedAll node id values) ↔ Expr.ShapedAll values)
  | [] => Iff.rfl
  | value :: values => by
      simp only [mappedAll, ShapedAll, value.shaped_mapped,
        Expr.shapedAll_mapped values]

end

mutual

/-- What a statement is written with does not depend on its identities. -/
theorem Stmt.pieces_mapped :
    (value : Stmt) → (value.mapped node id).pieces = value.pieces
  | .print value => by simp only [Stmt.mapped, Stmt.pieces, value.pieces_mapped]
  | .expression value => by
      simp only [Stmt.mapped, Stmt.pieces, value.pieces_mapped]
  | .varDecl name none => rfl
  | .varDecl name (some value) => by
      simp only [Stmt.mapped, Stmt.pieces, Option.map_some,
        Expr.initializerPieces, value.pieces_mapped, id]
  | .block body => by
      simp only [Stmt.mapped, Stmt.pieces, Stmt.piecesAll_mapped body]
  | .conditional condition thenBranch none => by
      simp only [Stmt.mapped, Stmt.pieces, condition.pieces_mapped,
        thenBranch.pieces_mapped]
  | .conditional condition thenBranch (some elseBranch) => by
      simp only [Stmt.mapped, Stmt.pieces, condition.pieces_mapped,
        thenBranch.pieces_mapped, elseBranch.pieces_mapped]
  | .loop condition body => by
      simp only [Stmt.mapped, Stmt.pieces, condition.pieces_mapped,
        body.pieces_mapped]
  | .funDecl declaration => by
      simp only [Stmt.mapped, Stmt.pieces, declaration.pieces_mapped]
  | .ret keyword none => rfl
  | .ret keyword (some value) => by
      simp only [Stmt.mapped, Stmt.pieces, Option.map_some, Expr.optionalPieces,
        value.pieces_mapped, id]
  | .classDecl name none methods => by
      simp only [Stmt.mapped, Stmt.pieces, Option.map_none,
        FunctionDecl.piecesAll_mapped methods, id]
  | .classDecl name (some superclass) methods => by
      simp only [Stmt.mapped, Stmt.pieces, Option.map_some,
        SuperclassRef.pieces, SuperclassRef.mapped,
        FunctionDecl.piecesAll_mapped methods, id]
  | .require _ _ => rfl

/-- What several statements are written with does not depend on their
identities. -/
theorem Stmt.piecesAll_mapped :
    (values : List Stmt) →
      Stmt.piecesAll (Stmt.mappedAll node id values) = Stmt.piecesAll values
  | [] => rfl
  | value :: values => by
      simp only [Stmt.mappedAll, Stmt.piecesAll, value.pieces_mapped,
        Stmt.piecesAll_mapped values]

/-- What a function is written with does not depend on its identities. -/
theorem FunctionDecl.pieces_mapped :
    (value : FunctionDecl) → (value.mapped node id).pieces = value.pieces
  | ⟨name, params, body⟩ => by
      simp only [FunctionDecl.mapped, FunctionDecl.pieces,
        Stmt.piecesAll_mapped body, List.map_id, id]

/-- What several functions are written with does not depend on their
identities. -/
theorem FunctionDecl.piecesAll_mapped :
    (values : List FunctionDecl) →
      FunctionDecl.piecesAll (FunctionDecl.mappedAll node id values) =
        FunctionDecl.piecesAll values
  | [] => rfl
  | value :: values => by
      simp only [FunctionDecl.mappedAll, FunctionDecl.piecesAll,
        value.pieces_mapped, FunctionDecl.piecesAll_mapped values]

end

/-- Whether a statement declares something does not depend on its identities. -/
theorem Stmt.declares_mapped
    (value : Stmt) :
    (value.mapped node id).declares = value.declares := by
  cases value with
  | conditional condition thenBranch elseBranch => cases elseBranch <;> rfl
  | _ => rfl

/-- Whether a statement ends with an open `if` does not depend on its
identities. -/
theorem Stmt.endsOpen_mapped
    (value : Stmt) :
    (value.mapped node id).endsOpen = value.endsOpen := by
  fun_induction Stmt.endsOpen value with
  | case1 => rfl
  | case2 condition thenBranch elseBranch inductionHypothesis =>
      exact inductionHypothesis
  | case3 condition body inductionHypothesis => exact inductionHypothesis
  | case4 value notWhen notConditional notLoop =>
      cases value with
      | conditional condition thenBranch elseBranch =>
          cases elseBranch with
          | none => exact absurd rfl (notWhen _ _)
          | some elseBranch => exact absurd rfl (notConditional _ _ _)
      | loop condition body => exact absurd rfl (notLoop _ _)
      | _ => rfl

mutual

/-- The shape of a statement does not depend on its identities. -/
theorem Stmt.shaped_mapped :
    (value : Stmt) → ((value.mapped node id).Shaped ↔ value.Shaped)
  | .print value => by simp only [Stmt.mapped, Stmt.Shaped, value.shaped_mapped]
  | .expression value => by
      simp only [Stmt.mapped, Stmt.Shaped, value.shaped_mapped]
  | .varDecl name none => by simp [Stmt.mapped, Stmt.Shaped]
  | .varDecl name (some value) => by
      simp [Stmt.mapped, Stmt.Shaped, value.shaped_mapped]
  | .block body => by
      simp only [Stmt.mapped, Stmt.Shaped, Stmt.shapedAll_mapped body]
  | .conditional condition thenBranch none => by
      simp only [Stmt.mapped, Stmt.Shaped, condition.shaped_mapped,
        thenBranch.shaped_mapped, Stmt.declares_mapped]
  | .conditional condition thenBranch (some elseBranch) => by
      simp only [Stmt.mapped, Stmt.Shaped, condition.shaped_mapped,
        thenBranch.shaped_mapped,
        elseBranch.shaped_mapped, Stmt.declares_mapped, Stmt.endsOpen_mapped]
  | .loop condition body => by
      simp only [Stmt.mapped, Stmt.Shaped, condition.shaped_mapped,
        body.shaped_mapped, Stmt.declares_mapped]
  | .funDecl declaration => by
      simp only [Stmt.mapped, Stmt.Shaped, declaration.shaped_mapped]
  | .ret keyword none => by simp [Stmt.mapped, Stmt.Shaped]
  | .ret keyword (some value) => by
      simp [Stmt.mapped, Stmt.Shaped, value.shaped_mapped]
  | .classDecl name none methods => by
      simp [Stmt.mapped, Stmt.Shaped, FunctionDecl.shapedAll_mapped methods]
  | .classDecl name (some superclass) methods => by
      simp [Stmt.mapped, Stmt.Shaped, SuperclassRef.mapped,
        FunctionDecl.shapedAll_mapped methods]
  | .require _ _ => Iff.rfl

/-- The shape of several statements does not depend on their identities. -/
theorem Stmt.shapedAll_mapped :
    (values : List Stmt) →
      (Stmt.ShapedAll (Stmt.mappedAll node id values) ↔ Stmt.ShapedAll values)
  | [] => Iff.rfl
  | value :: values => by
      simp only [Stmt.mappedAll, Stmt.ShapedAll, value.shaped_mapped,
        Stmt.shapedAll_mapped values]

/-- The shape of a function does not depend on its identities. -/
theorem FunctionDecl.shaped_mapped :
    (value : FunctionDecl) → ((value.mapped node id).Shaped ↔ value.Shaped)
  | ⟨name, params, body⟩ => by
      simp only [FunctionDecl.mapped, FunctionDecl.Shaped,
        Stmt.shapedAll_mapped body, List.map_id, id]

/-- The shape of several functions does not depend on their identities. -/
theorem FunctionDecl.shapedAll_mapped :
    (values : List FunctionDecl) →
      (FunctionDecl.ShapedAll (FunctionDecl.mappedAll node id values) ↔
        FunctionDecl.ShapedAll values)
  | [] => Iff.rfl
  | value :: values => by
      simp only [FunctionDecl.mappedAll, FunctionDecl.ShapedAll,
        value.shaped_mapped, FunctionDecl.shapedAll_mapped values]

end

end Unnumbered

end LoxScript
