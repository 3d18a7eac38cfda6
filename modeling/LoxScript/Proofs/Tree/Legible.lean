import LoxScript.Proofs.Compilation
import LoxScript.Proofs.Token.Tiling
import LoxScript.Proofs.Tree.Shape.Derived

namespace LoxScript

/-!
# Expressions that stand in a source

An expression that a source is parsed into, as a whole or as a part of another
one, has the shape of the grammar, and the tokens that it keeps are tokens of
the source.
-/

/-- The expressions that an expression is put together from. -/
def Expr.children : Expr → List Expr
  | .grouping inner => [inner]
  | .unary _ operand => [operand]
  | .binary left _ right => [left, right]
  | .logical left _ right => [left, right]
  | .assign _ _ value => [value]
  | .call callee _ arguments => callee :: arguments
  | .get object _ => [object]
  | .set object _ value => [object, value]
  | .literal _ => []
  | .reference _ _ => []
  | .thisRef _ _ => []
  | .superRef _ _ _ => []

/-- The expression is the whole one or a part of it. -/
inductive Expr.Holds (whole : Expr) : Expr → Prop where
  | here : Holds whole whole
  | child {part inner} : Holds whole part → inner ∈ part.children →
    Holds whole inner

mutual

/-- The expressions of a statement that are no parts of others, with the name of
a superclass as one of them. -/
def Stmt.roots : Stmt → List Expr
  | .print value => [value]
  | .expression value => [value]
  | .varDecl _ initializer => initializer.toList
  | .block body => Stmt.rootsAll body
  | .conditional condition thenBranch none => condition :: thenBranch.roots
  | .conditional condition thenBranch (some elseBranch) =>
      condition :: thenBranch.roots ++ elseBranch.roots
  | .loop condition body => condition :: body.roots
  | .funDecl declaration => declaration.roots
  | .ret _ value => value.toList
  | .classDecl _ superclass methods =>
      (superclass.map SuperclassRef.expr).toList ++
        FunctionDecl.rootsAll methods
  | .require _ _ => []

/-- The expressions of several statements. -/
def Stmt.rootsAll : List Stmt → List Expr
  | [] => []
  | first :: rest => first.roots ++ Stmt.rootsAll rest

/-- The expressions of a function. -/
def FunctionDecl.roots : FunctionDecl → List Expr
  | ⟨_, _, body⟩ => Stmt.rootsAll body

/-- The expressions of several functions. -/
def FunctionDecl.rootsAll : List FunctionDecl → List Expr
  | [] => []
  | first :: rest => first.roots ++ FunctionDecl.rootsAll rest

end

/-- A source is parsed into a program that the expression is a part of. -/
def Expr.StandsIn (value : Expr) (source : ByteArray) : Prop :=
  ∃ tokens first statements next, Program.tokens source = .ok tokens ∧
    parseProgram tokens first = (.ok statements, next) ∧
    ∃ root ∈ Stmt.rootsAll statements, root.Holds value

/-- Every number that is written out in the expression is finite. -/
def Expr.HasFiniteNumbers (value : Expr) : Prop :=
  ∀ number, value.Holds (.literal (.number number)) → number.isFinite = true

/-- The expression has the shape of the grammar, and keeps none but these
tokens. -/
structure Expr.DrawnFrom (tokens : List Token) (value : Expr) : Prop where
  shaped : value.Shaped
  kept : ∀ token, Piece.kept token ∈ value.pieces → token ∈ tokens

/-- Each of the expressions has the shape of the grammar, and keeps none but
these tokens. -/
def Expr.AllDrawnFrom (tokens : List Token) (values : List Expr) : Prop :=
  ∀ value ∈ values, value.DrawnFrom tokens

section Parts

theorem Expr.shapedAll_iff
    (values : List Expr) :
    Expr.ShapedAll values ↔ ∀ value ∈ values, value.Shaped := by
  induction values with
  | nil => simp [Expr.ShapedAll]
  | cons value values inductionHypothesis =>
      simp [Expr.ShapedAll, inductionHypothesis]

theorem Expr.piecesAll_eq_map
    (values : List Expr) :
    Expr.piecesAll values = values.map Expr.pieces := by
  induction values with
  | nil => rfl
  | cons value values inductionHypothesis =>
      simp [Expr.piecesAll, inductionHypothesis]

/-- What is in one of several lists is in the lists with commas between them. -/
theorem Piece.mem_separated
    {piece : Piece}
    {part : List Piece}
    {parts : List (List Piece)}
    (inParts : part ∈ parts)
    (inPart : piece ∈ part) :
    piece ∈ Piece.separated parts := by
  induction parts with
  | nil => cases inParts
  | cons first rest inductionHypothesis =>
      cases rest with
      | nil =>
          cases List.mem_singleton.mp inParts
          exact inPart
      | cons second further =>
          simp only [separated, List.mem_append, List.mem_cons]
          rcases List.mem_cons.mp inParts with rfl | later
          · exact .inl inPart
          · exact .inr (.inr (inductionHypothesis later))

variable {whole inner : Expr}

/-- A part of an expression has the shape of the grammar if the whole one
has. -/
theorem Expr.shaped_of_mem_children
    (shaped : whole.Shaped)
    (member : inner ∈ whole.children) :
    inner.Shaped := by
  cases whole with
  | literal | reference | thisRef | superRef => cases member
  | grouping inner =>
      cases List.mem_singleton.mp member
      exact shaped
  | unary operator operand =>
      cases List.mem_singleton.mp member
      exact shaped.2.2
  | binary left operator right | logical left operator right =>
      obtain ⟨_, _, _, _, shapedLeft, _, shapedRight⟩ := shaped
      simp only [children, List.mem_cons, List.not_mem_nil, or_false] at member
      rcases member with rfl | rfl
      · exact shapedLeft
      · exact shapedRight
  | assign id name value =>
      cases List.mem_singleton.mp member
      exact shaped.2
  | call callee paren arguments =>
      obtain ⟨_, shapedCallee, _, _, shapedAll⟩ := shaped
      rcases List.mem_cons.mp member with rfl | isArgument
      · exact shapedCallee
      · exact (Expr.shapedAll_iff arguments).mp shapedAll inner isArgument
  | get object name =>
      cases List.mem_singleton.mp member
      exact shaped.2.1
  | set object name value =>
      obtain ⟨_, shapedObject, _, shapedValue⟩ := shaped
      simp only [children, List.mem_cons, List.not_mem_nil, or_false] at member
      rcases member with rfl | rfl
      · exact shapedObject
      · exact shapedValue

/-- An expression is written with all that its parts are written with. -/
theorem Expr.pieces_subset_of_mem_children
    (member : inner ∈ whole.children) :
    inner.pieces ⊆ whole.pieces := by
  intro piece inInner
  cases whole with
  | literal | reference | thisRef | superRef => cases member
  | call callee paren arguments =>
      rcases List.mem_cons.mp member with rfl | isArgument
      · simp [pieces, inInner]
      · have inParts : inner.pieces ∈ Expr.piecesAll arguments := by
          rw [Expr.piecesAll_eq_map]
          exact List.mem_map_of_mem isArgument
        simp [pieces, Piece.mem_separated inParts inInner]
  | _ =>
      simp only [children, List.mem_cons, List.not_mem_nil, or_false] at member
      rcases member with rfl | rfl <;> simp [pieces, inInner]

/-- What an expression holds, it holds as a part of one that it is put together
from. -/
theorem Expr.Holds.ofChild
    (member : inner ∈ whole.children)
    {part : Expr}
    (holds : inner.Holds part) :
    whole.Holds part := by
  induction holds with
  | here => exact .child .here member
  | child _ isChild inductionHypothesis =>
      exact .child inductionHypothesis isChild

/-- What an expression holds is the expression, or held by one that it is put
together from. -/
theorem Expr.Holds.cases_children
    {part : Expr}
    (holds : whole.Holds part) :
    part = whole ∨ ∃ inner ∈ whole.children, inner.Holds part := by
  induction holds with
  | here => exact .inl rfl
  | child _ isChild inductionHypothesis =>
      rcases inductionHypothesis with rfl | ⟨inner, member, holds⟩
      · exact .inr ⟨_, isChild, .here⟩
      · exact .inr ⟨inner, member, holds.child isChild⟩

/-- The numbers of an expression that is no number are those of its parts. -/
theorem Expr.HasFiniteNumbers.ofChildren
    (notNumber : ∀ number, whole ≠ .literal (.number number))
    (finite : ∀ inner ∈ whole.children, inner.HasFiniteNumbers) :
    whole.HasFiniteNumbers := by
  intro number holds
  rcases holds.cases_children with same | ⟨inner, member, holdsInner⟩
  · exact absurd same.symm (notNumber number)
  · exact finite inner member number holdsInner

/-- What an expression holds keeps no other tokens. -/
theorem Expr.DrawnFrom.ofHolds
    {tokens : List Token}
    (drawn : whole.DrawnFrom tokens)
    (holds : whole.Holds inner) :
    inner.DrawnFrom tokens := by
  induction holds with
  | here => exact drawn
  | child _ member inductionHypothesis =>
      obtain ⟨shaped, kept⟩ := inductionHypothesis
      exact ⟨Expr.shaped_of_mem_children shaped member, fun token inPieces =>
        kept token (Expr.pieces_subset_of_mem_children member inPieces)⟩

end Parts

section Derivations

variable {tokens others : List Token} {value : Expr} {first next : NodeId}

/-- What fits the tokens keeps none but these. -/
theorem Fit.mem_of_kept
    {pieces : List Piece}
    (fit : Fit pieces tokens)
    {token : Token}
    (member : Piece.kept token ∈ pieces) :
    token ∈ tokens := by
  induction fit with
  | nil => cases member
  | cons fits _ inductionHypothesis =>
      rcases List.mem_cons.mp member with rfl | later
      · exact List.mem_cons.mpr (.inl fits)
      · exact List.mem_cons_of_mem _ (inductionHypothesis later)

/-- What keeps some of the tokens keeps none but tokens of a greater list. -/
theorem Expr.DrawnFrom.mono
    (drawn : value.DrawnFrom tokens)
    (subset : tokens ⊆ others) :
    value.DrawnFrom others :=
  ⟨drawn.shaped, fun token member => subset (drawn.kept token member)⟩

/-- An expression keeps tokens that it is derived from. -/
theorem Phrase.Derives.drawnFrom
    {rank : Nat}
    (derives : Phrase.Derives (.expr rank value) first tokens next) :
    value.DrawnFrom tokens := by
  obtain ⟨shaped, -, fit⟩ := derives.tells
  exact ⟨shaped, fun _ member => fit.mem_of_kept member⟩

/-- Several expressions that keep none but these tokens keep none but tokens of
a greater list. -/
theorem Expr.AllDrawnFrom.mono
    {values : List Expr}
    (drawn : Expr.AllDrawnFrom tokens values)
    (subset : tokens ⊆ others) :
    Expr.AllDrawnFrom others values :=
  fun value member => (drawn value member).mono subset

/-- An expression that may be missing. -/
theorem DerivesOptional.drawnFrom
    {optional : Option Expr}
    (derives : DerivesOptional optional first tokens next) :
    Expr.AllDrawnFrom tokens optional.toList := by
  cases derives with
  | absent => nofun
  | present derives => exact List.forall_mem_singleton.mpr derives.drawnFrom

/-- The declaration of a variable. -/
theorem DerivesVariable.drawnFrom
    {statement : Stmt}
    (derives : DerivesVariable statement first tokens next) :
    Expr.AllDrawnFrom tokens statement.roots := by
  cases derives with
  | bare => nofun
  | initialized _ _ derives _ =>
      exact List.forall_mem_singleton.mpr
        (derives.drawnFrom.mono fun _ inside => by simp [inside])

/-- The first clause of a `for` statement. -/
theorem DerivesInitializer.drawnFrom
    {initializer : Option Stmt}
    (derives : DerivesInitializer initializer first tokens next) :
    ∀ statement ∈ initializer, Expr.AllDrawnFrom tokens statement.roots := by
  cases derives with
  | absent => nofun
  | declared _ derives =>
      rintro _ ⟨⟩
      exact derives.drawnFrom.mono (List.subset_cons_self _ _)
  | evaluated derives _ =>
      rintro _ ⟨⟩
      exact List.forall_mem_singleton.mpr
        (derives.drawnFrom.mono (List.subset_append_left _ _))

/-- The superclass of a class. -/
theorem DerivesSuperclass.drawnFrom
    {superclass : Option SuperclassRef}
    (derives : DerivesSuperclass superclass first tokens next) :
    Expr.AllDrawnFrom tokens (superclass.map SuperclassRef.expr).toList := by
  cases derives with
  | absent => nofun
  | present _ isName =>
      refine List.forall_mem_singleton.mpr ⟨isName, fun _ member => ?_⟩
      cases List.mem_singleton.mp member
      simp

/-- The expressions of a `for` statement are those of its clauses and of its
body, or the condition that was left out. -/
theorem Stmt.mem_roots_forLoop
    {initializer : Option Stmt}
    {condition increment : Option Expr}
    {body : Stmt}
    (member :
      value ∈ (Stmt.forLoop initializer condition increment body).roots) :
    (∃ statement ∈ initializer, value ∈ statement.roots) ∨
      value ∈ condition.toList ∨
      value = .literal (.boolean true) ∨ value ∈ increment.toList ∨
      value ∈ body.roots := by
  cases initializer <;> cases condition <;> cases increment <;>
    simp [Stmt.forLoop, Stmt.roots, Stmt.rootsAll] at member ⊢ <;> tauto

/-- The expressions of a part of a statement that are no parts of others. -/
def Clause.roots : Clause → List Expr
  | .statement value _ => value.roots
  | .declaration value _ => value.roots
  | .sequence values => Stmt.rootsAll values
  | .function value => value.roots
  | .methods values => FunctionDecl.rootsAll values

/-- The expressions of a part of a statement keep tokens that it is derived
from. -/
theorem Clause.Derives.drawnFrom
    {clause : Clause}
    (derives : clause.Derives first tokens next) :
    Expr.AllDrawnFrom tokens clause.roots := by
  induction derives with
  | print _ derives _ =>
      exact List.forall_mem_singleton.mpr
        (derives.drawnFrom.mono fun _ inside => by simp [inside])
  | expression derives _ =>
      exact List.forall_mem_singleton.mpr
        (derives.drawnFrom.mono fun _ inside => by simp [inside])
  | ret _ derives _ =>
      exact derives.drawnFrom.mono fun _ inside => by simp [inside]
  | require => nofun
  | block _ _ _ drawn => exact drawn.mono fun _ inside => by simp [inside]
  | loop _ _ derives _ _ drawn =>
      exact List.forall_mem_cons.mpr
        ⟨derives.drawnFrom.mono fun _ inside => by simp [inside],
          drawn.mono fun _ inside => by simp [inside]⟩
  | «when» _ _ derives _ _ drawn =>
      exact List.forall_mem_cons.mpr
        ⟨derives.drawnFrom.mono fun _ inside => by simp [inside],
          drawn.mono fun _ inside => by simp [inside]⟩
  | conditional _ _ derives _ _ _ _ drawn drawnElse =>
      exact List.forall_mem_cons.mpr
        ⟨derives.drawnFrom.mono fun _ inside => by simp [inside],
          List.forall_mem_append.mpr
            ⟨drawn.mono fun _ inside => by simp [inside],
              drawnElse.mono fun _ inside => by simp [inside]⟩⟩
  | forLoop _ _ initializer condition _ increment _ _ drawn =>
      intro value member
      rcases Stmt.mem_roots_forLoop member with
        ⟨statement, isFirst, inFirst⟩ | isCondition | rfl | isIncrement | inBody
      · exact (initializer.drawnFrom statement isFirst value inFirst).mono
            fun _ inside => by
          simp [inside]
      · exact (condition.drawnFrom value isCondition).mono
          fun _ inside => by simp [inside]
      · exact ⟨trivial, fun _ member => by simp [Expr.pieces] at member⟩
      · exact (increment.drawnFrom value isIncrement).mono
          fun _ inside => by simp [inside]
      · exact (drawn value inBody).mono fun _ inside => by simp [inside]
  | plain _ drawn => exact drawn
  | varDecl _ derives =>
      exact derives.drawnFrom.mono (List.subset_cons_self _ _)
  | funDecl _ _ drawn => exact drawn.mono (List.subset_cons_self _ _)
  | classDecl _ _ derives _ _ _ drawn =>
      exact List.forall_mem_append.mpr
        ⟨derives.drawnFrom.mono fun _ inside => by simp [inside],
          drawn.mono fun _ inside => by simp [inside]⟩
  | noStatements => nofun
  | andThen _ _ drawn drawnNext =>
      exact List.forall_mem_append.mpr
        ⟨drawn.mono (List.subset_append_left _ _), drawnNext.mono
          (List.subset_append_right _ _)⟩
  | function _ _ _ _ _ _ _ drawn =>
      exact drawn.mono fun _ inside => by simp [inside]
  | noMethods => nofun
  | method _ _ drawn drawnNext =>
      exact List.forall_mem_append.mpr
        ⟨drawn.mono (List.subset_append_left _ _), drawnNext.mono
          (List.subset_append_right _ _)⟩

end Derivations

/-- The token is made of the characters of its lexeme. -/
def Token.Genuine (token : Token) : Prop :=
  Lexeme token.lexeme.toList token.kind

/-- An expression that stands in a source has the shape of the grammar, and
keeps genuine tokens. -/
theorem Expr.StandsIn.genuine
    {value : Expr}
    {source : ByteArray}
    (stands : value.StandsIn source) :
    value.Shaped ∧ ∀ token, Piece.kept token ∈ value.pieces →
      token.Genuine := by
  obtain ⟨tokens, first, statements, next, scanned, parsed, root, isRoot,
    holds⟩ := stands
  obtain ⟨text, -, scannedText⟩ := Program.tokens_eq_ok_iff.mp scanned
  obtain ⟨body, finish, rfl, isSealed⟩ := Program.sealed_tokens scanned
  have derives :=
    (parseProgram_eq_ok_iff isSealed first next statements).mp parsed
  obtain ⟨shaped, kept⟩ := (derives.drawnFrom root isRoot).ofHolds holds
  refine ⟨shaped, fun token member => ?_⟩
  have inBody := kept token member
  exact Token.lexeme_of_scan scannedText (List.mem_append_left _ inBody)
    (isSealed.noEnd token inBody)

end LoxScript
