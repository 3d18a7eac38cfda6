import LoxScript.Proofs.Tree.Orderly
import LoxScript.Proofs.Tree.Recognition

namespace LoxScript

/-!
# The clauses of `for` statements

There is no tree for a `for` statement: the parser makes other statements out of
its parts.  What the parts are is decided by the tokens of its clauses.  Each
clause spells one part, and a part is missing exactly where its clause is empty.
-/

open Grammar

/-- The tokens of a `for` statement after its keyword, by its clauses. -/
structure ForTokens where
  left : Token
  /-- The first clause with its semicolon. -/
  initializer : List Token
  condition : List Token
  semicolon : Token
  increment : List Token
  right : Token
  body : List Token

/-- All of the tokens, in the order in which they are written. -/
def ForTokens.all (written : ForTokens) : List Token :=
  written.left :: written.initializer ++ written.condition ++
    written.semicolon :: written.increment ++ written.right :: written.body

/-- Every clause spells one part of the loop, and the body spells its body. -/
inductive ForTokens.Spells
    (written : ForTokens)
    (initializer : Option Stmt)
    (condition increment : Option Expr)
    (body : Stmt)
    (first next : NodeId) : Prop where
  | intro {second third fourth opened} :
      written.left.kind = .symbol .leftParen →
      DerivesInitializer initializer first written.initializer second →
      DerivesOptional condition second written.condition third →
      written.semicolon.kind = .symbol .semicolon →
      DerivesOptional increment third written.increment fourth →
      written.right.kind = .symbol .rightParen →
      Clause.Derives (.statement body opened) fourth written.body next →
      Spells written initializer condition increment body first next

/-- An initializer is missing exactly where its clause is just the semicolon. -/
theorem DerivesInitializer.eq_none_iff
    {initializer : Option Stmt}
    {first next : NodeId}
    {tokens : List Token}
    (derives : DerivesInitializer initializer first tokens next) :
    initializer = none ↔ ∃ semicolon, tokens = [semicolon] := by
  cases derives with
  | absent => simp
  | declared isVar derives => cases derives <;> simp
  | evaluated derives isSemicolon =>
      obtain ⟨token, rest, rfl, -⟩ := derives.starts
      simp

/-- An expression is missing exactly where its clause is empty. -/
theorem DerivesOptional.eq_none_iff
    {value : Option Expr}
    {first next : NodeId}
    {tokens : List Token}
    (derives : DerivesOptional value first tokens next) :
    value = none ↔ tokens = [] := by
  cases derives with
  | absent => simp
  | present derives =>
      obtain ⟨token, rest, rfl, -⟩ := derives.starts
      simp

/-- A part of the loop is missing exactly where its clause is empty. -/
theorem ForTokens.Spells.absent_iff
    {written : ForTokens}
    {initializer : Option Stmt}
    {condition increment : Option Expr}
    {body : Stmt}
    {first next : NodeId}
    (spells : written.Spells initializer condition increment body first next) :
    (initializer = none ↔ ∃ semicolon, written.initializer = [semicolon]) ∧
      (condition = none ↔ written.condition = []) ∧
      (increment = none ↔ written.increment = []) := by
  obtain ⟨-, derivesInitializer, derivesCondition, -, derivesIncrement, -, -⟩ :=
    spells
  exact ⟨derivesInitializer.eq_none_iff, derivesCondition.eq_none_iff,
    derivesIncrement.eq_none_iff⟩

/-- A statement that is no declaration declares nothing. -/
theorem Clause.Derives.declared?_eq_none
    {statement : Stmt}
    {opened : Bool}
    {first next : NodeId}
    {tokens : List Token}
    (derives : Clause.Derives (.statement statement opened) first tokens next) :
    statement.declared? = none := by
  cases derives with
  | @forLoop _ _ initializer => cases initializer <;> rfl
  | _ => rfl

/-- The body of a `for` statement declares nothing where the loop stands. -/
theorem ForTokens.Spells.declared?_eq_none
    {written : ForTokens}
    {initializer : Option Stmt}
    {condition increment : Option Expr}
    {body : Stmt}
    {first next : NodeId}
    (spells : written.Spells initializer condition increment body first next) :
    body.declared? = none := by
  obtain ⟨-, -, -, -, -, -, derivesBody⟩ := spells
  exact derivesBody.declared?_eq_none

/-- A statement that starts with the word `for` is a loop of what its clauses
spell. -/
theorem Clause.Derives.forTokens
    {keyword : Token}
    {made : Stmt}
    {opened : Bool}
    {first next : NodeId}
    {tokens : List Token}
    (derives :
      Clause.Derives (.statement made opened) first (keyword :: tokens) next)
    (isFor : keyword.kind = .keyword .forWord) :
    ∃ (written : ForTokens) (initializer : Option Stmt)
      (condition increment : Option Expr) (body : Stmt),
      tokens = written.all ∧
        written.Spells initializer condition increment body first next ∧
        made = Stmt.forLoop initializer condition increment body := by
  generalize isAll : keyword :: tokens = all at derives
  have otherwise {other : Token} {kind : Kind} {rest : List Token}
      (isOther : other.kind = kind) (differs : kind ≠ .keyword .forWord)
      (same : keyword :: tokens = other :: rest) : False := by
    cases same
    exact differs (isOther.symm.trans isFor)
  cases derives with
  | expression derives =>
      obtain ⟨token, rest, rfl, starts⟩ := derives.starts
      cases isAll
      simp [isFor, Kind.StartsExpr, Kind.StartsOperand, literal?] at starts
  | print isKind | ret isKind | require isKind | block isKind | loop isKind
  | when isKind | conditional isKind =>
      exact (otherwise isKind (by simp) isAll).elim
  | @forLoop _ left initializer condition semicolon increment right body _ _
      starting _ testing _ stepping _ looped _ _ isLeft derivesInitializer
      derivesCondition isSemicolon derivesIncrement isRight derivesBody =>
      cases isAll
      refine ⟨⟨left, starting, testing, semicolon, stepping, right, looped⟩,
        initializer, condition, increment, body, rfl, ?_, rfl⟩
      exact .intro isLeft derivesInitializer derivesCondition isSemicolon
        derivesIncrement isRight derivesBody

/-- Whatever the parser makes of a `for` statement, its clauses spell it. -/
theorem Grammar.forTokens_of_statement
    {depth : Nat}
    {cursor after : Cursor}
    {made : Stmt}
    (isEnd : cursor.finish.kind = .endOfInput)
    (isFor : cursor.current.kind = .keyword .forWord)
    (run : Grammar.statement depth cursor = .ok made after) :
    ∃ (keyword : Token) (written : ForTokens) (initializer : Option Stmt)
      (condition increment : Option Expr) (body : Stmt),
      cursor.pending = keyword :: written.all ++ after.pending ∧
        written.Spells initializer condition increment body cursor.nextNode
          after.nextNode ∧
        made = Stmt.forLoop initializer condition increment body ∧
          body.declared? = none := by
  obtain ⟨pending, finish, first⟩ := cursor
  obtain ⟨opened, tokens, rest, next, rfl, rfl, derives, -⟩ :=
    (spells_statement_declaration isEnd depth).1 _ _ _ _ run
  obtain ⟨keyword, tokens, rfl, -⟩ := derives.starts_statement
  obtain ⟨written, initializer, condition, increment, body, rfl, spells, rfl⟩ :=
    derives.forTokens isFor
  exact ⟨keyword, written, initializer, condition, increment, body, rfl, spells,
    rfl, spells.declared?_eq_none⟩

/-- A `for` statement whose clauses spell the parts of a loop is parsed to that
loop. -/
theorem ForTokens.Spells.parses
    {written : ForTokens}
    {initializer : Option Stmt}
    {condition increment : Option Expr}
    {body : Stmt}
    {first next : NodeId}
    (spells : written.Spells initializer condition increment body first next)
    {keyword finish : Token}
    (isFor : keyword.kind = .keyword .forWord)
    (isSealed : Sealed (keyword :: written.all) finish) :
    parseProgram (keyword :: written.all ++ [finish]) first =
      (.ok [Stmt.forLoop initializer condition increment body], next) := by
  obtain ⟨isLeft, derivesInitializer, derivesCondition, isSemicolon,
    derivesIncrement, isRight, derivesBody⟩ := spells
  rw [parseProgram_eq_ok_iff isSealed]
  have derives :=
    Clause.Derives.forLoop isFor isLeft derivesInitializer derivesCondition
      isSemicolon derivesIncrement isRight derivesBody
  simpa [ForTokens.all] using
    Clause.Derives.andThen (.plain derives) .noStatements

end LoxScript
