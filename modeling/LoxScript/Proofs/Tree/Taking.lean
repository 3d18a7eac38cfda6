import LoxScript.Proofs.Outcome
import LoxScript.Proofs.Tree.Derivation

namespace LoxScript

/-!
# Taking in one token

What the parsers of single tokens do, said in both directions: which token is
taken in when it is the right one, and what the next token was when one has been
taken in.
-/

open Parse Grammar

namespace Parse

/-- Looking for a symbol leaves the cursor where it is. -/
theorem seesSymbol_eq
    (symbol : Symbol)
    (cursor : Cursor) :
    ∃ seen, seesSymbol symbol cursor = .ok seen cursor ∧
      (seen = true ↔ cursor.current.kind = .symbol symbol) := by
  have looks : currentKind cursor = .ok cursor.current.kind cursor := rfl
  unfold seesSymbol
  rw [bind_of_ok looks]
  cases cursor.current.kind with
  | symbol seen => exact ⟨seen == symbol, rfl, by simp⟩
  | _ => exact ⟨false, rfl, by simp⟩

/-- The next token is the symbol. -/
theorem seesSymbol_of_eq
    {symbol : Symbol}
    {cursor : Cursor}
    (isNext : cursor.current.kind = .symbol symbol) :
    seesSymbol symbol cursor = .ok true cursor := by
  obtain ⟨seen, sees, iff⟩ := seesSymbol_eq symbol cursor
  rw [sees, iff.mpr isNext]

/-- The next token is not the symbol. -/
theorem seesSymbol_of_ne
    {symbol : Symbol}
    {cursor : Cursor}
    (isNotNext : cursor.current.kind ≠ .symbol symbol) :
    seesSymbol symbol cursor = .ok false cursor := by
  obtain ⟨seen, sees, iff⟩ := seesSymbol_eq symbol cursor
  cases seen with
  | false => exact sees
  | true => exact absurd (iff.mp rfl) isNotNext

section Next

variable {token : Token} {rest : List Token} {finish : Token} {first : NodeId}

/-- The next token is taken in if it is the symbol. -/
theorem acceptSymbol_of_eq
    {symbol : Symbol}
    (isSymbol : token.kind = .symbol symbol) :
    acceptSymbol symbol ⟨token :: rest, finish, first⟩ =
      .ok true ⟨rest, finish, first⟩ := by
  have sees : seesSymbol symbol ⟨token :: rest, finish, first⟩ =
      .ok true ⟨token :: rest, finish, first⟩ := seesSymbol_of_eq isSymbol
  unfold acceptSymbol
  rw [bind_of_ok sees]
  rfl

/-- Nothing is taken in if the next token is not the symbol. -/
theorem acceptSymbol_of_ne
    {symbol : Symbol}
    {cursor : Cursor}
    (isNotNext : cursor.current.kind ≠ .symbol symbol) :
    acceptSymbol symbol cursor = .ok false cursor := by
  unfold acceptSymbol
  rw [bind_of_ok (seesSymbol_of_ne isNotNext)]
  rfl

/-- The next token is taken in if it is the symbol that has to be next. -/
theorem expectSymbol_of_eq
    {symbol : Symbol}
    (isSymbol : token.kind = .symbol symbol)
    (item : Expectation) :
    expectSymbol symbol item ⟨token :: rest, finish, first⟩ =
      .ok token ⟨rest, finish, first⟩ := by
  have sees : seesSymbol symbol ⟨token :: rest, finish, first⟩ =
      .ok true ⟨token :: rest, finish, first⟩ := seesSymbol_of_eq isSymbol
  unfold expectSymbol
  rw [bind_of_ok sees]
  rfl

/-- The next token is taken in if it is a name. -/
theorem expectName_of_isIdentifier
    (isName : token.IsIdentifier)
    (item : Expectation) :
    expectName item ⟨token :: rest, finish, first⟩ =
      .ok token ⟨rest, finish, first⟩ := by
  have looks : currentKind ⟨token :: rest, finish, first⟩ =
      .ok token.kind ⟨token :: rest, finish, first⟩ := rfl
  obtain ⟨name, isIdentifier⟩ := isName
  unfold expectName
  rw [bind_of_ok looks, isIdentifier]
  rfl

/-- The next token is taken in if it is the reserved word. -/
theorem acceptKeyword_of_eq
    {keyword : Keyword}
    (isKeyword : token.kind = .keyword keyword) :
    acceptKeyword keyword ⟨token :: rest, finish, first⟩ =
      .ok true ⟨rest, finish, first⟩ := by
  have looks : currentKind ⟨token :: rest, finish, first⟩ =
      .ok token.kind ⟨token :: rest, finish, first⟩ := rfl
  unfold acceptKeyword
  rw [bind_of_ok looks, isKeyword]
  simp only [beq_self_eq_true, if_true]
  rfl

/-- Nothing is taken in if the next token is not the reserved word. -/
theorem acceptKeyword_of_ne
    {keyword : Keyword}
    {cursor : Cursor}
    (isNotNext : cursor.current.kind ≠ .keyword keyword) :
    acceptKeyword keyword cursor = .ok false cursor := by
  have looks : currentKind cursor = .ok cursor.current.kind cursor := rfl
  unfold acceptKeyword
  rw [bind_of_ok looks]
  cases kind : cursor.current.kind with
  | keyword seen =>
      have different : seen ≠ keyword := by
        rintro rfl
        exact isNotNext kind
      simp only [beq_eq_false_iff_ne.mpr different, Bool.false_eq_true,
        if_false]
      rfl
  | _ => rfl

end Next

section Taken

variable {pending : List Token} {finish : Token} {first : NodeId}
  {after : Cursor}

/-- Before the end of input, a token of any other kind is one of those that are
left. -/
theorem current_cases
    {kind : Kind}
    (isEnd : finish.kind = .endOfInput)
    (isNext : (pending.headD finish).kind = kind)
    (notEnd : kind ≠ .endOfInput) :
    ∃ token rest, pending = token :: rest ∧ token.kind = kind := by
  cases pending with
  | nil => exact absurd (isNext.symm.trans isEnd) notEnd
  | cons token rest => exact ⟨token, rest, rfl, isNext⟩

/-- What looking for a symbol says of the next token. -/
theorem seesSymbol_cases
    {symbol : Symbol}
    {seen : Bool}
    (run : seesSymbol symbol ⟨pending, finish, first⟩ = .ok seen after) :
    after = ⟨pending, finish, first⟩ ∧
      (seen = true ↔ (pending.headD finish).kind = .symbol symbol) := by
  obtain ⟨found, sees, iff⟩ := seesSymbol_eq symbol ⟨pending, finish, first⟩
  rw [sees] at run
  cases run
  exact ⟨rfl, iff⟩

/-- A symbol that may be next is taken in if it is. -/
theorem acceptSymbol_cases
    {symbol : Symbol}
    {accepted : Bool}
    (isEnd : finish.kind = .endOfInput)
    (run : acceptSymbol symbol ⟨pending, finish, first⟩ = .ok accepted after) :
    (accepted = true ∧ ∃ token rest, pending = token :: rest ∧
      after = ⟨rest, finish, first⟩ ∧
      token.kind = .symbol symbol) ∨
    (accepted = false ∧ after = ⟨pending, finish, first⟩ ∧
      (pending.headD finish).kind ≠ .symbol symbol) := by
  by_cases isNext : (pending.headD finish).kind = .symbol symbol
  · obtain ⟨token, rest, rfl, isSymbol⟩ := current_cases isEnd isNext nofun
    rw [acceptSymbol_of_eq isSymbol] at run
    cases run
    exact .inl ⟨rfl, token, rest, rfl, rfl, isSymbol⟩
  · have accepts : acceptSymbol symbol ⟨pending, finish, first⟩ =
        .ok false ⟨pending, finish, first⟩ := acceptSymbol_of_ne isNext
    rw [accepts] at run
    cases run
    exact .inr ⟨rfl, rfl, isNext⟩

/-- A symbol that has to be next is taken in. -/
theorem expectSymbol_cases
    {symbol : Symbol}
    {item : Expectation}
    {token : Token}
    (isEnd : finish.kind = .endOfInput)
    (run : expectSymbol symbol item ⟨pending, finish, first⟩ =
      .ok token after) :
    ∃ rest, pending = token :: rest ∧ after = ⟨rest, finish, first⟩ ∧
      token.kind = .symbol symbol := by
  obtain ⟨seen, middle, sees, run⟩ := bind_eq_ok_iff.mp run
  obtain ⟨rfl, iff⟩ := seesSymbol_cases sees
  cases seen with
  | false => cases run
  | true =>
      obtain ⟨token, rest, rfl, isSymbol⟩ :=
        current_cases isEnd (iff.mp rfl) nofun
      cases run
      exact ⟨rest, rfl, rfl, isSymbol⟩

/-- A reserved word that may be next is taken in if it is. -/
theorem acceptKeyword_cases
    {keyword : Keyword}
    {accepted : Bool}
    (isEnd : finish.kind = .endOfInput)
    (run : acceptKeyword keyword ⟨pending, finish, first⟩ =
      .ok accepted after) :
    (accepted = true ∧ ∃ token rest, pending = token :: rest ∧
      after = ⟨rest, finish, first⟩ ∧
      token.kind = .keyword keyword) ∨
    (accepted = false ∧ after = ⟨pending, finish, first⟩ ∧
      (pending.headD finish).kind ≠ .keyword keyword) := by
  by_cases isNext : (pending.headD finish).kind = .keyword keyword
  · obtain ⟨token, rest, rfl, isKeyword⟩ := current_cases isEnd isNext nofun
    rw [acceptKeyword_of_eq isKeyword] at run
    cases run
    exact .inl ⟨rfl, token, rest, rfl, rfl, isKeyword⟩
  · have accepts : acceptKeyword keyword ⟨pending, finish, first⟩ =
        .ok false ⟨pending, finish, first⟩ := acceptKeyword_of_ne isNext
    rw [accepts] at run
    cases run
    exact .inr ⟨rfl, rfl, isNext⟩

/-- A name that has to be next is taken in. -/
theorem expectName_cases
    {item : Expectation}
    {token : Token}
    (isEnd : finish.kind = .endOfInput)
    (run : expectName item ⟨pending, finish, first⟩ = .ok token after) :
    ∃ rest, pending = token :: rest ∧ after = ⟨rest, finish, first⟩ ∧
      token.IsIdentifier := by
  have looks : currentKind ⟨pending, finish, first⟩ =
      .ok (pending.headD finish).kind ⟨pending, finish, first⟩ := rfl
  unfold expectName at run
  rw [bind_of_ok looks] at run
  cases isNext : (pending.headD finish).kind with
  | identifier name =>
      obtain ⟨token, rest, rfl, isName⟩ := current_cases isEnd isNext nofun
      rw [isNext] at run
      cases run
      exact ⟨rest, rfl, rfl, name, isName⟩
  | _ =>
      rw [isNext] at run
      cases run

end Taken

end Parse

end LoxScript
