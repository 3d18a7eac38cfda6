import LoxScript.Proofs.Tree.Reading.Statement
import LoxScript.Proofs.Tree.Spelled.Statement

namespace LoxScript

/-!
# The parser recognizes the grammar

On a list of tokens whose only end of input is its last token, the parser yields
a program exactly if the other tokens spell it.
-/

open Parse Grammar

/-- The tokens are those of a source: the last one is an end of input, and no
other one is. -/
structure Sealed (body : List Token) (finish : Token) : Prop where
  isEnd : finish.kind = .endOfInput
  noEnd : ∀ token ∈ body, token.kind ≠ .endOfInput

/-- A token is an end of input exactly if it is of that kind. -/
theorem Token.isEnd_iff
    (token : Token) :
    token.isEnd = true ↔ token.kind = .endOfInput := by
  unfold Token.isEnd
  split <;> simp_all

/-- The cursor at the start of a list of tokens that ends with an end of input:
what stands behind the first one is left out. -/
theorem Sealed.ofTokens?_append
    {body : List Token}
    {finish : Token}
    (isSealed : Sealed body finish)
    (beyond : List Token)
    (endsLast : ∀ last ∈ (body ++ finish :: beyond).getLast?,
      last.kind = .endOfInput)
    (first : NodeId) :
    Cursor.ofTokens? (body ++ finish :: beyond) first =
      .ok ⟨body, finish, first⟩ := by
  have ends : finish.isEnd = true := finish.isEnd_iff.mpr isSealed.isEnd
  have goesOn : ∀ token ∈ body, (!token.isEnd) = true := by
    intro token member
    rw [Bool.not_eq_true', Bool.eq_false_iff]
    exact fun isEnd => isSealed.noEnd token member (token.isEnd_iff.mp isEnd)
  have before : (body ++ finish :: beyond).takeWhile
      (fun token => !token.isEnd) = body := by
    rw [List.takeWhile_append_of_pos goesOn]
    simp [ends]
  have found : (body ++ finish :: beyond).find? Token.isEnd = some finish := by
    rw [List.find?_append, List.find?_eq_none.mpr]
    · simp [ends]
    · intro token member
      simpa using goesOn token member
  obtain ⟨last, isLast⟩ : ∃ last,
      (body ++ finish :: beyond).getLast? = some last :=
    ⟨_, List.getLast?_eq_some_getLast
      (List.append_ne_nil_of_right_ne_nil body (by simp))⟩
  have lastEnds : last.isEnd = true := last.isEnd_iff.mpr (endsLast last isLast)
  unfold Cursor.ofTokens?
  rw [isLast]
  simp only [lastEnds, if_true, before, found, Option.getD_some]

/-- The cursor at the start of the tokens of a source. -/
theorem Sealed.ofTokens?
    {body : List Token}
    {finish : Token}
    (isSealed : Sealed body finish)
    (first : NodeId) :
    Cursor.ofTokens? (body ++ [finish]) first = .ok ⟨body, finish, first⟩ :=
  isSealed.ofTokens?_append [] (by simp [isSealed.isEnd]) first

/-- A program that the grammar reads is spelled by all tokens before the end of
input. -/
theorem Sealed.derives_of_program
    {body : List Token}
    {finish : Token}
    (isSealed : Sealed body finish)
    {first : NodeId}
    {statements : List Stmt}
    {after : Cursor}
    (run : program (depthFor body.length) ⟨body, finish, first⟩ =
      .ok statements after) :
    after.pending = [] ∧
      Clause.Derives (.sequence statements) first body after.nextNode := by
  have sound :=
    (spells_statement_declaration isSealed.isEnd (depthFor body.length)).2
  obtain ⟨tokens, rest, next, rfl, rfl, derives, stops⟩ :=
    spells_statementsUntil sound _ _ _ _ _ run
  cases rest with
  | nil =>
      rw [List.append_nil]
      exact ⟨rfl, derives⟩
  | cons token rest =>
      rcases stops with stops | isEnd
      · cases stops
      · exact absurd isEnd (isSealed.noEnd token (by simp))

/-- The parser yields a program exactly if the tokens before the end of input
spell it. -/
theorem parseProgram_eq_ok_iff
    {body : List Token}
    {finish : Token}
    (isSealed : Sealed body finish)
    (first next : NodeId)
    (statements : List Stmt) :
    parseProgram (body ++ [finish]) first = (.ok statements, next) ↔
      Clause.Derives (.sequence statements) first body next := by
  unfold parseProgram
  rw [isSealed.ofTokens? first]
  constructor
  · intro parses
    cases run : program (depthFor body.length) ⟨body, finish, first⟩ with
    | error error after => simp [run] at parses
    | ok values after =>
        simp only [run, Prod.mk.injEq, Except.ok.injEq] at parses
        obtain ⟨rfl, rfl⟩ := parses
        exact (isSealed.derives_of_program run).2
  · intro derives
    have reads :=
      derives.reads (depthFor body.length) (depthFor body.length) [] finish
      (fun _ => false) (by simp [depthFor]; omega)
        (by simp [depthFor]; omega) nofun
      (.inr isSealed.isEnd)
    rw [List.append_nil] at reads
    have runs : program (depthFor body.length) ⟨body, finish, first⟩ =
        .ok statements ⟨[], finish, next⟩ := reads
    simp only [runs]

end LoxScript
