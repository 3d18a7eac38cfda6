import LoxScript.Token.Lexer

namespace LoxScript

/-!
# Scanned tokens are spelled as their kind says

The tokens of a text carry their own spelling: a reserved word is spelled as
such, and a name is spelled like no reserved word.  So no variable, function,
class or parameter is ever called `this` or `super`.  Only the last token of a
text is an end of input.
-/

/-- The lexeme of a reserved word is the word, the lexeme of a name is the name
and no reserved word. -/
def Token.Spelled (token : Token) : Prop :=
  match token.kind with
  | .identifier name =>
      name = token.lexeme ∧ Keyword.ofSpelling? token.lexeme = none
  | .keyword word => token.lexeme = word.spelling
  | _ => True

/-- A reserved word that is found by a spelling has this spelling. -/
theorem Keyword.spelling_of_ofSpelling?
    {word : String}
    {keyword : Keyword}
    (found : ofSpelling? word = some keyword) :
    keyword.spelling = word := by
  simpa using List.find?_some found

namespace Lexer

/-- Every token read so far is spelled as its kind says, and is no end of
input. -/
def Faithful (lexer : Lexer) : Prop :=
  ∀ token ∈ lexer.tokens, token.Spelled ∧ token.kind ≠ .endOfInput

/-- Nothing but the tokens read matters. -/
theorem Faithful.of_tokens_eq
    {lexer other : Lexer}
    (faithful : lexer.Faithful)
    (same : other.tokens = lexer.tokens) :
    other.Faithful := by
  intro token member
  exact faithful token (same ▸ member)

/-- Adding a token that is spelled as its kind says. -/
theorem Faithful.emit
    {lexer : Lexer}
    (faithful : lexer.Faithful)
    {kind : Kind}
    {spelled : List Char}
    (fits : Token.Spelled ⟨kind, String.ofList spelled.reverse, lexer.line⟩)
    (goesOn : kind ≠ .endOfInput) :
    (lexer.emit kind spelled).Faithful := by
  intro token member
  rcases List.mem_cons.mp member with rfl | earlier
  · exact ⟨fits, goesOn⟩
  · exact faithful token earlier

/-- A word is spelled as the kind it gets. -/
theorem spelled_wordKind
    (word : String)
    (line : Int) :
    Token.Spelled ⟨wordKind word, word, line⟩ := by
  unfold wordKind
  cases found : Keyword.ofSpelling? word with
  | some keyword =>
      exact (Keyword.spelling_of_ofSpelling? found).symm
  | none =>
      exact ⟨rfl, found⟩

/-- A word is no end of input. -/
theorem wordKind_ne_endOfInput
    (word : String) :
    wordKind word ≠ .endOfInput := by
  unfold wordKind
  split <;> nofun

/-- Adding the token of a row of digits. -/
theorem Faithful.emitWhole
    {lexer : Lexer}
    (faithful : lexer.Faithful)
    (digits : List Char) :
    (lexer.emitWhole digits).Faithful :=
  faithful.emit trivial nofun

/-- Ending the token under way adds only tokens that are spelled as their kind
says. -/
theorem Faithful.close
    {lexer : Lexer}
    (faithful : lexer.Faithful) :
    lexer.close.Faithful := by
  unfold Lexer.close
  split
  · exact faithful
  · unfold emitComparison
    split
    · exact faithful.emit trivial nofun
    · exact faithful
  · exact faithful.emit trivial nofun
  · exact faithful.of_tokens_eq rfl
  · exact faithful.emit (spelled_wordKind _ _) (wordKind_ne_endOfInput _)
  · exact faithful.emitWhole _
  · exact (faithful.emitWhole _).emit trivial nofun
  · exact faithful.emit trivial nofun
  · exact faithful
  · exact faithful

/-- A character between two tokens adds only tokens that are spelled as their
kind says. -/
theorem Faithful.openToken
    {lexer after : Lexer}
    (faithful : lexer.Faithful)
    {c : Char}
    (taken : lexer.openToken c = .ok after) :
    after.Faithful := by
  unfold Lexer.openToken at taken
  split at taken
  · cases taken
    exact faithful.emit trivial nofun
  · repeat' split at taken
    all_goals cases taken
    all_goals exact faithful.of_tokens_eq rfl

/-- A character adds only tokens that are spelled as their kind says. -/
theorem Faithful.step
    {lexer after : Lexer}
    (faithful : lexer.Faithful)
    {c : Char}
    (taken : lexer.step c = .ok after) :
    after.Faithful := by
  unfold Lexer.step at taken
  split at taken
  · exact faithful.openToken taken
  · split at taken
    · cases taken
      exact faithful.emit trivial nofun
    · exact faithful.close.openToken taken
  · split at taken
    · cases taken
      exact faithful.of_tokens_eq rfl
    · exact faithful.close.openToken taken
  · split at taken
    · exact faithful.close.openToken taken
    · cases taken
      exact faithful
  · split at taken
    · cases taken
      exact faithful.of_tokens_eq rfl
    · exact faithful.close.openToken taken
  · repeat' split at taken
    · cases taken
      exact faithful.of_tokens_eq rfl
    · cases taken
      exact faithful.of_tokens_eq rfl
    · exact faithful.close.openToken taken
  · split at taken
    · cases taken
      exact faithful.of_tokens_eq rfl
    · exact faithful.close.openToken taken
  · split at taken
    · cases taken
      exact faithful.of_tokens_eq rfl
    · exact faithful.close.openToken taken
  · repeat' split at taken
    · cases taken
      exact faithful.emit trivial nofun
    all_goals cases taken
    all_goals exact faithful.of_tokens_eq rfl
  · split at taken
    · cases taken
      exact faithful.of_tokens_eq rfl
    · cases taken

/-- A text adds only tokens that are spelled as their kind says. -/
theorem Faithful.feed
    {lexer after : Lexer}
    (faithful : lexer.Faithful)
    {text : List Char}
    (taken : lexer.feed text = .ok after) :
    after.Faithful := by
  induction text generalizing lexer with
  | nil =>
      cases taken
      exact faithful
  | cons c rest inductionHypothesis =>
      simp only [Lexer.feed, List.foldlM_cons] at taken
      cases outcome : lexer.step c with
      | error error =>
          simp [outcome, bind, Except.bind] at taken
      | ok next =>
          simp only [outcome, bind, Except.bind] at taken
          exact inductionHypothesis (faithful.step outcome) taken

end Lexer

/-- The tokens of a text are those that were read and an end of input. -/
theorem Token.scan_eq_ok
    {text : String}
    {tokens : List Token}
    (scanned : Token.scan text = .ok tokens) :
    ∃ lexer : Lexer, Lexer.feed {} text.toList = .ok lexer ∧
      lexer.close.Faithful ∧
      lexer.finish = .ok tokens ∧
      tokens = lexer.close.tokens.reverse ++
        [⟨.endOfInput, "", lexer.close.line⟩] := by
  unfold Token.scan at scanned
  cases read : Lexer.feed {} text.toList with
  | error error =>
      simp [read, bind, Except.bind] at scanned
  | ok lexer =>
      simp only [read, bind, Except.bind] at scanned
      have faithful : lexer.Faithful :=
        Lexer.Faithful.feed (by simp [Lexer.Faithful]) read
      refine ⟨lexer, rfl, faithful.close, scanned, ?_⟩
      unfold Lexer.finish at scanned
      split at scanned
      · cases scanned
      · cases scanned
      · cases scanned
        rfl

/-- The tokens of a text are spelled as their kinds say. -/
theorem Token.spelled_of_scan
    {text : String}
    {tokens : List Token}
    (scanned : Token.scan text = .ok tokens) :
    ∀ token ∈ tokens, token.Spelled := by
  obtain ⟨lexer, -, faithful, -, rfl⟩ := Token.scan_eq_ok scanned
  intro token member
  rcases List.mem_append.mp member with earlier | last
  · exact (faithful token (List.mem_reverse.mp earlier)).1
  · rcases List.mem_singleton.mp last with rfl
    trivial

end LoxScript
