import Mathlib
import LoxScript.Proofs.Token.Joining

namespace LoxScript

/-!
# Scan errors are decided by the shortest bad prefix

A text is rejected for one of two reasons.  Either reading it comes to a
character that cannot be taken in: then what follows makes no difference, and
all that was read before is acceptable or would be if a string in it went on.
Or the text ends within a string: then it is the beginning of a text that is
acceptable.
-/

/-- A number under way is made of digits, and of decimals behind its point. -/
def Mode.Numeric : Mode → Prop
  | .whole digits | .point digits =>
      digits ≠ [] ∧ ∀ c ∈ digits, c.isDigit = true
  | .fraction digits decimals =>
      (digits ≠ [] ∧ ∀ c ∈ digits, c.isDigit = true) ∧
        decimals ≠ [] ∧ ∀ c ∈ decimals, c.isDigit = true
  | _ => True

namespace Lexer

variable {lexer after : Lexer} {c : Char} {text : List Char} {error : ScanError}

/-- Between two tokens only a character that begins no token is refused, on the
line it is on. -/
theorem openToken_eq_error
    (refused : lexer.openToken c = .error error) :
    error = ⟨lexer.line, .unexpectedCharacter c⟩ := by
  unfold openToken at refused
  split at refused
  · cases refused
  · repeat' split at refused
    all_goals cases refused
    rfl

/-- A character is refused because it begins no token, or because it is no
escape. -/
theorem step_eq_error
    (refused : lexer.step c = .error error) :
    error.line = lexer.line ∧
      (error.fault = .unexpectedCharacter c ∨
        error.fault = .invalidEscape c) := by
  have opens (refused : lexer.close.openToken c = .error error) :
      error.line = lexer.line ∧
        (error.fault = .unexpectedCharacter c ∨
          error.fault = .invalidEscape c) := by
    rw [openToken_eq_error refused]
    exact ⟨line_close, .inl rfl⟩
  unfold step at refused
  split at refused
  · rw [openToken_eq_error refused]
    exact ⟨rfl, .inl rfl⟩
  all_goals repeat' split at refused
  all_goals first
    | exact opens refused
    | (cases refused; first | done | exact ⟨rfl, .inr rfl⟩)

/-- Reading fails at a character that the lexer comes to and refuses. -/
theorem feed_eq_error
    (fails : lexer.feed text = .error error) :
    ∃ before c rest next, text = before ++ c :: rest ∧
      lexer.feed before = .ok next ∧
      next.step c = .error error := by
  induction text generalizing lexer with
  | nil => cases fails
  | cons c rest inductionHypothesis =>
      simp only [feed, List.foldlM_cons] at fails
      cases taken : lexer.step c with
      | error refusal =>
          rw [taken] at fails
          cases fails
          exact ⟨[], c, rest, lexer, rfl, rfl, taken⟩
      | ok next =>
          rw [taken] at fails
          obtain ⟨before, bad, further, last, rfl, reads, refused⟩ :=
            inductionHypothesis fails
          refine ⟨c :: before, bad, further, last, rfl, ?_, refused⟩
          rw [feed_cons_of_ok taken, reads]

/-- What stands behind a character that is refused makes no difference. -/
theorem feed_of_refused
    {before : List Char}
    (reads : lexer.feed before = .ok after)
    (refused : after.step c = .error error)
    (rest : List Char) :
    lexer.feed (before ++ c :: rest) = .error error := by
  rw [feed_append_of_ok reads, feed, List.foldlM_cons, refused]
  rfl

/-- What begins a text that is read is read too. -/
theorem feed_of_append
    {front back : List Char}
    (reads : lexer.feed (front ++ back) = .ok after) :
    ∃ next, lexer.feed front = .ok next := by
  rw [feed_append] at reads
  cases outcome : lexer.feed front with
  | error error =>
      rw [outcome] at reads
      cases reads
  | ok next => exact ⟨next, rfl⟩

/-- A number that is begun is made of digits. -/
theorem numeric_openToken
    (taken : lexer.openToken c = .ok after)
    (numeric : lexer.mode.Numeric) :
    after.mode.Numeric := by
  unfold openToken at taken
  split at taken
  · cases taken
    trivial
  · repeat' split at taken
    all_goals cases taken
    all_goals first | trivial | exact numeric | skip
    rename_i isDigit
    exact ⟨List.cons_ne_nil _ _, by simpa using isDigit⟩

/-- A number that goes on is made of digits. -/
theorem numeric_step
    (taken : lexer.step c = .ok after)
    (proper : lexer.mode.Proper)
    (numeric : lexer.mode.Numeric) :
    after.mode.Numeric := by
  have opens
      (outside : ¬ lexer.mode.InText)
      (opened : lexer.close.openToken c = .ok after) :
      after.mode.Numeric := by
    refine numeric_openToken opened ?_
    rw [mode_close proper outside]
    trivial
  unfold step at taken
  split at taken
  · exact numeric_openToken taken numeric
  all_goals rename_i mode
  all_goals rw [mode] at opens numeric
  all_goals repeat' split at taken
  all_goals first
    | exact opens not_false taken
    | (cases taken; trivial)
    | skip
  -- What is left are the digits that a number goes on with.
  all_goals cases taken
  all_goals simp_all [Mode.Numeric]

/-- Whatever is read, a number under way is made of digits. -/
theorem numeric_feed
    (reads : lexer.feed text = .ok after)
    (proper : lexer.mode.Proper)
    (numeric : lexer.mode.Numeric) :
    after.mode.Numeric := by
  induction text generalizing lexer with
  | nil =>
      cases reads
      exact numeric
  | cons c rest inductionHypothesis =>
      simp only [feed, List.foldlM_cons] at reads
      cases taken : lexer.step c with
      | error error =>
          rw [taken] at reads
          cases reads
      | ok next =>
          rw [taken] at reads
          exact inductionHypothesis reads (proper_step taken proper)
            (numeric_step taken proper numeric)

/-- A text that does not end within a string can end, and one that does is
unterminated on its last line. -/
theorem finish_cases
    (lexer : Lexer) :
    (∃ tokens, lexer.finish = .ok tokens) ∨
      lexer.mode.InText ∧
        lexer.finish = .error ⟨lexer.line, .unterminatedString⟩ := by
  unfold finish
  cases mode : lexer.mode with
  | text quote spelled value => exact .inr ⟨trivial, rfl⟩
  | escape quote spelled value => exact .inr ⟨trivial, rfl⟩
  | _ => exact .inl ⟨_, rfl⟩

/-- A string that goes on is ended by its quote. -/
theorem feed_quote
    {quote : Char}
    {spelled value : List Char}
    (mode : lexer.mode = .text quote spelled value) :
    ∃ after, lexer.feed [quote] = .ok after ∧ after.mode = .between := by
  let ended := lexer.emit (.string (String.ofList value.reverse))
    (quote :: spelled)
  have ends : lexer.step quote = .ok ended := by
    simp [step, mode, ended]
  refine ⟨ended, ?_, rfl⟩
  rw [feed_cons_of_ok ends]
  rfl

/-- A text that ends within a string begins one that can end. -/
theorem exists_extension
    (inText : lexer.mode.InText) :
    ∃ extension after, lexer.feed extension = .ok after ∧
      after.mode = .between := by
  cases mode : lexer.mode with
  | text quote spelled value => exact ⟨[quote], feed_quote mode⟩
  | escape quote spelled value =>
      -- An escape that is begun is gone on with first.
      let next : Lexer :=
        { lexer with mode := .text quote ('n' :: spelled) ('\n' :: value) }
      have escapes : lexer.step 'n' = .ok next := by
        simp [step, mode, unescape?, next]
      obtain ⟨after, ends, isBetween⟩ :=
        feed_quote (show next.mode = _ from rfl)
      refine ⟨['n', quote], after, ?_, isBetween⟩
      rw [feed_cons_of_ok escapes, ends]
  | _ =>
      rw [mode] at inText
      exact inText.elim

end Lexer

/-- A text whose characters are read is scanned, or it ends within a string. -/
theorem Token.scan_of_feed
    {text : String}
    {lexer : Lexer}
    (reads : Lexer.feed {} text.toList = .ok lexer) :
    (∃ tokens, Token.scan text = .ok tokens) ∨
      Token.scan text = .error
        ⟨1 + (text.toList.count '\n' : Int), .unterminatedString⟩ := by
  rw [Token.scan_of_ok reads, ← (Lexer.feed_eq_ok reads trivial).2]
  exact lexer.finish_cases.imp_right And.right

/-- The character, behind those before it, is why texts are rejected with the
error: it is no part of any token, or no escape; a text that goes on behind it
in any way is rejected with this error; and a text that ends before it is
scanned, or ends within a string. -/
structure ScanError.DecidedAt (error : ScanError) (before : List Char)
    (c : Char) : Prop where
  fault : error.fault = .unexpectedCharacter c ∨ error.fault = .invalidEscape c
  line : error.line = 1 + (before.count '\n' : Int)
  decides : ∀ other : String, before ++ [c] <+: other.toList →
    Token.scan other = .error error
  shortest :
    ∀ front : String, front.toList <+: before ++ [c] →
      front.toList ≠ before ++ [c] →
      (∃ tokens, Token.scan front = .ok tokens) ∨
        Token.scan front = .error
          ⟨1 + (front.toList.count '\n' : Int), .unterminatedString⟩

/-- A character that the lexer comes to and refuses decides that texts are
rejected. -/
theorem ScanError.decidedAt_of_refused
    {error : ScanError}
    {before : List Char}
    {c : Char}
    {next : Lexer}
    (reads : Lexer.feed {} before = .ok next)
    (refused : next.step c = .error error) :
    error.DecidedAt before c := by
  obtain ⟨line, fault⟩ := Lexer.step_eq_error refused
  refine ⟨fault, line.trans (Lexer.feed_eq_ok reads trivial).2, ?_, ?_⟩
  · rintro other ⟨rest, same⟩
    have fails : Lexer.feed {} other.toList = .error error := by
      rw [← same, List.append_assoc]
      exact Lexer.feed_of_refused reads refused rest
    rw [Token.scan, fails]
    rfl
  · intro front isPrefix proper
    obtain ⟨back, rfl⟩ : front.toList <+: before :=
      (List.prefix_concat_iff.mp isPrefix).resolve_left proper
    obtain ⟨_, readsFront⟩ := Lexer.feed_of_append reads
    exact Token.scan_of_feed readsFront

/-- A text is rejected because the lexer comes to a character that it refuses, or
because the text ends within a string. -/
theorem Token.refused_or_unterminated
    {text : String}
    {error : ScanError}
    (rejected : Token.scan text = .error error) :
    (∃ before c rest next, text.toList = before ++ c :: rest ∧
      Lexer.feed {} before = .ok next ∧ next.step c = .error error) ∨
      ∃ lexer, Lexer.feed {} text.toList = .ok lexer ∧ lexer.mode.InText ∧
        error = ⟨lexer.line, .unterminatedString⟩ := by
  cases outcome : Lexer.feed {} text.toList with
  | error fault =>
      rw [Token.scan, outcome] at rejected
      cases rejected
      exact .inl (Lexer.feed_eq_error outcome)
  | ok lexer =>
      have scans : lexer.finish = .error error := by
        rw [← rejected, Token.scan_of_ok outcome]
      rcases lexer.finish_cases with ⟨tokens, ends⟩ | ⟨inText, fails⟩
      · cases ends.symm.trans scans
      · cases fails.symm.trans scans
        exact .inr ⟨lexer, rfl, inText, rfl⟩

/-- The error of a text is on one of its lines. -/
theorem Token.line_of_rejected
    {text : String}
    {error : ScanError}
    (rejected : Token.scan text = .error error) :
    1 ≤ error.line ∧ error.line ≤ 1 + (text.toList.count '\n' : Int) := by
  rcases Token.refused_or_unterminated rejected with
    ⟨before, c, rest, next, split, reads, refused⟩ | ⟨lexer, reads, -, rfl⟩
  · have line : error.line = 1 + (before.count '\n' : Int) :=
      (Lexer.step_eq_error refused).1.trans (Lexer.feed_eq_ok reads trivial).2
    have within : before.count '\n' ≤ text.toList.count '\n' := by
      rw [split, List.count_append]
      exact Nat.le_add_right _ _
    omega
  · have line : lexer.line = 1 + (text.toList.count '\n' : Int) :=
      (Lexer.feed_eq_ok reads trivial).2
    have first : 1 ≤ lexer.line := by omega
    exact ⟨first, Int.le_of_eq line⟩

/-- Scan errors are decided by the shortest bad prefix.  A text that is rejected
is so because of a character that decides it, or because it ends within a
string; then the error is on its last line, and the text begins one that is
scanned.  The line is always one of the text's: 32 bits hold it if the text has
fewer than `2 ^ 31 - 1` newlines.  Whatever is read as a number is made of
digits. -/
theorem Token.scan_errors_are_decided_by_shortest_prefix
    {text : String}
    {error : ScanError}
    (rejected : Token.scan text = .error error) :
    ((∃ before c rest, text.toList = before ++ c :: rest ∧
      error.DecidedAt before c) ∨
      error = ⟨1 + (text.toList.count '\n' : Int), .unterminatedString⟩ ∧
        ∃ extension tokens, Token.scan (text ++ extension) = .ok tokens) ∧
    (1 ≤ error.line ∧ error.line ≤ 1 + (text.toList.count '\n' : Int)) ∧
    ∀ front lexer, front <+: text.toList → Lexer.feed {} front = .ok lexer →
      lexer.mode.Numeric := by
  refine ⟨?_, Token.line_of_rejected rejected,
    fun front lexer _ reads => Lexer.numeric_feed reads trivial trivial⟩
  rcases Token.refused_or_unterminated rejected with
    ⟨before, c, rest, next, split, reads, refused⟩ |
    ⟨lexer, reads, inText, rfl⟩
  · exact .inl ⟨before, c, rest, split,
      ScanError.decidedAt_of_refused reads refused⟩
  · refine .inr ⟨congrArg (ScanError.mk · _)
      (Lexer.feed_eq_ok reads trivial).2, ?_⟩
    obtain ⟨extension, after, goesOn, isBetween⟩ :=
      Lexer.exists_extension inText
    have outside : ¬ after.mode.InText := by
      rw [isBetween]
      exact not_false
    have ends := Lexer.finish_eq_ok_iff.mpr ⟨outside, rfl⟩
    have readsAll : Lexer.feed {} (text ++ String.ofList extension).toList =
        .ok after := by
      rw [String.toList_append, String.toList_ofList,
        Lexer.feed_append_of_ok reads, goesOn]
    exact ⟨String.ofList extension, _, (Token.scan_of_ok readsAll).trans ends⟩

/-- A text with an unknown escape on its second line, and a character that
begins no token behind. -/
def misspelled : String :=
  "x + 'a\n\\q' $"

/-- The unknown escape decides that the text is rejected, and not the character
behind it. -/
theorem Token.scan_errors_are_decided_by_unknown_escape :
    Token.scan misspelled = .error ⟨2, .invalidEscape 'q'⟩ ∧
      ∃ before rest, misspelled.toList = before ++ 'q' :: rest ∧
        ScanError.DecidedAt ⟨2, .invalidEscape 'q'⟩ before 'q' := by
  have rejected : Token.scan misspelled = .error ⟨2, .invalidEscape 'q'⟩ := by
    cbv
  rcases (Token.scan_errors_are_decided_by_shortest_prefix rejected).1 with
    ⟨before, c, rest, split, decided⟩ | ⟨unterminated, -⟩
  · have isEscape : 'q' = c := by
      simpa using decided.fault
    subst isEscape
    exact ⟨rejected, before, rest, split, decided⟩
  · cases unterminated

end LoxScript
