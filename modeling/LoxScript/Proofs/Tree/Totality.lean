import LoxScript.Proofs.Tree.Agreement.Statement
import LoxScript.Proofs.Tree.Limits
import LoxScript.Proofs.Tree.Recognition

namespace LoxScript

/-!
# Parsing is total

Every list of tokens is parsed to its first end of input and not beyond: on the
whole list, with any depth that is large enough and whatever stands behind it,
the grammar does what it does on the tokens up to that end.
-/

open Parse Grammar

/-- A list of tokens with an end of input is what stands before the first one,
that one, and what stands behind it. -/
theorem Sealed.ofMem
    {tokens : List Token}
    (hasEnd : ∃ token ∈ tokens, token.kind = .endOfInput) :
    ∃ before finish beyond, tokens = before ++ finish :: beyond ∧
      Sealed before finish := by
  obtain ⟨token, member, isEnd⟩ := hasEnd
  have found : (tokens.find? Token.isEnd).isSome = true :=
    List.find?_isSome.mpr ⟨token, member, token.isEnd_iff.mpr isEnd⟩
  obtain ⟨finish, isFirst⟩ := Option.isSome_iff_exists.mp found
  obtain ⟨isEnd, before, beyond, rfl, noEnd⟩ :=
    List.find?_eq_some_iff_append.mp isFirst
  refine ⟨before, finish, beyond, rfl, finish.isEnd_iff.mp isEnd, ?_⟩
  intro token member isEnd
  simpa [token.isEnd_iff.mpr isEnd] using noEnd token member

namespace Sealed

variable {before : List Token} {finish : Token}

/-- The first end of input has as many tokens before it as its index says. -/
theorem findIdx_eq
    (isSealed : Sealed before finish)
    (beyond : List Token) :
    (before ++ finish :: beyond).findIdx Token.isEnd = before.length := by
  have noEnd : before.findIdx Token.isEnd = before.length := by
    refine List.findIdx_eq_length_of_false fun token member => ?_
    exact Bool.eq_false_iff.mpr fun isEnd =>
      isSealed.noEnd token member (token.isEnd_iff.mp isEnd)
  rw [List.findIdx_append, noEnd, if_neg (Nat.lt_irrefl _), List.findIdx_cons,
    finish.isEnd_iff.mpr isSealed.isEnd]
  simp

/-- A list whose last token is an end of input is parsed up to its first end. -/
theorem parseProgram_eq
    (isSealed : Sealed before finish)
    (beyond : List Token)
    (endsLast : ∀ last ∈ (before ++ finish :: beyond).getLast?,
      last.kind = .endOfInput)
    (first : NodeId) :
    parseProgram (before ++ finish :: beyond) first =
      match program (depthFor before.length) ⟨before, finish, first⟩ with
      | .ok statements rest => (.ok statements, rest.nextNode)
      | .error error rest => (.error error, rest.nextNode) := by
  unfold parseProgram
  rewrite [isSealed.ofTokens?_append beyond endsLast]
  rfl

/-- What stands behind the first end of input does not matter, as long as an end
stands last. -/
theorem parseProgram_append
    (isSealed : Sealed before finish)
    (beyond : List Token)
    (endsLast : ∀ last ∈ (before ++ finish :: beyond).getLast?,
      last.kind = .endOfInput)
    (first : NodeId) :
    parseProgram (before ++ finish :: beyond) first =
      parseProgram (before ++ [finish]) first := by
  rw [isSealed.parseProgram_eq beyond endsLast,
    isSealed.parseProgram_eq [] (by simp [isSealed.isEnd])]

/-- On the whole list, and whatever would stand behind it, the grammar reads the
program up to the first end of input and stands still there. -/
theorem program_leads
    {depth : Nat}
    (isSealed : Sealed before finish)
    (enough : depthFor before.length ≤ depth)
    (beyond : List Token)
    (outside : Token)
    (first : NodeId) :
    Leads (program depth) ⟨before ++ finish :: beyond, outside, first⟩
      (fun statements after =>
        parseProgram (before ++ [finish]) first =
          (.ok statements, after.nextNode) ∧
          after.pending = finish :: beyond)
      (fun error after =>
        parseProgram (before ++ [finish]) first =
          (.error error, after.nextNode) ∧
          error.fault ≠ .outOfDepth) := by
  have ample : Ample False (2 * before.length + 4) depth
      (depthFor before.length) := by
    unfold depthFor at enough ⊢
    exact .inr ⟨by omega, by omega⟩
  have begins : BeginsWithEnd (finish :: beyond) outside finish :=
    ⟨rfl, isSealed.isEnd⟩
  have agree := agree_program ample finish before first begins (Nat.le_refl _)
  have parsed := isSealed.parseProgram_eq [] (by simp [isSealed.isEnd]) first
  unfold Leads
  cases run : program depth ⟨before ++ finish :: beyond, outside, first⟩ with
  | ok statements after =>
      obtain ⟨_, _, runOther, rfl, taken, rest, next, -, -, rfl, rfl⟩ :=
        agree.ok run
      obtain ⟨rfl, -⟩ := isSealed.derives_of_program runOther
      rw [parsed, runOther]
      exact ⟨rfl, rfl⟩
  | error error after =>
      obtain ⟨_, afterOther, runOther, rfl, neverOut, sameNodes⟩ :=
        agree.error run
      rw [parsed, runOther]
      exact ⟨congrArg (Prod.mk (Except.error error)) sameNodes.symm, neverOut⟩

end Sealed

/-- A declaration that is read before some end of input takes in a token. -/
theorem Grammar.declaration_takes
    {depth : Nat}
    {cursor after : Cursor}
    {statement : Stmt}
    (hasEnd : ∃ token ∈ cursor.pending ++ [cursor.finish],
      token.kind = .endOfInput)
    (run : declaration depth cursor = .ok statement after) :
    ∃ token taken, cursor.pending = token :: taken ++ after.pending := by
  obtain ⟨pending, outside, first⟩ := cursor
  obtain ⟨before, finish, further, split, isSealed⟩ := Sealed.ofMem hasEnd
  -- The end is one of the tokens that are left, or stands behind all of them.
  obtain ⟨beyond, rfl, begins⟩ :
      ∃ beyond, pending = before ++ beyond ∧
        BeginsWithEnd beyond outside finish := by
    rcases List.eq_nil_or_concat further with rfl | ⟨inside, last, rfl⟩
    · obtain ⟨same, isLast⟩ := List.append_inj' split rfl
      cases isLast
      exact ⟨[], by simpa using same, rfl, isSealed.isEnd⟩
    · have same : pending ++ [outside] =
          (before ++ finish :: inside) ++ [last] := by
        simpa using split
      obtain ⟨rfl, -⟩ := List.append_inj' same rfl
      exact ⟨finish :: inside, rfl, rfl, isSealed.isEnd⟩
  have same : Ample True (2 * before.length + 4) depth depth :=
    .inl ⟨trivial, rfl⟩
  have agree := (agree_statement_declaration before.length depth depth).2 same
    finish before
    first begins (Nat.le_refl _)
  obtain ⟨_, _, -, -, taken, rest, next, rfl, some, rfl, -⟩ := agree.ok run
  cases taken with
  | nil => cases some
  | cons token taken => exact ⟨token, taken, by simp⟩

/-- A list of tokens that does not end with an end of input is refused. -/
theorem parseProgram_of_not_isEnd
    {tokens : List Token}
    {last : Token}
    (isLast : tokens.getLast? = some last)
    (notEnd : last.kind ≠ .endOfInput)
    (first : NodeId) :
    parseProgram tokens first = (.error (.atToken .endless last), first) := by
  have noEnd : last.isEnd = false :=
    Bool.eq_false_iff.mpr fun isEnd => notEnd (last.isEnd_iff.mp isEnd)
  unfold parseProgram Cursor.ofTokens?
  rw [isLast]
  simp only [noEnd, Bool.false_eq_true, if_false]

/-- No list of tokens is refused because the depth has run out. -/
theorem parseProgram_fault_ne_outOfDepth
    {tokens : List Token}
    {first next : NodeId}
    {error : ParseError}
    (refused : parseProgram tokens first = (.error error, next)) :
    error.fault ≠ .outOfDepth := by
  cases isLast : tokens.getLast? with
  | none =>
      rw [List.getLast?_eq_none_iff.mp isLast] at refused
      cases refused
      nofun
  | some last =>
      by_cases isEnd : last.kind = .endOfInput
      · obtain ⟨before, finish, beyond, rfl, isSealed⟩ :=
          Sealed.ofMem ⟨last, List.mem_of_getLast? isLast, isEnd⟩
        have leads := isSealed.program_leads (Nat.le_refl _) beyond finish first
        rw [isSealed.parseProgram_append _ (by simp [isLast, isEnd])] at refused
        rw [refused] at leads
        unfold Leads at leads
        split at leads
        · cases leads.1
        · obtain ⟨same, neverOut⟩ := leads
          cases same
          exact neverOut
      · rw [parseProgram_of_not_isEnd isLast isEnd] at refused
        cases refused
        nofun

/-- The trees of a parsed program keep the limit of the grammar. -/
theorem parseProgram_keepsLimit
    {tokens : List Token}
    {first next : NodeId}
    {statements : List Stmt}
    (parses : parseProgram tokens first = (.ok statements, next)) :
    Stmt.AllKeepLimit argumentLimit statements := by
  cases isLast : tokens.getLast? with
  | none =>
      rw [List.getLast?_eq_none_iff.mp isLast] at parses
      cases parses
  | some last =>
      by_cases isEnd : last.kind = .endOfInput
      · obtain ⟨before, finish, beyond, rfl, isSealed⟩ :=
          Sealed.ofMem ⟨last, List.mem_of_getLast? isLast, isEnd⟩
        rw [isSealed.parseProgram_append _ (by simp [isLast, isEnd])] at parses
        exact ((parseProgram_eq_ok_iff isSealed first next statements).mp
          parses).keepsLimit
      · rw [parseProgram_of_not_isEnd isLast isEnd] at parses
        cases parses

/-- Every list of tokens is parsed, and only up to its first end of input.
Without an end of input as its last token it is refused.  Otherwise the result
is that of the list cut behind the first end, and it is the one that the grammar
has on the whole list: with any depth that is large enough, and whatever would
be found outside the list.  The depth that the parser goes by is such a one: it
never runs out.  Every declaration takes in a token, and all lists of arguments
and parameters are within the limit. -/
theorem parsing_stops_at_first_end
    (tokens : List Token)
    (first : NodeId) :
    (tokens = [] →
      parseProgram tokens first = (.error ⟨.endless, "", 0⟩, first)) ∧
      (∀ last, tokens.getLast? = some last → last.kind ≠ .endOfInput →
        parseProgram tokens first = (.error ⟨.endless, last.lexeme, last.line⟩,
          first)) ∧
      (∀ last, tokens.getLast? = some last → last.kind = .endOfInput →
        parseProgram tokens first =
            parseProgram (tokens.take (tokens.findIdx Token.isEnd + 1)) first ∧
          ∀ depth outside, depthFor tokens.length ≤ depth →
            Leads (program depth) ⟨tokens, outside, first⟩
              (fun statements after =>
                parseProgram tokens first = (.ok statements, after.nextNode) ∧
                  after.pending = tokens.drop (tokens.findIdx Token.isEnd))
              (fun error after =>
                parseProgram tokens first = (.error error, after.nextNode) ∧
                  error.fault ≠ .outOfDepth)) ∧
      (∀ error next, parseProgram tokens first = (.error error, next) →
        error.fault ≠ .outOfDepth) ∧
      (∀ depth cursor statement after,
        (∃ token ∈ cursor.pending ++ [cursor.finish],
          token.kind = .endOfInput) →
        declaration depth cursor = .ok statement after →
        ∃ token taken, cursor.pending = token :: taken ++ after.pending) ∧
      (∀ statements next, parseProgram tokens first = (.ok statements, next) →
        Stmt.AllKeepLimit 255 statements) := by
  refine ⟨?_, ?_, ?_, fun error next => parseProgram_fault_ne_outOfDepth,
    fun depth cursor statement after => declaration_takes, ?_⟩
  · rintro rfl
    rfl
  · intro last isLast notEnd
    exact parseProgram_of_not_isEnd isLast notEnd first
  · intro last isLast isEnd
    obtain ⟨before, finish, beyond, rfl, isSealed⟩ :=
      Sealed.ofMem ⟨last, List.mem_of_getLast? isLast, isEnd⟩
    have cut := isSealed.parseProgram_append beyond
      (by simp [isLast, isEnd]) first
    rw [isSealed.findIdx_eq beyond, cut]
    refine ⟨?_, fun depth outside enough => ?_⟩
    · simp [List.take_append,
        List.take_of_length_le (Nat.le_succ before.length)]
    · have enoughBefore : depthFor before.length ≤ depth := by
        unfold depthFor at enough ⊢
        rw [List.length_append] at enough
        omega
      simpa using isSealed.program_leads enoughBefore beyond outside first
  · intro statements next parses
    exact parseProgram_keepsLimit parses

/-- A statement, an end of input, and tokens behind it that are no statement. -/
def interruptedTokens : List Token :=
  [⟨.keyword .nilWord, "nil", 1⟩, ⟨.symbol .semicolon, ";", 1⟩,
    ⟨.endOfInput, "", 1⟩, ⟨.symbol .rightParen, ")", 2⟩, ⟨.endOfInput, "", 3⟩]

/-- What stands behind an end of input is no fault. -/
theorem parsing_stops_before_stray_parenthesis :
    ∃ statements,
      parseProgram interruptedTokens 0 = (.ok statements, 0) ∧
        statements.length = 1 ∧
        Stmt.AllKeepLimit 255 statements := by
  obtain ⟨-, -, stops, -, -, keeps⟩ :=
    parsing_stops_at_first_end interruptedTokens 0
  have parses : parseProgram interruptedTokens 0 =
      (.ok [.expression (.literal .nil)], 0) :=
    (stops ⟨.endOfInput, "", 3⟩ rfl rfl).1.trans rfl
  exact ⟨_, parses, rfl, keeps _ _ parses⟩

end LoxScript
