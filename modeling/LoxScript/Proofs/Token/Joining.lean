import LoxScript.Proofs.Compilation

namespace LoxScript

/-!
# Sources joined by a line break

Reading never looks back, and a line break ends every token that is not a
string.  So the tokens of two sources with a line break between them are those
of the first source and those of the second one, which stand as many lines
further down as the first source has.
-/

namespace Text.Utf8

/-- The decoder with characters that were read before its own, from a number of
bytes. -/
def Decoder.placed (earlier : List Char) (bytes : Nat) (decoder : Decoder) :
    Decoder :=
  ⟨decoder.characters ++ earlier, decoder.start + bytes, decoder.pending⟩

/-- What was read before does not count for the next byte. -/
theorem Decoder.step_placed
    {decoder after : Decoder}
    {byte : UInt8}
    (taken : decoder.step byte = .ok after)
    (earlier : List Char)
    (bytes : Nat) :
    (decoder.placed earlier bytes).step byte =
      .ok (after.placed earlier bytes) := by
  obtain ⟨characters, start, pending⟩ := decoder
  unfold Decoder.step at taken ⊢
  cases pending with
  | none =>
      dsimp only [Decoder.placed] at taken ⊢
      cases reading : readLead byte <;>
        simp only [reading] at taken ⊢ <;> cases taken
      · simp [Nat.add_right_comm]
      · rfl
  | some pending =>
      dsimp only [Decoder.placed] at taken ⊢
      cases reading : pending.readNext byte <;>
        simp only [reading] at taken ⊢ <;> cases taken
      · simp only [List.cons_append, Except.ok.injEq, Decoder.mk.injEq,
          and_true, true_and]
        omega
      · rfl

/-- What was read before does not count for further bytes. -/
theorem Decoder.foldlM_placed
    {decoder after : Decoder}
    {bytes : List UInt8}
    (taken : bytes.foldlM Decoder.step decoder = .ok after)
    (earlier : List Char)
    (start : Nat) :
    bytes.foldlM Decoder.step (decoder.placed earlier start) =
      .ok (after.placed earlier start) := by
  induction bytes generalizing decoder with
  | nil =>
      cases taken
      rfl
  | cons byte rest inductionHypothesis =>
      simp only [List.foldlM_cons] at taken ⊢
      cases outcome : decoder.step byte with
      | error fault =>
          rw [outcome] at taken
          cases taken
      | ok next =>
          rw [outcome] at taken
          rw [step_placed outcome]
          exact inductionHypothesis taken

/-- A text that is decoded has no character under way at its end. -/
theorem decode_eq_ok_iff
    {bytes : ByteArray}
    {text : String} :
    decode bytes = .ok text ↔
      ∃ characters start,
        bytes.data.toList.foldlM Decoder.step {} =
          .ok ⟨characters, start, none⟩ ∧
          text = String.ofList characters.reverse := by
  unfold decode
  cases read : bytes.data.toList.foldlM Decoder.step {} with
  | error fault => simp [bind, Except.bind]
  | ok decoder =>
      obtain ⟨characters, start, pending⟩ := decoder
      cases pending with
      | none =>
          simp [bind, Except.bind, Decoder.finish, Decoder.text, eq_comm]
      | some unfinished =>
          simp [bind, Except.bind, Decoder.finish]

/-- The text of two sources that are joined is the text of the first and then
that of the second. -/
theorem decode_append
    {bytes others : ByteArray}
    {text further : String}
    (decoded : decode bytes = .ok text)
    (decodedNext : decode others = .ok further) :
    decode (bytes ++ others) = .ok (text ++ further) := by
  obtain ⟨characters, start, reads, rfl⟩ := decode_eq_ok_iff.mp decoded
  obtain ⟨charactersNext, startNext, readsNext, rfl⟩ :=
    decode_eq_ok_iff.mp decodedNext
  refine decode_eq_ok_iff.mpr
    ⟨charactersNext ++ characters, startNext + start, ?_, ?_⟩
  · rw [ByteArray.data_append, Array.toList_append, List.foldlM_append, reads]
    have follows := Decoder.foldlM_placed readsNext characters start
    simp only [Decoder.placed, List.nil_append, Nat.zero_add] at follows
    exact follows
  · rw [List.reverse_append, String.ofList_append]

end Text.Utf8

/-- The token a number of lines further down. -/
def Token.moved (lines : Int) (token : Token) : Token :=
  { token with line := token.line + lines }

/-- What a token under way may be made of. -/
def Mode.Proper : Mode → Prop
  | .comparison first => (Lexer.comparison? first).isSome
  | .text quote _ _ | .escape quote _ _ => quote ≠ '\n'
  | _ => True

/-- The mode is that of a string. -/
def Mode.InText : Mode → Prop
  | .text _ _ _ | .escape _ _ _ => True
  | _ => False

namespace Lexer

/-- The lexer with tokens that were read before its own, from a text of a number
of lines. -/
def placed (earlier : List Token) (lines : Int) (lexer : Lexer) : Lexer :=
  ⟨lexer.tokens.map (Token.moved lines) ++ earlier, lexer.line + lines,
    lexer.mode⟩

section Placed

variable {lexer : Lexer} (earlier : List Token) (lines : Int)

@[simp] theorem mode_placed :
    (lexer.placed earlier lines).mode = lexer.mode :=
  rfl

theorem nextLine_placed :
    (lexer.placed earlier lines).nextLine =
      lexer.nextLine.placed earlier lines := by
  simp [nextLine, placed, Int.add_right_comm]

/-- What was read before does not count for the end of the token under way. -/
theorem close_placed :
    (lexer.placed earlier lines).close = lexer.close.placed earlier lines := by
  obtain ⟨tokens, line, mode⟩ := lexer
  cases mode with
  | comparison first =>
      simp only [close, placed, emitComparison]
      cases comparison? first <;> rfl
  | _ => rfl

/-- What reading more comes to behind tokens that were read before. -/
def placedResult : Except ScanError Lexer → Except ScanError Lexer
  | .ok after => .ok (after.placed earlier lines)
  | .error error => .error ⟨error.line + lines, error.fault⟩

/-- What was read before does not count for a character between two tokens. -/
theorem openToken_placed
    (c : Char) :
    (lexer.placed earlier lines).openToken c =
      placedResult earlier lines (lexer.openToken c) := by
  unfold openToken
  split
  · rfl
  · repeat' split
    all_goals first | rfl | simp only [placedResult, nextLine_placed]

/-- What was read before does not count for the next character. -/
theorem step_placed
    (c : Char) :
    (lexer.placed earlier lines).step c =
      placedResult earlier lines (lexer.step c) := by
  have opens : (lexer.placed earlier lines).close.openToken c =
      placedResult earlier lines (lexer.close.openToken c) := by
    rw [close_placed, openToken_placed]
  unfold step
  rw [mode_placed]
  split
  · exact openToken_placed earlier lines c
  · split
    · rfl
    · exact opens
  all_goals repeat' split
  all_goals first | rfl | exact opens | simp [placedResult, placed, nextLine,
    Int.add_right_comm]

/-- What was read before does not count for further text. -/
theorem feed_placed
    (text : List Char) :
    (lexer.placed earlier lines).feed text =
      placedResult earlier lines (lexer.feed text) := by
  induction text generalizing lexer with
  | nil => rfl
  | cons c rest inductionHypothesis =>
      simp only [feed, List.foldlM_cons]
      rw [step_placed]
      cases lexer.step c with
      | error error => rfl
      | ok next => exact inductionHypothesis

end Placed

section Lines

variable {lexer after : Lexer} {c : Char}

@[simp] theorem mode_emit
    (kind : Kind)
    (spelled : List Char) :
    (lexer.emit kind spelled).mode = .between :=
  rfl

/-- No token under way breaks the line when it ends. -/
theorem line_close :
    lexer.close.line = lexer.line := by
  unfold close
  split
  · rfl
  · unfold emitComparison
    split <;> rfl
  all_goals rfl

/-- Between two tokens, every other character leaves the lexer on its line. -/
theorem line_openToken
    (taken : lexer.openToken c = .ok after)
    (goesOn : c ≠ '\n') :
    after.line = lexer.line := by
  unfold openToken at taken
  split at taken
  · cases taken
    rfl
  · repeat' split at taken
    all_goals first | contradiction | (cases taken; rfl)

/-- A character between two tokens leads to a mode that is proper. -/
theorem proper_openToken
    (taken : lexer.openToken c = .ok after)
    (proper : lexer.mode.Proper) :
    after.mode.Proper := by
  unfold openToken at taken
  split at taken
  · cases taken
    trivial
  · repeat' split at taken
    all_goals cases taken
    all_goals trivial

/-- A proper token that is not a string ends with no other one under way. -/
theorem mode_close
    (proper : lexer.mode.Proper)
    (outside : ¬ lexer.mode.InText) :
    lexer.close.mode = .between := by
  obtain ⟨tokens, line, mode⟩ := lexer
  cases mode with
  | comparison first =>
      obtain ⟨pair, isPair⟩ := Option.isSome_iff_exists.mp proper
      simp only [close, emitComparison, isPair, mode_emit]
  | text quote spelled value => exact absurd trivial outside
  | escape quote spelled value => exact absurd trivial outside
  | _ => rfl

/-- A line break ends every token that is not a string. -/
theorem step_lineBreak
    (outside : ¬ lexer.mode.InText) :
    lexer.step '\n' = .ok lexer.close.nextLine := by
  obtain ⟨tokens, line, mode⟩ := lexer
  cases mode with
  | comparison first =>
      simp only [step]
      split
      · contradiction
      · rfl
  | text quote spelled value => exact absurd trivial outside
  | escape quote spelled value => exact absurd trivial outside
  | _ => rfl

/-- Every other character leaves the lexer on its line. -/
theorem line_step
    (taken : lexer.step c = .ok after)
    (goesOn : c ≠ '\n') :
    after.line = lexer.line := by
  have opens (opened : lexer.close.openToken c = .ok after) :
      after.line = lexer.line :=
    (line_openToken opened goesOn).trans line_close
  unfold step at taken
  split at taken
  · exact line_openToken taken goesOn
  all_goals repeat' split at taken
  all_goals first | contradiction | exact opens taken | (cases taken; rfl)

/-- A character leads to a mode that is proper. -/
theorem proper_step
    (taken : lexer.step c = .ok after)
    (proper : lexer.mode.Proper) :
    after.mode.Proper := by
  have opens
      (outside : ¬ lexer.mode.InText)
      (opened : lexer.close.openToken c = .ok after) :
      after.mode.Proper := by
    refine proper_openToken opened ?_
    rw [mode_close proper outside]
    trivial
  unfold step at taken
  split at taken
  · exact proper_openToken taken proper
  all_goals rename_i mode
  all_goals have sameMode := proper
  all_goals rw [mode] at opens proper
  all_goals repeat' split at taken
  all_goals first
    | exact opens not_false taken
    | (cases taken <;> trivial)

/-- A line break leads to the next line, also within a string. -/
theorem line_step_lineBreak
    (taken : lexer.step '\n' = .ok after)
    (proper : lexer.mode.Proper) :
    after.line = lexer.line + 1 := by
  by_cases inText : lexer.mode.InText
  · unfold step at taken
    cases mode : lexer.mode with
    | text quote spelled value =>
        rw [mode] at taken proper
        dsimp only at taken
        rw [if_neg (Ne.symm proper)] at taken
        cases taken
        rfl
    | escape quote spelled value =>
        rw [mode] at taken
        cases taken
    | _ =>
        rw [mode] at inText
        exact inText.elim
  · rw [step_lineBreak inText] at taken
    cases taken
    exact congrArg (· + 1) line_close

/-- Reading a text leads as many lines further down as it has line breaks. -/
theorem feed_eq_ok
    {text : List Char}
    (taken : lexer.feed text = .ok after)
    (proper : lexer.mode.Proper) :
    after.mode.Proper ∧ after.line = lexer.line + text.count '\n' := by
  induction text generalizing lexer with
  | nil =>
      cases taken
      simpa using proper
  | cons c rest inductionHypothesis =>
      simp only [feed, List.foldlM_cons] at taken
      cases outcome : lexer.step c with
      | error error =>
          rw [outcome] at taken
          cases taken
      | ok next =>
          rw [outcome] at taken
          obtain ⟨properAfter, line⟩ :=
            inductionHypothesis taken (proper_step outcome proper)
          refine ⟨properAfter, ?_⟩
          by_cases isBreak : c = '\n'
          · subst isBreak
            rw [line, line_step_lineBreak outcome proper, List.count_cons_self]
            push_cast
            omega
          · rw [line, line_step outcome isBreak, List.count_cons_of_ne isBreak]

end Lines

/-- A text can end anywhere but within a string. -/
theorem finish_eq_ok_iff
    {lexer : Lexer}
    {tokens : List Token} :
    lexer.finish = .ok tokens ↔
      ¬ lexer.mode.InText ∧
        tokens = lexer.close.tokens.reverse ++
          [⟨.endOfInput, "", lexer.close.line⟩] := by
  unfold finish
  cases mode : lexer.mode <;> simp [Mode.InText, eq_comm]

/-- A line break leads from a text that can end to the tokens of that text,
between two tokens of the next line. -/
theorem feed_lineBreak
    {text : List Char}
    {lexer : Lexer}
    (reads : Lexer.feed {} text = .ok lexer)
    (outside : ¬ lexer.mode.InText) :
    Lexer.feed {} (text ++ ['\n']) =
      .ok (Lexer.placed lexer.close.tokens (text.count '\n' + 1) {}) := by
  obtain ⟨proper, line⟩ := feed_eq_ok reads trivial
  have breaks : lexer.feed ['\n'] = .ok lexer.close.nextLine := by
    simp only [feed, List.foldlM_cons, List.foldlM_nil, step_lineBreak outside]
    rfl
  have mode := mode_close proper outside
  have lineAfter : lexer.close.line = 1 + text.count '\n' :=
    line_close.trans line
  rw [feed_append, reads]
  refine breaks.trans (congrArg Except.ok ?_)
  simp only [nextLine, placed, List.map_nil, List.nil_append, mode, lineAfter,
    Int.add_assoc]

end Lexer

/-- The tokens of two texts with a line break between them are those of the
first text but its end of input, and those of the second text, as many lines
further down as the first text has. -/
theorem Token.scan_joined
    {text further : String}
    {body others : List Token}
    {finish : Token}
    (scanned : Token.scan text = .ok (body ++ [finish]))
    (scannedNext : Token.scan further = .ok others) :
    Token.scan (text ++ "\n" ++ further) =
      .ok (body ++ others.map (Token.moved (text.toList.count '\n' + 1))) := by
  obtain ⟨lexer, reads, -, ends, same⟩ := Token.scan_eq_ok scanned
  obtain ⟨lexerNext, readsNext, -, endsNext, rfl⟩ :=
    Token.scan_eq_ok scannedNext
  obtain ⟨rfl, -⟩ := List.append_inj' same rfl
  have breaks := Lexer.feed_lineBreak reads (Lexer.finish_eq_ok_iff.mp ends).1
  have outsideNext := (Lexer.finish_eq_ok_iff.mp endsNext).1
  have whole : Lexer.feed {} (text ++ "\n" ++ further).toList =
      .ok (lexerNext.placed lexer.close.tokens
        (text.toList.count '\n' + 1)) := by
    rw [String.toList_append, String.toList_append, Lexer.feed_append]
    refine (congrArg (·.bind (·.feed further.toList)) breaks).trans ?_
    refine (Lexer.feed_placed _ _ _).trans ?_
    rw [readsNext]
    rfl
  unfold Token.scan
  rw [whole]
  refine Lexer.finish_eq_ok_iff.mpr ⟨outsideNext, ?_⟩
  rw [Lexer.close_placed]
  simp [Lexer.placed, Token.moved]

/-- How many lines a source has: the next one after a line break stands below
them. -/
def Program.lines (source : ByteArray) : Int :=
  match Text.Utf8.decode source with
  | .ok text => text.toList.count '\n' + 1
  | .error _ => 0

/-- The two sources with a line break between them. -/
def Program.joined (source other : ByteArray) : ByteArray :=
  source ++ "\n".toUTF8 ++ other

/-- The tokens of two sources with a line break between them are those of the
first source but its end of input, and those of the second source, as many lines
further down as the first one has. -/
theorem Program.tokens_joined
    {source other : ByteArray}
    {body others : List Token}
    {finish : Token}
    (scanned : Program.tokens source = .ok (body ++ [finish]))
    (scannedNext : Program.tokens other = .ok others) :
    Program.tokens (Program.joined source other) =
      .ok (body ++ others.map (Token.moved (Program.lines source))) := by
  obtain ⟨text, decoded, scansText⟩ := tokens_eq_ok_iff.mp scanned
  obtain ⟨further, decodedNext, scansFurther⟩ := tokens_eq_ok_iff.mp scannedNext
  have lineBreak : Text.Utf8.decode "\n".toUTF8 = .ok "\n" := rfl
  refine tokens_eq_ok_iff.mpr ⟨text ++ "\n" ++ further, ?_, ?_⟩
  · exact Text.Utf8.decode_append (Text.Utf8.decode_append decoded lineBreak)
      decodedNext
  · have same : Program.lines source = text.toList.count '\n' + 1 := by
      simp only [Program.lines, decoded]
    rw [same]
    exact Token.scan_joined scansText scansFurther

end LoxScript
