import LoxScript.Proofs.Token.Tiling

namespace LoxScript

/-!
# Rescanning is stable

What makes a token in a text makes the same token between two blanks, whatever
its neighbours were.  So the tokens of a text, written with single blanks
between them, are scanned as the same tokens.
-/

namespace Lexer

variable {lexer : Lexer} {read : List Token} {line : Int} {text : List Char}

/-- A blank ends every token but a string, and belongs to none; only a comment
goes on. -/
theorem step_blank
    (outside : ¬ lexer.mode.InText)
    (noComment : lexer.mode ≠ .comment) :
    lexer.step ' ' = .ok lexer.close := by
  obtain ⟨tokens, line, mode⟩ := lexer
  cases mode with
  | comparison first =>
      simp only [step]
      split
      · contradiction
      · rfl
  | text quote spelled value => exact absurd trivial outside
  | escape quote spelled value => exact absurd trivial outside
  | comment => exact absurd rfl noComment
  | _ => rfl

/-- A token under way takes in characters that it can go on with. -/
theorem feed_grow
    (grow : List Char → Mode)
    {p : Char → Bool}
    (grows :
      ∀ chars c, p c = true →
        step ⟨read, line, grow chars⟩ c = .ok ⟨read, line, grow (c :: chars)⟩)
    {inside : List Char}
    (areInside : ∀ c ∈ inside, p c = true)
    (chars : List Char) :
    feed ⟨read, line, grow chars⟩ inside = .ok
      ⟨read, line, grow (inside.reverse ++ chars)⟩ := by
  induction inside generalizing chars with
  | nil => rfl
  | cons c rest inductionHypothesis =>
      obtain ⟨isInside, areRest⟩ := List.forall_mem_cons.mp areInside
      rw [feed_cons_of_ok (grows chars c isInside) rest,
        inductionHypothesis areRest, List.append_cons, ← List.reverse_cons]

/-- The characters between the quotes of a string are read as what they denote,
and the line breaks among them are counted. -/
theorem feed_quoted
    (read : List Token)
    {quote : Char}
    {inner meant : List Char}
    (noBackslash : quote ≠ '\\')
    (quoted : Quoted quote inner meant)
    (spelled value : List Char)
    (line : Int) :
    feed ⟨read, line, .text quote spelled value⟩ inner =
      .ok ⟨read, line + inner.count '\n',
        .text quote (inner.reverse ++ spelled) (meant.reverse ++ value)⟩ := by
  induction quoted generalizing spelled value line with
  | nil => simp [feed, pure, Except.pure]
  | @plain c inner meant goesOn noEscape _ inductionHypothesis =>
      have takes : step ⟨read, line, .text quote spelled value⟩ c =
          .ok ⟨read, line + [c].count '\n', .text quote (c :: spelled)
            (c :: value)⟩ := by
        simp only [step, if_neg goesOn, if_neg noEscape]
        split
        · rename_i isBreak
          subst isBreak
          rfl
        · rename_i onLine
          simp [onLine]
      have lines : line + ([c].count '\n' : Int) + inner.count '\n' =
          line + (c :: inner).count '\n' := by
        rw [← List.singleton_append (l := inner), List.count_append,
          Nat.cast_add, add_assoc]
      have reads := inductionHypothesis (c :: spelled) (c :: value)
        (line + [c].count '\n')
      rw [lines] at reads
      rw [feed_cons_of_ok takes inner, reads]
      simp
  | @escaped c escaped inner meant isMeant _ inductionHypothesis =>
      have escapes : step ⟨read, line, .text quote spelled value⟩ '\\' =
          .ok ⟨read, line, .escape quote ('\\' :: spelled) value⟩ := by
        simp only [step, if_neg (Ne.symm noBackslash), if_true]
      have takes : step ⟨read, line, .escape quote ('\\' :: spelled) value⟩ c =
          .ok ⟨read, line, .text quote (c :: '\\' :: spelled)
            (escaped :: value)⟩ := by
        simp only [step, isMeant]
      have onLine : c ≠ '\n' := by
        rintro rfl
        cases isMeant
      have reads := inductionHypothesis (c :: '\\' :: spelled)
        (escaped :: value) line
      rw [feed_cons_of_ok escapes (c :: inner), feed_cons_of_ok takes inner,
        reads]
      simp [onLine]

/-- The lexer has read tokens, the last of which may not have ended yet, and is
on the line. -/
structure Holds (lexer : Lexer) (tokens : List Token) (line : Int) : Prop where
  outside : ¬ lexer.mode.InText
  noComment : lexer.mode ≠ .comment
  closes : lexer.close = ⟨tokens, line, .between⟩

/-- Between two tokens the lexer holds those before. -/
theorem holds_between : Holds ⟨read, line, .between⟩ read line :=
  ⟨not_false, by simp, rfl⟩

/-- Behind a blank the lexer is between two tokens. -/
theorem Holds.blank
    {tokens : List Token}
    (holds : lexer.Holds tokens line) :
    lexer.step ' ' = .ok ⟨tokens, line, .between⟩ := by
  rw [step_blank holds.outside holds.noComment, holds.closes]

/-- Between two tokens a character opens the next one. -/
theorem step_between
    (read : List Token)
    (line : Int)
    (c : Char) :
    step ⟨read, line, .between⟩ c = openToken ⟨read, line, .between⟩ c :=
  rfl

section Openings

variable (lexer) {c : Char}

/-- A character that an equals sign may follow is waited with. -/
theorem openToken_comparison
    {pair : Symbol × Symbol}
    (isComparison : comparison? c = some pair) :
    lexer.openToken c = .ok { lexer with mode := .comparison c } := by
  unfold comparison? at isComparison
  split at isComparison <;> first | rfl | cases isComparison

/-- A quote begins a string. -/
theorem openToken_quote
    (isQuote : c = '"' ∨ c = '\'') :
    lexer.openToken c = .ok { lexer with mode := .text c [c] [] } := by
  rcases isQuote with rfl | rfl <;> rfl

/-- A digit begins a number, and a letter a word. -/
theorem openToken_alphanumeric
    (isAlphanumeric : isWordRest c = true) :
    lexer.openToken c =
      .ok
        { lexer with mode := if c.isDigit then .whole [c] else .word [c] } := by
  have opening : Opening.of c = .number ∨ Opening.of c = .word := by
    rw [Opening.of_alphanumeric isAlphanumeric]
    split
    · exact .inl rfl
    · exact .inr rfl
  have noSingle : single? c = none := by
    cases isSingle : single? c with
    | none => rfl
    | some symbol => simp [Opening.of_single isSingle] at opening
  have noComparison : (comparison? c).isSome = false := by
    cases isComparison : comparison? c with
    | none => rfl
    | some pair => simp [Opening.of_comparison isComparison] at opening
  have differs (d : Char) (isOther : isWordRest d = false) : c ≠ d := by
    rintro rfl
    rw [isOther] at isAlphanumeric
    cases isAlphanumeric
  have noSlash := differs '/' rfl
  have noBreak := differs '\n' rfl
  have noBlank : ¬ ((c = ' ' ∨ c = '\r') ∨ c = '\t') :=
    not_or.mpr ⟨not_or.mpr ⟨differs ' ' rfl, differs '\r' rfl⟩,
      differs '\t' rfl⟩
  have noQuote : ¬ (c = '"' ∨ c = '\'') :=
    not_or.mpr ⟨differs '"' rfl, differs '\'' rfl⟩
  cases isDigit : c.isDigit with
  | true =>
      simp [openToken, noSingle, noComparison, noSlash, noBlank, noBreak,
        noQuote, isDigit]
  | false =>
      have isStart : isWordStart c = true := by
        simpa [isWordRest, isDigit] using isAlphanumeric
      simp [openToken, noSingle, noComparison, noSlash, noBlank, noBreak,
        noQuote, isDigit, isStart]

end Openings

section Lexemes

variable (read) (line)

/-- The characters are read as the token. -/
def Reads (spelled : List Char) (kind : Kind) : Prop :=
  ∃ lexer after, feed ⟨read, line, .between⟩ spelled = .ok lexer ∧
    lexer.Holds (⟨kind, String.ofList spelled, after⟩ :: read) after

/-- A word is read. -/
theorem reads_word
    {first : Char}
    {rest : List Char}
    (isStart : isWordStart first = true)
    (areRest : ∀ c ∈ rest, isWordRest c = true) :
    Reads read line (first :: rest)
      (wordKind (String.ofList (first :: rest))) := by
  have opens : step ⟨read, line, .between⟩ first =
      .ok ⟨read, line, .word [first]⟩ := by
    rw [step_between, openToken_alphanumeric _ (by simp [isWordRest, isStart])]
    simp [Opening.isDigit_of_isWordStart isStart]
  have grows (letters : List Char) (c : Char) (isInside : isWordRest c = true) :
      step ⟨read, line, .word letters⟩ c = .ok
        ⟨read, line, .word (c :: letters)⟩ := by
    simp only [step, isInside, if_true]
  refine ⟨⟨read, line, .word (rest.reverse ++ [first])⟩, line, ?_, not_false,
    by simp, ?_⟩
  · rw [feed_cons_of_ok opens rest]
    exact feed_grow .word grows areRest [first]
  · simp [close, emit]

/-- Digits are read up to the last of them. -/
theorem feed_digits
    {first : Char}
    {digits : List Char}
    (isDigit : first.isDigit = true)
    (areDigits : ∀ c ∈ digits, c.isDigit = true) :
    feed ⟨read, line, .between⟩ (first :: digits) =
      .ok ⟨read, line, .whole (digits.reverse ++ [first])⟩ := by
  have opens : step ⟨read, line, .between⟩ first =
      .ok ⟨read, line, .whole [first]⟩ := by
    rw [step_between, openToken_alphanumeric _ (by simp [isWordRest, isDigit]),
      if_pos isDigit]
  have grows (chars : List Char) (c : Char) (isInside : c.isDigit = true) :
      step ⟨read, line, .whole chars⟩ c = .ok
        ⟨read, line, .whole (c :: chars)⟩ := by
    simp only [step, isInside, if_true]
  rw [feed_cons_of_ok opens digits]
  exact feed_grow .whole grows areDigits [first]

/-- A whole number is read. -/
theorem reads_whole
    {first : Char}
    {digits : List Char}
    (isDigit : first.isDigit = true)
    (areDigits : ∀ c ∈ digits, c.isDigit = true) :
    Reads read line (first :: digits)
      (.number (Decimal.read (first :: digits) [])) := by
  refine ⟨_, line, feed_digits read line isDigit areDigits, not_false,
    by simp, ?_⟩
  simp [close, emitWhole, emit]

/-- A number with decimals is read. -/
theorem reads_fraction
    {first decimal : Char}
    {digits decimals : List Char}
    (isDigit : first.isDigit = true)
    (areDigits : ∀ c ∈ digits, c.isDigit = true)
    (isDecimal : decimal.isDigit = true)
    (areDecimals : ∀ c ∈ decimals, c.isDigit = true) :
    Reads read line (first :: digits ++ '.' :: decimal :: decimals)
      (.number (Decimal.read (first :: digits) (decimal :: decimals))) := by
  have grows (chars : List Char) (c : Char) (isInside : c.isDigit = true) :
      step ⟨read, line, .fraction (digits.reverse ++ [first]) chars⟩ c =
        .ok ⟨read, line, .fraction (digits.reverse ++ [first])
          (c :: chars)⟩ := by
    simp only [step, isInside, if_true]
  have points : step ⟨read, line, .whole (digits.reverse ++ [first])⟩ '.' =
      .ok ⟨read, line, .point (digits.reverse ++ [first])⟩ := rfl
  have takes : step ⟨read, line, .point (digits.reverse ++ [first])⟩ decimal =
      .ok ⟨read, line, .fraction (digits.reverse ++ [first]) [decimal]⟩ := by
    simp only [step, isDecimal, if_true]
  refine ⟨⟨read, line, .fraction (digits.reverse ++ [first])
    (decimals.reverse ++ [decimal])⟩, line, ?_, not_false, by simp, ?_⟩
  · rw [feed_append_of_ok (feed_digits read line isDigit areDigits),
      feed_cons_of_ok points, feed_cons_of_ok takes]
    exact feed_grow _ grows areDecimals [decimal]
  · simp [close, emit]

/-- A string is read. -/
theorem reads_string
    {quote : Char}
    {inner meant : List Char}
    (isQuote : quote = '"' ∨ quote = '\'')
    (quoted : Quoted quote inner meant) :
    Reads read line (quote :: inner ++ [quote])
      (.string (String.ofList meant)) := by
  have noBackslash : quote ≠ '\\' := by
    rintro rfl
    simp at isQuote
  have opens : step ⟨read, line, .between⟩ quote =
      .ok ⟨read, line, .text quote [quote] []⟩ := by
    rw [step_between, openToken_quote _ isQuote]
  have reads := feed_quoted read noBackslash quoted [quote] [] line
  refine ⟨⟨_, line + inner.count '\n', .between⟩, line + inner.count '\n', ?_,
    holds_between⟩
  rw [List.cons_append, feed_cons_of_ok opens, feed_append_of_ok reads]
  simp [feed, step, emit]

/-- A sign that an equals sign may follow is held until the next character. -/
theorem step_comparison
    {c : Char}
    {pair : Symbol × Symbol}
    (isComparison : comparison? c = some pair) :
    step ⟨read, line, .between⟩ c = .ok ⟨read, line, .comparison c⟩ := by
  rw [step_between, openToken_comparison _ isComparison]

/-- The characters of a token are read as this token. -/
theorem reads_lexeme
    {spelled : List Char}
    {kind : Kind}
    (lexeme : Lexeme spelled kind) :
    Reads read line spelled kind := by
  cases lexeme with
  | @single c symbol isSingle =>
      refine ⟨⟨_, line, .between⟩, line, ?_, holds_between⟩
      simp only [feed, List.foldlM_cons, step, openToken, isSingle]
      rfl
  | @alone c symbol joined isComparison =>
      refine ⟨⟨read, line, .comparison c⟩, line, ?_, not_false, by simp, ?_⟩
      · rw [feed_cons_of_ok (step_comparison read line isComparison)]
        rfl
      · simp only [close, emitComparison, isComparison]
        rfl
  | @joined c symbol joined isComparison =>
      refine ⟨⟨_, line, .between⟩, line, ?_, holds_between⟩
      rw [feed_cons_of_ok (step_comparison read line isComparison)]
      simp only [feed, List.foldlM_cons, step, isComparison]
      rfl
  | slash => exact ⟨⟨read, line, .slash⟩, line, rfl, not_false, by simp, rfl⟩
  | @keyword word =>
      obtain ⟨first, rest, same, isStart, areRest⟩ := word.isWord_spelling
      have reads := reads_word read line isStart areRest
      rwa [← same, String.ofList_toList, wordKind_spelling] at reads
  | identifier isStart areRest isFree =>
      have reads := reads_word read line isStart areRest
      rwa [wordKind_of_free isFree] at reads
  | whole isDigit areDigits => exact reads_whole read line isDigit areDigits
  | fraction isDigit areDigits isDecimal areDecimals =>
      exact reads_fraction read line isDigit areDigits isDecimal areDecimals
  | string isQuote quoted => exact reads_string read line isQuote quoted

end Lexemes

/-- The texts of tokens with single blanks between them. -/
def spaced (tokens : List Token) : List Char :=
  [' '].intercalate (tokens.map fun token => token.lexeme.toList)

end Lexer

/-- What a token is, apart from its line. -/
def Token.content (token : Token) : Kind × String :=
  (token.kind, token.lexeme)

/-- Tokens with single blanks between them are read as tokens of the same
contents. -/
theorem Lexer.feed_spaced
    (tokens : List Token)
    (areLexemes : ∀ token ∈ tokens, Lexeme token.lexeme.toList token.kind)
    (read : List Token)
    (line : Int) :
    ∃ lexer, ∃ others : List Token, ∃ after,
      feed ⟨read, line, .between⟩ (spaced tokens) = .ok lexer ∧
      lexer.Holds (others.reverse ++ read) after ∧
      others.map Token.content = tokens.map Token.content := by
  induction tokens generalizing read line with
  | nil => exact ⟨_, [], line, rfl, holds_between, rfl⟩
  | cons token rest inductionHypothesis =>
      obtain ⟨isLexeme, areRest⟩ := List.forall_mem_cons.mp areLexemes
      obtain ⟨lexer, below, reads, holds⟩ := reads_lexeme read line isLexeme
      rw [String.ofList_toList] at holds
      cases rest with
      | nil =>
          have shape : spaced [token] = token.lexeme.toList := by
            simp [spaced]
          exact ⟨lexer, [⟨token.kind, token.lexeme, below⟩], below, shape ▸
            reads, holds, rfl⟩
      | cons next further =>
          obtain ⟨last, others, after, readsRest, holdsRest, same⟩ :=
            inductionHypothesis areRest
              (⟨token.kind, token.lexeme, below⟩ :: read) below
          have shape : spaced (token :: next :: further) =
              token.lexeme.toList ++ ' ' :: spaced (next :: further) := by
            simp [spaced, List.intercalate_cons_cons]
          refine ⟨last, ⟨token.kind, token.lexeme, below⟩ :: others,
            after, ?_, ?_, ?_⟩
          · rw [shape, feed_append_of_ok reads, feed_cons_of_ok holds.blank]
            exact readsRest
          · simpa using holdsRest
          · simpa [Token.content] using same

/-- The texts of all tokens but the end of input, with single blanks between
them. -/
def Token.respelled (tokens : List Token) : String :=
  " ".intercalate
    ((tokens.filter fun token => !token.kind matches .endOfInput).map
      Token.lexeme)

/-- Rescanning is stable: the tokens of a text, written with single blanks
between them, are scanned as tokens of the same kinds, with the same payloads
and lexemes, in the same order. -/
theorem Token.rescanning_is_stable
    {text : String}
    {tokens : List Token}
    (scanned : Token.scan text = .ok tokens) :
    ∃ again, Token.scan (Token.respelled tokens) = .ok again ∧
      again.map Token.content = tokens.map Token.content := by
  obtain ⟨tiles, last, -, listed, covers⟩ :=
    Lexer.tiles_of_complete [] text.toList [] scanned
  have areLexemes :
      ∀ token ∈ tiles.map Tile.token,
        Lexeme token.lexeme.toList token.kind := by
    rw [List.forall_mem_map]
    intro tile member
    obtain ⟨front, back, shape⟩ := List.append_of_mem member
    exact (covers.fits shape).lexeme
  have kept : (tiles.map Tile.token).filter
      (fun token => !token.kind matches .endOfInput) =
      tiles.map Tile.token := by
    refine List.filter_eq_self.mpr fun token member => ?_
    have goesOn := (areLexemes token member).ne_endOfInput
    cases kind : token.kind with
    | endOfInput => exact absurd kind goesOn
    | _ => rfl
  have respelled : (Token.respelled tokens).toList =
      Lexer.spaced (tiles.map Tile.token) := by
    rw [listed, List.reverse_nil, List.nil_append, Token.respelled,
      List.filter_append, kept, String.toList_intercalate]
    simp [Lexer.spaced, Function.comp_def]
  obtain ⟨lexer, others, after, reads, holds, same⟩ :=
    Lexer.feed_spaced _ areLexemes [] 1
  have ends := Lexer.finish_eq_ok_iff.mpr ⟨holds.outside, rfl⟩
  rw [holds.closes] at ends
  refine ⟨others ++ [⟨.endOfInput, "", after⟩], ?_, ?_⟩
  · rw [← respelled] at reads
    rw [Token.scan_of_ok reads, ends]
    simp
  · rw [listed]
    simp [same, Token.content]

/-- A text with numbers, points and strings that stand next to each other. -/
def crammed : String :=
  "1.2.a//b\n'c\nd'\"e\"==!="

/-- The tokens of the text that stand next to each other are scanned again with
blanks between. -/
theorem Token.rescanning_crammed_text_is_stable :
    ∃ tokens again, Token.scan crammed = .ok tokens ∧
      Token.scan "1.2 . a 'c\nd' \"e\" == !=" = .ok again ∧
      again.map Token.content = tokens.map Token.content ∧
      tokens.map Token.content =
        [(.number (Decimal.read ['1'] ['2']), "1.2"), (.symbol .dot, "."),
          (.identifier "a", "a"), (.string "c\nd", "'c\nd'"),
          (.string "e", "\"e\""), (.symbol .equalEqual, "=="),
          (.symbol .bangEqual, "!="), (.endOfInput, "")] := by
  have scanned : Token.scan crammed = .ok [
      ⟨.number (Decimal.read ['1'] ['2']), "1.2", 1⟩, ⟨.symbol .dot, ".", 1⟩,
      ⟨.identifier "a", "a", 1⟩, ⟨.string "c\nd", "'c\nd'", 3⟩,
      ⟨.string "e", "\"e\"", 3⟩, ⟨.symbol .equalEqual, "==", 3⟩,
      ⟨.symbol .bangEqual, "!=", 3⟩, ⟨.endOfInput, "", 3⟩] :=
    rfl
  obtain ⟨again, rescanned, same⟩ := Token.rescanning_is_stable scanned
  exact ⟨_, again, scanned, rescanned, same, rfl⟩

end LoxScript
