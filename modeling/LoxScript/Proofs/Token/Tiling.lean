import LoxScript.Proofs.Token.Joining
import LoxScript.Proofs.Token.Lexemes

namespace LoxScript

/-!
# Scanning tiles the text

A lexer that reads on from between two tokens reads a gap or one whole token,
the longest one there is, and is between two tokens again.  So the tokens of a
text and the gaps between them are the text, one after the other.
-/

namespace Lexer

variable {lexer : Lexer} {read tokens : List Token} {line : Int}
  {text rest : List Char}

/-- The tokens of a text that the lexer reads to its end. -/
def complete (lexer : Lexer) (text : List Char) :
    Except ScanError (List Token) :=
  (lexer.feed text).bind finish

/-- Reading to the end, one character at a time. -/
theorem complete_cons
    (lexer : Lexer)
    (c : Char)
    (rest : List Char) :
    lexer.complete (c :: rest) = (lexer.step c).bind (·.complete rest) := by
  unfold complete feed
  rw [List.foldlM_cons]
  cases lexer.step c <;> rfl

/-- Reading on from a character that is taken in. -/
theorem complete_of_step
    {next : Lexer}
    {c : Char}
    (taken : lexer.step c = .ok next) :
    lexer.complete (c :: rest) = next.complete rest := by
  rw [complete_cons, taken]
  rfl

/-- What is closed stays closed. -/
theorem close_of_between
    (isBetween : lexer.mode = .between) :
    lexer.close = lexer := by
  unfold close
  rw [isBetween]

/-- A token under way that does not go on can be ended. -/
theorem complete_close
    (lexer : Lexer)
    (proper : lexer.mode.Proper)
    (outside : ¬ lexer.mode.InText)
    (ends : ∀ c ∈ text.head?, lexer.step c = lexer.close.openToken c) :
    lexer.complete text = lexer.close.complete text := by
  have isBetween := mode_close proper outside
  cases text with
  | nil =>
      have closed : ¬ lexer.close.mode.InText := by
        rw [isBetween]
        exact id
      have finishes := finish_eq_ok_iff.mpr ⟨outside, rfl⟩
      have finishesClosed := finish_eq_ok_iff.mpr ⟨closed, rfl⟩
      rw [close_of_between isBetween] at finishesClosed
      exact finishes.trans finishesClosed.symm
  | cons c rest =>
      have opens : lexer.close.step c = lexer.close.openToken c := by
        unfold step
        rw [isBetween]
      rw [complete_cons, complete_cons, ends c rfl, opens]

/-- A token under way takes in all characters that it can go on with. -/
theorem complete_grow
    (grow : List Char → Mode)
    {p : Char → Bool}
    (grows :
      ∀ chars c, p c = true →
        step ⟨read, line, grow chars⟩ c = .ok ⟨read, line, grow (c :: chars)⟩)
    (chars text : List Char) :
    ∃ inside rest, text = inside ++ rest ∧ (∀ c ∈ inside, p c = true) ∧
      (∀ c ∈ rest.head?, p c = false) ∧
      complete ⟨read, line, grow chars⟩ text =
        complete ⟨read, line, grow (inside.reverse ++ chars)⟩ rest := by
  induction text generalizing chars with
  | nil => exact ⟨[], [], rfl, nofun, nofun, rfl⟩
  | cons c rest inductionHypothesis =>
      cases isInside : p c with
      | false =>
          refine ⟨[], c :: rest, rfl, nofun, ?_, rfl⟩
          rintro d ⟨⟩
          exact isInside
      | true =>
          obtain ⟨inside, further, rfl, areInside, ends, same⟩ :=
            inductionHypothesis (c :: chars)
          have areAll : ∀ d ∈ c :: inside, p d = true :=
            List.forall_mem_cons.mpr ⟨isInside, areInside⟩
          refine ⟨c :: inside, further, rfl, areAll, ends, ?_⟩
          rw [complete_cons, grows chars c isInside]
          refine same.trans ?_
          rw [List.reverse_cons, List.append_assoc]
          rfl

/-- What a lexer comes to that reads on from between two tokens: the end of the
text, a gap, or the longest token there is. -/
inductive Advances (lexer : Lexer) (text : List Char) (tokens : List Token) :
    Prop where
  | last :
      LastGap text → '\n' ∉ text →
      tokens = lexer.tokens.reverse ++ [⟨.endOfInput, "", lexer.line⟩] →
      Advances lexer text tokens
  | gap {gap rest} :
      text = gap ++ rest → gap ≠ [] → Gap gap →
      complete ⟨lexer.tokens, lexer.line + gap.count '\n', .between⟩ rest =
        .ok tokens →
      Advances lexer text tokens
  | token {spelled kind rest} :
      text = spelled ++ rest → Lexeme spelled kind → Longest spelled rest →
      complete
          ⟨⟨kind, String.ofList spelled, lexer.line + spelled.count '\n'⟩ ::
            lexer.tokens,
            lexer.line + spelled.count '\n', .between⟩ rest = .ok tokens →
      Advances lexer text tokens

namespace Advances

variable {first : Char}

/-- A token on one line. -/
theorem ofToken
    {spelled : List Char}
    {kind : Kind}
    (lexeme : Lexeme spelled kind)
    (longest : Longest spelled rest)
    (onLine : '\n' ∉ spelled)
    (isRead :
      complete ⟨⟨kind, String.ofList spelled, line⟩ :: read, line, .between⟩
        rest = .ok tokens) :
    Advances ⟨read, line, .between⟩ (spelled ++ rest) tokens := by
  refine .token rfl lexeme longest ?_
  rw [List.count_eq_zero.mpr onLine, Int.natCast_zero, Int.add_zero]
  exact isRead

/-- A gap on one line. -/
theorem ofGap
    {gap : List Char}
    (isGap : Gap gap)
    (isSome : gap ≠ [])
    (onLine : '\n' ∉ gap)
    (isRead : complete ⟨read, line, .between⟩ rest = .ok tokens) :
    Advances ⟨read, line, .between⟩ (gap ++ rest) tokens := by
  refine .gap rfl isSome isGap ?_
  rw [List.count_eq_zero.mpr onLine, Int.natCast_zero, Int.add_zero]
  exact isRead

/-- A text that does not begin with a character has another head. -/
theorem head_ne_of_not_cons
    {c : Char}
    (noHead : ¬ ∃ further, rest = c :: further) :
    ∀ d ∈ rest.head?, d ≠ c := by
  rintro d isHead rfl
  cases rest with
  | nil => cases isHead
  | cons e further =>
      cases isHead
      exact noHead ⟨further, rfl⟩

/-- A symbol that begins no longer one. -/
theorem ofSingle
    {symbol : Symbol}
    (isSingle : single? first = some symbol)
    (isRead : complete ⟨read, line, .between⟩ (first :: rest) = .ok tokens) :
    Advances ⟨read, line, .between⟩ (first :: rest) tokens := by
  rw [complete_cons] at isRead
  simp only [step, openToken, isSingle] at isRead
  refine ofToken (.single isSingle) (longest_single isSingle rest) ?_ isRead
  rintro (⟨⟩ | ⟨_, ⟨⟩⟩)
  cases isSingle

/-- A symbol that an equals sign may follow. -/
theorem ofComparison
    {symbol joined : Symbol}
    (isComparison : comparison? first = some (symbol, joined))
    (isRead : complete ⟨read, line, .comparison first⟩ rest = .ok tokens) :
    Advances ⟨read, line, .between⟩ (first :: rest) tokens := by
  have isVisible : first ≠ '\n' := by
    rintro rfl
    cases isComparison
  by_cases isJoined : ∃ further, rest = '=' :: further
  · obtain ⟨further, rfl⟩ := isJoined
    have joins : step ⟨read, line, .comparison first⟩ '=' =
        .ok ⟨⟨.symbol joined, String.ofList [first, '='], line⟩ :: read, line,
          .between⟩ := by
      simp only [step, isComparison]
      rfl
    rw [complete_of_step joins] at isRead
    refine ofToken (.joined isComparison) (longest_joined isComparison further)
      ?_ isRead
    simp [Ne.symm isVisible]
  · have ends := head_ne_of_not_cons isJoined
    have proper : (Mode.comparison first).Proper := by
      simp [Mode.Proper, isComparison]
    rw [complete_close ⟨read, line, .comparison first⟩ proper id ?_] at isRead
    · simp only [close, emitComparison, isComparison] at isRead
      refine ofToken (.alone isComparison)
        (longest_alone isComparison ends) ?_ isRead
      simp [Ne.symm isVisible]
    · intro c isHead
      simp only [step, isComparison]
      split
      · exact absurd rfl (ends _ isHead)
      · rfl

/-- A comment up to the end of its line. -/
theorem ofComment
    (isRead : complete ⟨read, line, .comment⟩ rest = .ok tokens) :
    Advances ⟨read, line, .between⟩ ('/' :: '/' :: rest) tokens := by
  have grows (chars : List Char) (c : Char) (isInside : (c != '\n') = true) :
      step ⟨read, line, .comment⟩ c = .ok ⟨read, line, .comment⟩ := by
    simp only [bne_iff_ne, ne_eq] at isInside
    simp [step, isInside]
  obtain ⟨inside, rest, rfl, areInside, ends, same⟩ :=
    complete_grow (fun _ => .comment) grows [] rest
  have noBreak : '\n' ∉ inside := by
    intro member
    simpa using areInside _ member
  rw [same] at isRead
  cases rest with
  | nil =>
      rw [List.append_nil]
      refine .last (.comment .nil noBreak) (by simp [noBreak]) ?_
      cases isRead
      rfl
  | cons c more =>
      have isBreak : c = '\n' := by
        simpa using ends c rfl
      subst isBreak
      have isGap : Gap ('/' :: '/' :: inside ++ ['\n']) := .comment noBreak .nil
      have lines : ('/' :: '/' :: inside ++ ['\n']).count '\n' = 1 := by
        simp [List.count_eq_zero.mpr noBreak]
      have split : '/' :: '/' :: (inside ++ '\n' :: more) =
          ('/' :: '/' :: inside ++ ['\n']) ++ more := by
        simp
      refine .gap split (by simp) isGap ?_
      rw [lines]
      exact (complete_of_step rfl).symm.trans isRead

/-- A slash, or a comment. -/
theorem ofSlash
    (isRead : complete ⟨read, line, .slash⟩ rest = .ok tokens) :
    Advances ⟨read, line, .between⟩ ('/' :: rest) tokens := by
  by_cases isComment : ∃ further, rest = '/' :: further
  · obtain ⟨further, rfl⟩ := isComment
    exact ofComment ((complete_of_step rfl).symm.trans isRead)
  · have ends := head_ne_of_not_cons isComment
    rw [complete_close ⟨read, line, .slash⟩ trivial id ?_] at isRead
    · exact ofToken .slash (longest_slash ends) (by decide) isRead
    · intro c isHead
      simp only [step, if_neg (ends c isHead)]

/-- A word is read to its end. -/
theorem ofWord
    (isStart : isWordStart first = true)
    (isRead : complete ⟨read, line, .word [first]⟩ rest = .ok tokens) :
    Advances ⟨read, line, .between⟩ (first :: rest) tokens := by
  have grows (letters : List Char) (c : Char) (isInside : isWordRest c = true) :
      step ⟨read, line, .word letters⟩ c = .ok
        ⟨read, line, .word (c :: letters)⟩ := by
    simp only [step, isInside, if_true]
  obtain ⟨inside, rest, rfl, areInside, ends, same⟩ :=
    complete_grow .word grows [first] rest
  rw [same, complete_close ⟨read, line, .word _⟩ trivial id ?_] at isRead
  · have onLine : '\n' ∉ first :: inside := by
      rintro (⟨⟩ | ⟨_, member⟩)
      · cases isStart
      · cases areInside _ member
    refine ofToken (.word isStart areInside)
      (longest_word isStart ends) onLine ?_
    simpa [close, emit] using isRead
  · intro c isHead
    simp only [step, ends c isHead, Bool.false_eq_true, if_false]

/-- Digits are a whole number where neither a digit follows nor a point with a
decimal. -/
theorem complete_whole
    (digits : List Char)
    (ends : ∀ c ∈ rest.head?, c.isDigit = false)
    (noFraction : ∀ c tail, rest = '.' :: c :: tail → c.isDigit = false) :
    complete ⟨read, line, .whole digits⟩ rest =
      complete (emitWhole ⟨read, line, .between⟩ digits) rest := by
  by_cases isPoint : ∃ tail, rest = '.' :: tail
  · obtain ⟨tail, rfl⟩ := isPoint
    have points : step ⟨read, line, .whole digits⟩ '.' =
        .ok ⟨read, line, .point digits⟩ := rfl
    rw [complete_of_step points,
      complete_close ⟨read, line, .point digits⟩ trivial id ?_]
    · exact (complete_of_step rfl).symm
    · intro c isHead
      obtain ⟨further, rfl⟩ := List.head?_eq_some_iff.mp isHead
      simp only [step, noFraction c further rfl, Bool.false_eq_true, if_false]
  · have ends' := head_ne_of_not_cons isPoint
    refine complete_close ⟨read, line, .whole digits⟩ trivial id ?_
    intro c isHead
    simp only [step, ends c isHead, Bool.false_eq_true, if_false,
      if_neg (ends' c isHead)]

/-- Digits stand on one line. -/
theorem onLine_of_digits
    {digits : List Char}
    (areDigits : ∀ c ∈ digits, c.isDigit = true) :
    '\n' ∉ digits := by
  intro member
  cases areDigits _ member

/-- Digits with a point and a decimal behind them are read up to the last
decimal. -/
theorem ofFraction
    {digits further : List Char}
    {decimal : Char}
    (isDigit : first.isDigit = true)
    (areDigits : ∀ c ∈ digits, c.isDigit = true)
    (isDecimal : decimal.isDigit = true)
    (isRead :
      complete ⟨read, line, .whole (digits.reverse ++ [first])⟩
        ('.' :: decimal :: further) = .ok tokens) :
    Advances ⟨read, line, .between⟩
      (first :: (digits ++ '.' :: decimal :: further)) tokens := by
  have grows (chars : List Char) (c : Char) (isInside : c.isDigit = true) :
      step ⟨read, line, .fraction (digits.reverse ++ [first]) chars⟩ c =
        .ok ⟨read, line, .fraction (digits.reverse ++ [first])
          (c :: chars)⟩ := by
    simp only [step, isInside, if_true]
  obtain ⟨decimals, rest, rfl, areDecimals, ends, same⟩ :=
    complete_grow (.fraction (digits.reverse ++ [first])) grows
      [decimal] further
  have points : step ⟨read, line, .whole (digits.reverse ++ [first])⟩ '.' =
      .ok ⟨read, line, .point (digits.reverse ++ [first])⟩ := rfl
  have takes : step ⟨read, line, .point (digits.reverse ++ [first])⟩ decimal =
      .ok ⟨read, line, .fraction (digits.reverse ++ [first]) [decimal]⟩ := by
    simp only [step, isDecimal, if_true]
  rw [complete_of_step points, complete_of_step takes, same,
    complete_close ⟨read, line, .fraction _ _⟩ trivial id ?_] at isRead
  · have lexeme := Lexeme.fraction isDigit areDigits isDecimal areDecimals
    have longest :
        Longest (first :: (digits ++ '.' :: decimal :: decimals)) rest :=
      longest_fraction isDigit areDigits ends
    have noBreak :=
      onLine_of_digits (List.forall_mem_cons.mpr ⟨isDigit, areDigits⟩)
    have noBreakNext :=
      onLine_of_digits (List.forall_mem_cons.mpr ⟨isDecimal, areDecimals⟩)
    have onLine : '\n' ∉ first :: digits ++ '.' :: decimal :: decimals := by
      intro member
      rcases List.mem_append.mp member with before | behind
      · exact noBreak before
      · rcases List.mem_cons.mp behind with isPoint | beyond
        · cases isPoint
        · exact noBreakNext beyond
    have shape : first :: (digits ++ '.' :: decimal :: (decimals ++ rest)) =
        first :: digits ++ '.' :: decimal :: decimals ++ rest := by
      simp
    rw [shape]
    refine ofToken lexeme longest onLine ?_
    simpa [close, emit] using isRead
  · intro c isHead
    simp only [step, ends c isHead, Bool.false_eq_true, if_false]

/-- A number is read to its end: digits, and a point with decimals behind it. -/
theorem ofNumber
    (isDigit : first.isDigit = true)
    (isRead : complete ⟨read, line, .whole [first]⟩ rest = .ok tokens) :
    Advances ⟨read, line, .between⟩ (first :: rest) tokens := by
  have grows (chars : List Char) (c : Char) (isInside : c.isDigit = true) :
      step ⟨read, line, .whole chars⟩ c = .ok
        ⟨read, line, .whole (c :: chars)⟩ := by
    simp only [step, isInside, if_true]
  obtain ⟨digits, rest, rfl, areDigits, ends, same⟩ :=
    complete_grow .whole grows [first] rest
  rw [same] at isRead
  by_cases isFraction : ∃ c further, rest = '.' :: c :: further ∧
    c.isDigit = true
  · obtain ⟨decimal, further, rfl, isDecimal⟩ := isFraction
    exact ofFraction isDigit areDigits isDecimal isRead
  · have noFraction : ∀ c tail, rest = '.' :: c :: tail →
        c.isDigit = false := by
      rintro c tail rfl
      cases isDecimal : c.isDigit with
      | false => rfl
      | true => exact absurd ⟨c, tail, rfl, isDecimal⟩ isFraction
    have onLine :=
      onLine_of_digits (List.forall_mem_cons.mpr ⟨isDigit, areDigits⟩)
    rw [complete_whole _ ends noFraction] at isRead
    refine ofToken (.whole isDigit areDigits)
      (longest_whole isDigit areDigits ends noFraction) onLine ?_
    simpa [emitWhole, emit] using isRead

/-- An escape that is under way is read with the character that it is made
of. -/
theorem complete_escape
    {quote : Char}
    {spelled value : List Char}
    (isRead : complete ⟨read, line, .escape quote spelled value⟩ text =
      .ok tokens) :
    ∃ c meant rest, text = c :: rest ∧ c ≠ '\n' ∧ unescape? c = some meant ∧
      complete ⟨read, line, .text quote (c :: spelled) (meant :: value)⟩ rest =
        .ok tokens := by
  cases text with
  | nil => cases isRead
  | cons c rest =>
      rw [complete_cons] at isRead
      cases isMeant : unescape? c with
      | none =>
          simp only [step, isMeant] at isRead
          cases isRead
      | some meant =>
          simp only [step, isMeant] at isRead
          refine ⟨c, meant, rest, rfl, ?_, isMeant, isRead⟩
          rintro rfl
          cases isMeant

/-- A string that is under way is read up to its quote. -/
theorem complete_text
    {quote : Char}
    (text spelled value : List Char)
    (line : Int)
    (isRead : complete ⟨read, line, .text quote spelled value⟩ text =
      .ok tokens) :
    ∃ inner meant rest, text = inner ++ quote :: rest ∧
      Quoted quote inner meant ∧
      complete
        ⟨⟨.string (String.ofList (value.reverse ++ meant)),
            String.ofList (spelled.reverse ++ inner ++ [quote]),
            line + inner.count '\n'⟩ :: read,
          line + inner.count '\n', .between⟩ rest = .ok tokens := by
  match text with
  | [] => cases isRead
  | c :: further =>
      by_cases isEnd : c = quote
      · subst isEnd
        have ends : step ⟨read, line, .text c spelled value⟩ c =
            .ok ⟨⟨.string (String.ofList value.reverse), String.ofList
              (c :: spelled).reverse, line⟩ :: read, line, .between⟩ := by
          simp only [step, if_true]
          rfl
        rw [complete_of_step ends] at isRead
        refine ⟨[], [], further, rfl, .nil, ?_⟩
        simpa using isRead
      by_cases isEscape : c = '\\'
      · subst isEscape
        have escapes : step ⟨read, line, .text quote spelled value⟩ '\\' =
            .ok ⟨read, line, .escape quote ('\\' :: spelled) value⟩ := by
          simp only [step, if_neg isEnd, if_true]
        rw [complete_of_step escapes] at isRead
        obtain ⟨escape, meant, further, rfl, onLine, isMeant, isRead⟩ :=
          complete_escape isRead
        obtain ⟨inner, text, rest, rfl, quoted, completes⟩ :=
          complete_text further _ _ _ isRead
        refine ⟨'\\' :: escape :: inner, meant :: text, rest, rfl,
          .escaped isMeant quoted, ?_⟩
        simpa [List.count_cons, onLine] using completes
      · by_cases isBreak : c = '\n'
        · subst isBreak
          have breaks : step ⟨read, line, .text quote spelled value⟩ '\n' =
              .ok ⟨read, line + 1, .text quote ('\n' :: spelled)
                ('\n' :: value)⟩ := by
            simp only [step, if_neg isEnd]
            rfl
          rw [complete_of_step breaks] at isRead
          obtain ⟨inner, text, rest, rfl, quoted, completes⟩ :=
            complete_text further _ _ _ isRead
          refine ⟨'\n' :: inner, '\n' :: text, rest, rfl,
            .plain isEnd isEscape quoted, ?_⟩
          have lines : line + 1 + (inner.count '\n' : Int) =
              line + (('\n' :: inner).count '\n' : Int) := by
            rw [List.count_cons_self]
            push_cast
            omega
          rw [← lines]
          simpa using completes
        · have goesOn : step ⟨read, line, .text quote spelled value⟩ c =
              .ok ⟨read, line, .text quote (c :: spelled) (c :: value)⟩ := by
            simp only [step, if_neg isEnd, if_neg isEscape, if_neg isBreak]
          rw [complete_of_step goesOn] at isRead
          obtain ⟨inner, text, rest, rfl, quoted, completes⟩ :=
            complete_text further _ _ _ isRead
          refine ⟨c :: inner, c :: text, rest, rfl,
            .plain isEnd isEscape quoted, ?_⟩
          simpa [List.count_cons, isBreak] using completes
termination_by text.length

/-- A string is read to its end. -/
theorem ofString
    (isQuote : first = '"' ∨ first = '\'')
    (isRead : complete ⟨read, line, .text first [first] []⟩ rest = .ok tokens) :
    Advances ⟨read, line, .between⟩ (first :: rest) tokens := by
  have onLine : first ≠ '\n' := by
    rintro rfl
    simp at isQuote
  obtain ⟨inner, meant, rest, rfl, quoted, completes⟩ :=
    complete_text _ _ _ _ isRead
  have shape : first :: (inner ++ first :: rest) =
      first :: inner ++ [first] ++ rest := by
    simp
  have lines : (first :: inner ++ [first]).count '\n' = inner.count '\n' := by
    simp [List.count_append, onLine]
  refine .token shape (.string isQuote quoted)
    (longest_string isQuote quoted rest) ?_
  rw [lines]
  simpa using completes

end Advances

/-- Between two tokens, a lexer that reads to the end advances. -/
theorem advances_of_complete
    (isRead : complete ⟨read, line, .between⟩ text = .ok tokens) :
    Advances ⟨read, line, .between⟩ text tokens := by
  cases text with
  | nil =>
      cases isRead
      exact .last (.closed .nil) nofun rfl
  | cons c rest =>
      cases isSingle : single? c with
      | some symbol => exact .ofSingle isSingle isRead
      | none =>
          rw [complete_cons] at isRead
          simp only [step, openToken, isSingle] at isRead
          split at isRead
          · rename_i isComparison
            obtain ⟨⟨symbol, joined⟩, isPair⟩ :=
              Option.isSome_iff_exists.mp isComparison
            exact .ofComparison isPair isRead
          split at isRead
          · rename_i isSlash
            subst isSlash
            exact .ofSlash isRead
          split at isRead
          · rename_i isBlank
            have blank : (c = ' ' ∨ c = '\r') ∨ c = '\t' := by
              simpa using isBlank
            have isGap : Gap [c] := by
              refine .blank ?_ .nil
              rcases blank with (rfl | rfl) | rfl <;> simp
            have onLine : '\n' ∉ [c] := by
              rcases blank with (rfl | rfl) | rfl <;> decide
            exact .ofGap isGap (List.cons_ne_nil _ _) onLine isRead
          split at isRead
          · rename_i isBreak
            subst isBreak
            have isGap : Gap ['\n'] := .blank (by simp) .nil
            have split : '\n' :: rest = ['\n'] ++ rest := rfl
            exact .gap split (List.cons_ne_nil _ _) isGap isRead
          split at isRead
          · rename_i isQuote
            exact .ofString (by simpa using isQuote) isRead
          split at isRead
          · rename_i isDigit
            exact .ofNumber isDigit isRead
          split at isRead
          · rename_i isStart
            exact .ofWord isStart isRead
          · cases isRead

end Lexer

/-- A token with the gap before it. -/
structure Tile where
  gap : List Char
  token : Token

/-- The characters of a tile. -/
def Tile.text (tile : Tile) : List Char :=
  tile.gap ++ tile.token.lexeme.toList

/-- The tile is what a text reads as between the characters before it and those
ahead of it. -/
structure Tile.Fits (before : List Char) (tile : Tile) (ahead : List Char) :
    Prop where
  gap : Gap tile.gap
  lexeme : Lexeme tile.token.lexeme.toList tile.token.kind
  decided : ∀ kind, Lexeme tile.token.lexeme.toList kind →
    kind = tile.token.kind
  longest : Longest tile.token.lexeme.toList ahead
  line : tile.token.line = 1 + ((before ++ tile.text).count '\n' : Int)

/-- The tiles and a last gap follow each other behind the characters before
them. -/
inductive Tiles : List Char → List Tile → List Char → Prop where
  | last {before last} :
      LastGap last → Tiles before [] last
  | tile {before tile tiles last} :
      tile.Fits before (tiles.flatMap Tile.text ++ last) →
      Tiles (before ++ tile.text) tiles last → Tiles before (tile :: tiles) last

namespace Tiles

variable {before last : List Char} {tiles : List Tile}

/-- A gap before the tiles belongs to the first of them. -/
theorem afterGap
    {gap : List Char}
    (isGap : Gap gap)
    (covers : Tiles (before ++ gap) tiles last) :
    ∃ widened further,
      widened.flatMap Tile.text ++ further =
        gap ++ (tiles.flatMap Tile.text ++ last) ∧
      widened.map Tile.token = tiles.map Tile.token ∧
        Tiles before widened further := by
  cases covers with
  | last isLast =>
      exact ⟨[], gap ++ last, rfl, rfl, .last (isGap.appendLast isLast)⟩
  | @tile _ tile tiles _ fits covers =>
      have wider : before ++ (⟨gap ++ tile.gap, tile.token⟩ : Tile).text =
          before ++ gap ++ tile.text := by
        simp [Tile.text]
      refine ⟨⟨gap ++ tile.gap, tile.token⟩ :: tiles, last, ?_, rfl,
        .tile ?_ (wider ▸ covers)⟩
      · simp [Tile.text]
      · exact ⟨isGap.append fits.gap, fits.lexeme, fits.decided, fits.longest,
          wider ▸ fits.line⟩

/-- Behind the tiles stands a last gap. -/
theorem lastGap
    (covers : Tiles before tiles last) :
    LastGap last := by
  induction covers with
  | last isLast => exact isLast
  | tile _ _ inductionHypothesis => exact inductionHypothesis

/-- Each tile fits between those before it and those behind it. -/
theorem fits
    (covers : Tiles before tiles last)
    {front back : List Tile}
    {tile : Tile}
    (split : tiles = front ++ tile :: back) :
    tile.Fits (before ++ front.flatMap Tile.text)
      (back.flatMap Tile.text ++ last) := by
  induction covers generalizing front with
  | last _ => simp at split
  | tile isFit _ inductionHypothesis =>
      cases front with
      | nil =>
          cases split
          simpa using isFit
      | cons first front =>
          obtain ⟨rfl, rest⟩ := List.cons.inj split
          simpa [List.flatMap_cons] using inductionHypothesis rest

end Tiles

/-- A lexer that is between two tokens tiles what it reads to the end. -/
theorem Lexer.tiles_of_complete
    (before text : List Char)
    (read : List Token)
    {tokens : List Token}
    (isRead : complete ⟨read, 1 + before.count '\n', .between⟩ text =
      .ok tokens) :
    ∃ tiles last,
      text = tiles.flatMap Tile.text ++ last ∧
      tokens =
        read.reverse ++ tiles.map Tile.token ++
          [⟨.endOfInput, "", 1 + ((before ++ text).count '\n' : Int)⟩] ∧
      Tiles before tiles last := by
  have lines : ∀ further : List Char,
      1 + (before.count '\n' : Int) + further.count '\n' =
        1 + ((before ++ further).count '\n' : Int) := by
    intro further
    rw [List.count_append]
    push_cast
    omega
  cases advances_of_complete isRead with
  | last isLast onLine ends =>
      refine ⟨[], text, rfl, ?_, .last isLast⟩
      rw [ends, ← lines, List.count_eq_zero.mpr onLine]
      simp
  | @gap gap rest split isSome isGap isRest =>
      subst split
      have shorter : rest.length < (gap ++ rest).length := by
        have isPositive := List.length_pos_iff.mpr isSome
        rw [List.length_append]
        omega
      simp only [lines] at isRest
      obtain ⟨tiles, last, rfl, rfl, covers⟩ :=
        tiles_of_complete _ rest _ isRest
      obtain ⟨widened, further, same, sameTokens, tiled⟩ :=
        covers.afterGap isGap
      refine ⟨widened, further, same.symm, ?_, tiled⟩
      rw [sameTokens, List.append_assoc before]
  | @token spelled kind rest split lexeme longest isRest =>
      subst split
      have shorter : rest.length < (spelled ++ rest).length := by
        obtain ⟨first, further, rfl, -⟩ := lexeme.goesOn
        rw [List.length_append, List.length_cons]
        omega
      simp only [lines] at isRest
      obtain ⟨tiles, last, rfl, rfl, covers⟩ :=
        tiles_of_complete _ rest _ isRest
      let token : Token :=
        ⟨kind, String.ofList spelled,
          1 + ((before ++ spelled).count '\n' : Int)⟩
      have isText : Tile.text ⟨[], token⟩ = spelled := String.toList_ofList
      refine ⟨⟨[], token⟩ :: tiles, last, ?_, ?_,
        .tile ?_ (isText.symm ▸ covers)⟩
      · rw [List.flatMap_cons, isText, List.append_assoc]
      · simp [token]
      · have isLexeme : token.lexeme.toList = spelled := String.toList_ofList
        refine ⟨.nil, isLexeme.symm ▸ lexeme, ?_, isLexeme.symm ▸ longest, ?_⟩
        · intro other lexemeOther
          exact lexeme.kind_unique (isLexeme ▸ lexemeOther)
        · rw [isText]
termination_by text.length

/-- Every token of a text but the end of input is made of the characters of its
lexeme. -/
theorem Token.lexeme_of_scan
    {text : String}
    {tokens : List Token}
    (scanned : Token.scan text = .ok tokens)
    {token : Token}
    (member : token ∈ tokens)
    (goesOn : token.kind ≠ .endOfInput) :
    Lexeme token.lexeme.toList token.kind := by
  obtain ⟨tiles, last, -, listed, covers⟩ :=
    Lexer.tiles_of_complete [] text.toList [] scanned
  rw [listed, List.reverse_nil, List.nil_append] at member
  rcases List.mem_append.mp member with isTile | isEnd
  · obtain ⟨tile, inTiles, rfl⟩ := List.mem_map.mp isTile
    obtain ⟨front, back, shape⟩ := List.append_of_mem inTiles
    exact (covers.fits shape).lexeme
  · cases List.mem_singleton.mp isEnd
    exact absurd rfl goesOn

/-- The tokens of a text and the gaps between them are the text, one after the
other: each token is the longest that begins where it does, is of the one kind
that its characters make, and names the line on which it ends; the end of the
input stands behind them. -/
theorem Token.scanning_tiles_the_text
    {text : String}
    {tokens : List Token}
    (scanned : Token.scan text = .ok tokens) :
    ∃ tiles last,
      text.toList = tiles.flatMap Tile.text ++ last ∧
      tokens =
        tiles.map Tile.token ++
          [⟨.endOfInput, "", 1 + (text.toList.count '\n' : Int)⟩] ∧
      LastGap last ∧
      (∀ tile ∈ tiles, tile.token.kind ≠ .endOfInput) ∧
      ∀ front tile back, tiles = front ++ tile :: back →
        tile.Fits (front.flatMap Tile.text)
          (back.flatMap Tile.text ++ last) := by
  obtain ⟨tiles, last, split, listed, covers⟩ :=
    Lexer.tiles_of_complete [] text.toList [] scanned
  refine ⟨tiles, last, split, by simpa using listed, covers.lastGap, ?_, ?_⟩
  · intro tile member
    obtain ⟨front, back, shape⟩ := List.append_of_mem member
    exact (covers.fits shape).lexeme.ne_endOfInput
  · intro front tile back shape
    simpa using covers.fits shape

/-- A text with a string over two lines, and comments in its middle and at its
end. -/
def annotated : String :=
  "print 'a\nb' != c; // no\n  // end"

/-- The tokens of a text with a string over two lines and two comments tile
it. -/
theorem scanning_tiles_annotated_text :
    ∃ tiles last,
      annotated.toList = tiles.flatMap Tile.text ++ last ∧
      tiles.map Tile.token =
        [⟨.keyword .printWord, "print", 1⟩, ⟨.string "a\nb", "'a\nb'", 2⟩,
          ⟨.symbol .bangEqual, "!=", 2⟩, ⟨.identifier "c", "c", 2⟩,
          ⟨.symbol .semicolon, ";", 2⟩] ∧
      LastGap last ∧
      ∀ front tile back, tiles = front ++ tile :: back →
        tile.Fits (front.flatMap Tile.text)
          (back.flatMap Tile.text ++ last) := by
  have scanned : Token.scan annotated =
      .ok ([⟨.keyword .printWord, "print", 1⟩, ⟨.string "a\nb", "'a\nb'", 2⟩,
        ⟨.symbol .bangEqual, "!=", 2⟩, ⟨.identifier "c", "c", 2⟩,
        ⟨.symbol .semicolon, ";", 2⟩] ++ [⟨.endOfInput, "", 3⟩]) := by
    cbv
  obtain ⟨tiles, last, split, listed, isLast, -, fits⟩ :=
    Token.scanning_tiles_the_text scanned
  exact ⟨tiles, last, split, (List.append_inj_left' listed rfl).symm, isLast,
    fits⟩

end LoxScript
