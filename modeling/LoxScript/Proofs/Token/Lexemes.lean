import Mathlib
import LoxScript.Proofs.Token.Spelling

namespace LoxScript

/-!
# What tokens and gaps are made of

Which characters make a token of which kind, and which may stand between two
tokens, both independent of how a text is read.  The characters of a token
determine its kind, and the character that a token begins with determines how it
can go on.
-/

open Lexer

/-- What the characters between the quotes of a string denote. -/
inductive Quoted (quote : Char) : List Char → List Char → Prop where
  | nil :
      Quoted quote [] []
  | plain {c spelled value} :
      c ≠ quote → c ≠ '\\' → Quoted quote spelled value →
      Quoted quote (c :: spelled) (c :: value)
  | escaped {c meant spelled value} :
      unescape? c = some meant → Quoted quote spelled value →
      Quoted quote ('\\' :: c :: spelled) (meant :: value)

/-- The characters make a token of the kind. -/
inductive Lexeme : List Char → Kind → Prop where
  | single {c symbol} :
      single? c = some symbol → Lexeme [c] (.symbol symbol)
  | alone {c symbol joined} :
      comparison? c = some (symbol, joined) → Lexeme [c] (.symbol symbol)
  | joined {c symbol joined} :
      comparison? c = some (symbol, joined) → Lexeme [c, '='] (.symbol joined)
  | slash :
      Lexeme ['/'] (.symbol .slash)
  | keyword {word : Keyword} :
      Lexeme word.spelling.toList (.keyword word)
  | identifier {first rest} :
      isWordStart first = true → (∀ c ∈ rest, isWordRest c = true) →
      (∀ word : Keyword, word.spelling ≠ String.ofList (first :: rest)) →
      Lexeme (first :: rest) (.identifier (String.ofList (first :: rest)))
  | whole {first digits} :
      first.isDigit = true → (∀ c ∈ digits, c.isDigit = true) →
      Lexeme (first :: digits) (.number (Decimal.read (first :: digits) []))
  | fraction {first digits decimal decimals} :
      first.isDigit = true → (∀ c ∈ digits, c.isDigit = true) →
      decimal.isDigit = true → (∀ c ∈ decimals, c.isDigit = true) →
      Lexeme (first :: digits ++ '.' :: decimal :: decimals)
        (.number (Decimal.read (first :: digits) (decimal :: decimals)))
  | string {quote spelled value} :
      quote = '"' ∨ quote = '\'' → Quoted quote spelled value →
      Lexeme (quote :: spelled ++ [quote]) (.string (String.ofList value))

/-- The characters that may stand between two tokens: blanks, line breaks, and
comments that end with their line. -/
inductive Gap : List Char → Prop where
  | nil :
      Gap []
  | blank {c rest} :
      c = ' ' ∨ c = '\t' ∨ c = '\r' ∨ c = '\n' → Gap rest → Gap (c :: rest)
  | comment {text rest} :
      '\n' ∉ text → Gap rest → Gap ('/' :: '/' :: text ++ '\n' :: rest)

/-- The characters that may stand behind the last token, where a comment may end
with the text. -/
inductive LastGap : List Char → Prop where
  | closed {gap} :
      Gap gap → LastGap gap
  | comment {gap text} :
      Gap gap → '\n' ∉ text → LastGap (gap ++ '/' :: '/' :: text)

/-- Gaps may follow each other. -/
theorem Gap.append
    {gap further : List Char}
    (isGap : Gap gap)
    (isFurther : Gap further) :
    Gap (gap ++ further) := by
  induction isGap with
  | nil => exact isFurther
  | blank isBlank _ inductionHypothesis =>
      exact .blank isBlank inductionHypothesis
  | @comment text rest isComment _ inductionHypothesis =>
      have same : '/' :: '/' :: text ++ '\n' :: rest ++ further =
          '/' :: '/' :: text ++ '\n' :: (rest ++ further) := by
        simp
      exact same ▸ .comment isComment inductionHypothesis

/-- A gap may stand before the last one. -/
theorem Gap.appendLast
    {gap further : List Char}
    (isGap : Gap gap)
    (isLast : LastGap further) :
    LastGap (gap ++ further) := by
  cases isLast with
  | closed isFurther => exact .closed (isGap.append isFurther)
  | comment isFurther isComment =>
      rw [← List.append_assoc]
      exact .comment (isGap.append isFurther) isComment

/-- What sort of token begins with a character. -/
inductive Opening where
  | single
  | comparison
  | slash
  | word
  | number
  | string
  | nothing
deriving DecidableEq

/-- What sort of token begins with the character. -/
def Opening.of (c : Char) : Opening :=
  if (single? c).isSome then .single
  else if (comparison? c).isSome then .comparison
  else if c = '/' then .slash
  else if c = '"' ∨ c = '\'' then .string
  else if c.isDigit then .number
  else if isWordStart c then .word
  else .nothing

namespace Opening

variable {c : Char}

theorem of_single
    {symbol : Symbol}
    (isSingle : single? c = some symbol) :
    of c = .single := by
  simp [of, isSingle]

theorem of_comparison
    {pair : Symbol × Symbol}
    (isComparison : comparison? c = some pair) :
    of c = .comparison := by
  unfold comparison? at isComparison
  split at isComparison <;> first | rfl | cases isComparison

theorem of_slash :
    of '/' = .slash :=
  rfl

theorem of_string
    (isQuote : c = '"' ∨ c = '\'') :
    of c = .string := by
  rcases isQuote with rfl | rfl <;> rfl

/-- A character that is a digit or a letter begins neither a symbol nor a
string. -/
theorem of_alphanumeric
    (isAlphanumeric : isWordRest c = true) :
    of c = if c.isDigit then .number else .word := by
  have others : single? c = none ∧ comparison? c = none ∧ c ≠ '/' ∧
      ¬ (c = '"' ∨ c = '\'') := by
    refine ⟨?_, ?_, ?_, ?_⟩
    · unfold single?
      split <;> first | rfl | (exact absurd isAlphanumeric (by decide))
    · unfold comparison?
      split <;> first | rfl | (exact absurd isAlphanumeric (by decide))
    · rintro rfl
      exact absurd isAlphanumeric (by decide)
    · rintro (rfl | rfl) <;> exact absurd isAlphanumeric (by decide)
  obtain ⟨noSingle, noComparison, noSlash, noQuote⟩ := others
  simp only [of, noSingle, noComparison, Option.isSome_none, Bool.false_eq_true,
    if_false, if_neg noSlash, if_neg noQuote]
  by_cases isDigit : c.isDigit = true
  · simp only [isDigit, if_true]
  · simp only [isDigit]
    have isStart : isWordStart c = true := by
      simpa [isWordRest, isDigit] using isAlphanumeric
    simp [isStart]

theorem of_number
    (isDigit : c.isDigit = true) :
    of c = .number := by
  rw [of_alphanumeric (by simp [isWordRest, isDigit]), if_pos isDigit]

/-- No letter is a digit. -/
theorem isDigit_of_isWordStart
    (isStart : isWordStart c = true) :
    c.isDigit = false := by
  cases isDigit : c.isDigit with
  | false => rfl
  | true =>
      by_cases isUnderscore : c = '_'
      · subst isUnderscore
        cases isDigit
      · simp only [isWordStart, isUnderscore, decide_false, Bool.or_false,
          Char.isAlpha, Char.isUpper, Char.isLower, Char.isDigit,
          Bool.or_eq_true, Bool.and_eq_true, decide_eq_true_eq, ge_iff_le,
          UInt32.le_iff_toNat_le] at isStart isDigit
        simp at isStart isDigit
        omega

theorem of_word
    (isStart : isWordStart c = true) :
    of c = .word := by
  rw [of_alphanumeric (by simp [isWordRest, isStart]), if_neg]
  simp [isDigit_of_isWordStart isStart]

end Opening

/-- How a token goes on that begins with a character, and of which kind it is
then. -/
def Opening.GoesOn (first : Char) (rest : List Char) (kind : Kind) : Prop :=
  match Opening.of first with
  | .single =>
      rest = [] ∧ ∃ symbol, single? first = some symbol ∧ kind = .symbol symbol
  | .comparison =>
      ∃ symbol joined, comparison? first = some (symbol, joined) ∧
        (rest = [] ∧ kind = .symbol symbol ∨ rest = ['='] ∧
          kind = .symbol joined)
  | .slash => rest = [] ∧ kind = .symbol .slash
  | .word =>
      (∀ c ∈ rest, isWordRest c = true) ∧
        kind = wordKind (String.ofList (first :: rest))
  | .number =>
      ∃ digits decimals : List Char, (∀ c ∈ digits, c.isDigit = true) ∧
        (∀ c ∈ decimals, c.isDigit = true) ∧
        (rest = digits ∧ decimals = [] ∨ rest = digits ++ '.' :: decimals ∧
          decimals ≠ []) ∧
        kind = .number (Decimal.read (first :: digits) decimals)
  | .string =>
      ∃ inner value, rest = inner ++ [first] ∧ Quoted first inner value ∧
        kind = .string (String.ofList value)
  | .nothing => False

/-- The kind of a word that is reserved. -/
theorem wordKind_spelling
    (word : Keyword) :
    wordKind word.spelling = .keyword word := by
  simp only [wordKind, Keyword.ofSpelling?_spelling]

/-- The kind of a word that is not reserved. -/
theorem wordKind_of_free
    {name : String}
    (isFree : ∀ word : Keyword, word.spelling ≠ name) :
    wordKind name = .identifier name := by
  unfold wordKind
  cases found : Keyword.ofSpelling? name with
  | none => rfl
  | some word =>
      exact absurd (Keyword.spelling_of_ofSpelling? found) (isFree word)

/-- A word is a token, whether it is reserved or not. -/
theorem Lexeme.word
    {first : Char}
    {rest : List Char}
    (isStart : isWordStart first = true)
    (areRest : ∀ c ∈ rest, isWordRest c = true) :
    Lexeme (first :: rest) (wordKind (String.ofList (first :: rest))) := by
  by_cases isFree : ∀ word : Keyword,
    word.spelling ≠ String.ofList (first :: rest)
  · rw [wordKind_of_free isFree]
    exact .identifier isStart areRest isFree
  · obtain ⟨word, isWord⟩ : ∃ word : Keyword,
        word.spelling = String.ofList (first :: rest) := by
      simpa using isFree
    have lexeme : Lexeme word.spelling.toList (.keyword word) := .keyword
    rw [← isWord, wordKind_spelling]
    rwa [isWord, String.toList_ofList] at lexeme

/-- Reserved words are words. -/
theorem Keyword.isWord_spelling
    (word : Keyword) :
    ∃ first rest, word.spelling.toList = first :: rest ∧
      isWordStart first = true ∧
      ∀ c ∈ rest, isWordRest c = true := by
  cases word <;> exact ⟨_, _, rfl, by decide, List.all_eq_true.mp (by decide)⟩

/-- The kind of a token and how it goes on depend on its first character. -/
theorem Lexeme.goesOn
    {spelled : List Char}
    {kind : Kind}
    (lexeme : Lexeme spelled kind) :
    ∃ first rest, spelled = first :: rest ∧ Opening.GoesOn first rest kind := by
  unfold Opening.GoesOn
  cases lexeme with
  | @single c symbol isSingle =>
      refine ⟨c, [], rfl, ?_⟩
      rw [Opening.of_single isSingle]
      exact ⟨rfl, symbol, isSingle, rfl⟩
  | @alone c symbol joined isComparison =>
      refine ⟨c, [], rfl, ?_⟩
      rw [Opening.of_comparison isComparison]
      exact ⟨symbol, joined, isComparison, .inl ⟨rfl, rfl⟩⟩
  | @joined c symbol joined isComparison =>
      refine ⟨c, ['='], rfl, ?_⟩
      rw [Opening.of_comparison isComparison]
      exact ⟨symbol, joined, isComparison, .inr ⟨rfl, rfl⟩⟩
  | slash => exact ⟨'/', [], rfl, rfl, rfl⟩
  | @keyword word =>
      obtain ⟨first, rest, same, isStart, isRest⟩ := word.isWord_spelling
      refine ⟨first, rest, same, ?_⟩
      rw [Opening.of_word isStart]
      refine ⟨isRest, ?_⟩
      rw [← same, String.ofList_toList, wordKind_spelling]
  | @identifier first rest isStart isRest isFree =>
      refine ⟨first, rest, rfl, ?_⟩
      rw [Opening.of_word isStart]
      exact ⟨isRest, (wordKind_of_free isFree).symm⟩
  | @whole first digits isDigit areDigits =>
      refine ⟨first, digits, rfl, ?_⟩
      rw [Opening.of_number isDigit]
      exact ⟨digits, [], areDigits, nofun, .inl ⟨rfl, rfl⟩, rfl⟩
  | @fraction first digits decimal decimals isDigit areDigits isDecimal
    areDecimals =>
      refine ⟨first, _, rfl, ?_⟩
      rw [Opening.of_number isDigit]
      exact ⟨digits, decimal :: decimals, areDigits,
        List.forall_mem_cons.mpr ⟨isDecimal, areDecimals⟩,
          .inr ⟨rfl, List.cons_ne_nil _ _⟩, rfl⟩
  | @string quote inner value isQuote quoted =>
      refine ⟨quote, _, rfl, ?_⟩
      rw [Opening.of_string isQuote]
      exact ⟨inner, value, rfl, quoted, rfl⟩

section Spans

variable {p : Char → Bool} {front other back others : List Char}

/-- There is one way to take as many characters of a class as possible. -/
theorem span_unique
    (same : front ++ back = other ++ others)
    (inside : ∀ c ∈ front, p c = true)
    (insideOther : ∀ c ∈ other, p c = true)
    (ends : ∀ c ∈ back.head?, p c = false)
    (endsOther : ∀ c ∈ others.head?, p c = false) :
    front = other ∧ back = others := by
  induction front generalizing other with
  | nil =>
      cases other with
      | nil => exact ⟨rfl, same⟩
      | cons c rest =>
          have isHead : c ∈ back.head? := by
            rw [List.nil_append] at same
            simp [same]
          have isInside := insideOther c List.mem_cons_self
          rw [ends c isHead] at isInside
          cases isInside
  | cons c rest inductionHypothesis =>
      cases other with
      | nil =>
          have isHead : c ∈ others.head? := by
            rw [List.nil_append] at same
            simp [← same]
          have isInside := inside c List.mem_cons_self
          rw [endsOther c isHead] at isInside
          cases isInside
      | cons d restOther =>
          obtain ⟨rfl, sameRest⟩ := List.cons.inj same
          obtain ⟨rfl, sameBack⟩ := inductionHypothesis sameRest
            (fun e member => inside e (List.mem_cons_of_mem _ member))
            (fun e member => insideOther e (List.mem_cons_of_mem _ member))
          exact ⟨rfl, sameBack⟩

/-- Characters of a class do not go on where the class ends. -/
theorem length_le_of_prefix
    (isPrefix : front <+: other ++ others)
    (inside : ∀ c ∈ front, p c = true)
    (endsOther : ∀ c ∈ others.head?, p c = false) :
    front.length ≤ other.length := by
  induction front generalizing other with
  | nil => exact Nat.zero_le _
  | cons c rest inductionHypothesis =>
      cases other with
      | nil =>
          cases others with
          | nil => cases List.prefix_nil.mp isPrefix
          | cons d restOther =>
              obtain ⟨rfl, -⟩ := List.cons_prefix_cons.mp isPrefix
              have isInside := inside c List.mem_cons_self
              rw [endsOther c rfl] at isInside
              cases isInside
      | cons d restOther =>
          obtain ⟨-, isRest⟩ := List.cons_prefix_cons.mp isPrefix
          exact Nat.succ_le_succ (inductionHypothesis isRest
            fun e member => inside e (List.mem_cons_of_mem _ member))

end Spans

/-- A string ends with its first quote that is not escaped, and denotes one
text. -/
theorem Quoted.unique
    {quote : Char}
    {spelled value other valueOther ahead others : List Char}
    (quoted : Quoted quote spelled value)
    (quotedOther : Quoted quote other valueOther)
    (isQuote : quote ≠ '\\')
    (same : spelled ++ quote :: ahead = other ++ quote :: others) :
    spelled = other ∧ value = valueOther := by
  induction quoted generalizing other valueOther with
  | nil =>
      cases quotedOther with
      | nil => exact ⟨rfl, rfl⟩
      | plain isPlain _ _ => exact absurd (List.cons.inj same).1.symm isPlain
      | escaped _ _ => exact absurd (List.cons.inj same).1 isQuote
  | @plain c spelled value isPlain isUnescaped _ inductionHypothesis =>
      cases quotedOther with
      | nil => exact absurd (List.cons.inj same).1 isPlain
      | plain _ _ quotedRest =>
          obtain ⟨rfl, sameRest⟩ := List.cons.inj same
          obtain ⟨rfl, rfl⟩ := inductionHypothesis quotedRest sameRest
          exact ⟨rfl, rfl⟩
      | escaped _ _ => exact absurd (List.cons.inj same).1 isUnescaped
  | @escaped c meant spelled value isEscape _ inductionHypothesis =>
      cases quotedOther with
      | nil => exact absurd (List.cons.inj same).1.symm isQuote
      | plain _ isUnescaped _ =>
          exact absurd (List.cons.inj same).1.symm isUnescaped
      | escaped isEscapeOther quotedRest =>
          obtain ⟨rfl, sameRest⟩ := List.cons.inj (List.cons.inj same).2
          obtain ⟨rfl, rfl⟩ := inductionHypothesis quotedRest sameRest
          rw [isEscape] at isEscapeOther
          cases isEscapeOther
          exact ⟨rfl, rfl⟩

/-- The characters of a number determine its digits and its decimals. -/
theorem digits_unique
    {rest digits decimals other decimalsOther : List Char}
    (areDigits : ∀ c ∈ digits, c.isDigit = true)
    (areDigitsOther : ∀ c ∈ other, c.isDigit = true)
    (shape : rest = digits ∧ decimals = [] ∨ rest = digits ++ '.' :: decimals ∧
      decimals ≠ [])
    (shapeOther :
      rest = other ∧ decimalsOther = [] ∨
        rest = other ++ '.' :: decimalsOther ∧ decimalsOther ≠ []) :
    digits = other ∧ decimals = decimalsOther := by
  have ended : ∀ tail : List Char, ∀ c ∈ ('.' :: tail).head?,
      c.isDigit = false := by
    rintro tail c ⟨⟩
    rfl
  rcases shape with ⟨rfl, rfl⟩ | ⟨rfl, -⟩
  · rcases shapeOther with ⟨rfl, rfl⟩ | ⟨same, -⟩
    · exact ⟨rfl, rfl⟩
    · obtain ⟨-, isNil⟩ :=
        span_unique ((List.append_nil rest).trans same) areDigits areDigitsOther
        nofun (ended _)
      cases isNil
  · rcases shapeOther with ⟨same, -⟩ | ⟨same, -⟩
    · obtain ⟨-, isNil⟩ :=
        span_unique (same.trans (List.append_nil other).symm) areDigits
        areDigitsOther (ended _) nofun
      cases isNil
    · obtain ⟨rfl, sameTail⟩ :=
        span_unique same areDigits areDigitsOther (ended _) (ended _)
      exact ⟨rfl, (List.cons.inj sameTail).2⟩

/-- A quote is not the character that starts an escape. -/
theorem Opening.ne_backslash
    {c : Char}
    (isString : Opening.of c = .string) :
    c ≠ '\\' := by
  rintro rfl
  cases isString

/-- The characters of a token determine its kind. -/
theorem Lexeme.kind_unique
    {spelled : List Char}
    {kind other : Kind}
    (lexeme : Lexeme spelled kind)
    (lexemeOther : Lexeme spelled other) :
    other = kind := by
  obtain ⟨first, rest, rfl, goesOn⟩ := lexeme.goesOn
  obtain ⟨_, _, same, goesOnOther⟩ := lexemeOther.goesOn
  cases same
  unfold Opening.GoesOn at goesOn goesOnOther
  cases opens : Opening.of first <;> simp only [opens] at goesOn goesOnOther
  case single =>
    obtain ⟨-, symbol, isSymbol, rfl⟩ := goesOn
    obtain ⟨-, symbolOther, isSymbolOther, rfl⟩ := goesOnOther
    cases isSymbol.symm.trans isSymbolOther
    rfl
  case comparison =>
    obtain ⟨symbol, joined, isPair, shape⟩ := goesOn
    obtain ⟨symbolOther, joinedOther, isPairOther, shapeOther⟩ := goesOnOther
    cases isPair.symm.trans isPairOther
    rcases shape with ⟨rfl, rfl⟩ | ⟨rfl, rfl⟩
    · rcases shapeOther with ⟨-, rfl⟩ | ⟨same, -⟩
      · rfl
      · cases same
    · rcases shapeOther with ⟨same, -⟩ | ⟨-, rfl⟩
      · cases same
      · rfl
  case slash => exact goesOnOther.2.trans goesOn.2.symm
  case word => exact goesOnOther.2.trans goesOn.2.symm
  case number =>
    obtain ⟨digits, decimals, areDigits, -, shape, rfl⟩ := goesOn
    obtain ⟨digitsOther, decimalsOther, areDigitsOther, -, shapeOther, rfl⟩ :=
      goesOnOther
    obtain ⟨rfl, rfl⟩ := digits_unique areDigits areDigitsOther shape shapeOther
    rfl
  case string =>
    obtain ⟨inner, value, rfl, quoted, rfl⟩ := goesOn
    obtain ⟨innerOther, valueOther, same, quotedOther, rfl⟩ := goesOnOther
    obtain ⟨-, rfl⟩ :=
      quoted.unique quotedOther (Opening.ne_backslash opens) same
    rfl

/-- A token is not the end of the input. -/
theorem Lexeme.ne_endOfInput
    {spelled : List Char}
    {kind : Kind}
    (lexeme : Lexeme spelled kind) :
    kind ≠ .endOfInput := by
  cases lexeme <;> nofun

/-- No token that begins where these characters begin goes on further, and no
comment begins there. -/
structure Longest (spelled ahead : List Char) : Prop where
  tokens :
    ∀ longer kind, Lexeme longer kind → longer <+: spelled ++ ahead →
      longer.length ≤ spelled.length
  noComment : ¬ ['/', '/'] <+: spelled ++ ahead

section Longest

variable {first : Char} {rest ahead : List Char}

/-- Whether characters are the longest token depends on how a token goes on that
begins as they do. -/
theorem Longest.ofGoesOn
    (stops :
      ∀ further kind, Opening.GoesOn first further kind →
        further <+: rest ++ ahead →
        further.length ≤ rest.length)
    (isNoSlash : Opening.of first ≠ .slash) :
    Longest (first :: rest) ahead := by
  constructor
  · intro longer kind lexeme isPrefix
    obtain ⟨_, further, rfl, goesOn⟩ := lexeme.goesOn
    rw [List.cons_append] at isPrefix
    obtain ⟨rfl, isFurther⟩ := List.cons_prefix_cons.mp isPrefix
    exact Nat.succ_le_succ (stops further kind goesOn isFurther)
  · intro isPrefix
    rw [List.cons_append] at isPrefix
    obtain ⟨rfl, -⟩ := List.cons_prefix_cons.mp isPrefix
    exact isNoSlash rfl

theorem longest_single
    {symbol : Symbol}
    (isSingle : single? first = some symbol)
    (ahead : List Char) :
    Longest [first] ahead := by
  have opens := Opening.of_single isSingle
  refine .ofGoesOn ?_ (by simp [opens])
  intro further kind goesOn _
  simp only [Opening.GoesOn, opens] at goesOn
  simp [goesOn.1]

theorem longest_alone
    {pair : Symbol × Symbol}
    (isComparison : comparison? first = some pair)
    (ends : ∀ c ∈ ahead.head?, c ≠ '=') :
    Longest [first] ahead := by
  have opens := Opening.of_comparison isComparison
  refine .ofGoesOn ?_ (by simp [opens])
  intro further kind goesOn isPrefix
  simp only [Opening.GoesOn, opens] at goesOn
  obtain ⟨-, -, -, ⟨rfl, -⟩ | ⟨rfl, -⟩⟩ := goesOn
  · exact Nat.le_refl _
  · rw [List.nil_append] at isPrefix
    obtain ⟨tail, rfl⟩ := isPrefix
    exact absurd rfl (ends '=' rfl)

theorem longest_joined
    {pair : Symbol × Symbol}
    (isComparison : comparison? first = some pair)
    (ahead : List Char) :
    Longest [first, '='] ahead := by
  have opens := Opening.of_comparison isComparison
  refine .ofGoesOn ?_ (by simp [opens])
  intro further kind goesOn _
  simp only [Opening.GoesOn, opens] at goesOn
  obtain ⟨-, -, -, ⟨rfl, -⟩ | ⟨rfl, -⟩⟩ := goesOn <;> simp

theorem longest_slash
    (ends : ∀ c ∈ ahead.head?, c ≠ '/') :
    Longest ['/'] ahead := by
  constructor
  · intro longer kind lexeme isPrefix
    obtain ⟨_, further, rfl, goesOn⟩ := lexeme.goesOn
    obtain ⟨rfl, -⟩ := List.cons_prefix_cons.mp isPrefix
    simp only [Opening.GoesOn, Opening.of_slash] at goesOn
    simp [goesOn.1]
  · intro isPrefix
    obtain ⟨-, tail, rfl⟩ := List.cons_prefix_cons.mp isPrefix
    exact ends '/' rfl rfl

theorem longest_word
    (isStart : isWordStart first = true)
    (ends : ∀ c ∈ ahead.head?, isWordRest c = false) :
    Longest (first :: rest) ahead := by
  have opens := Opening.of_word isStart
  refine .ofGoesOn ?_ (by simp [opens])
  intro further kind goesOn isPrefix
  simp only [Opening.GoesOn, opens] at goesOn
  exact length_le_of_prefix isPrefix goesOn.1 ends

/-- A row of digits is a whole number where neither a digit follows nor a point
with a decimal. -/
theorem longest_whole
    (isDigit : first.isDigit = true)
    (areDigits : ∀ c ∈ rest, c.isDigit = true)
    (ends : ∀ c ∈ ahead.head?, c.isDigit = false)
    (noFraction : ∀ c tail, ahead = '.' :: c :: tail → c.isDigit = false) :
    Longest (first :: rest) ahead := by
  have opens := Opening.of_number isDigit
  refine .ofGoesOn ?_ (by simp [opens])
  intro further kind goesOn isPrefix
  simp only [Opening.GoesOn, opens] at goesOn
  obtain ⟨digits, decimals, areFurther, areDecimals, ⟨rfl, -⟩ | ⟨rfl, some⟩,
    -⟩ := goesOn
  · exact length_le_of_prefix isPrefix areFurther ends
  · obtain ⟨tail, same⟩ := isPrefix
    rw [List.append_assoc] at same
    obtain ⟨rfl, rfl⟩ :=
      span_unique same areFurther areDigits (by rintro c ⟨⟩; rfl) ends
    cases decimals with
    | nil => exact absurd rfl some
    | cons decimal decimals =>
        have isDecimal := areDecimals decimal List.mem_cons_self
        rw [noFraction decimal (decimals ++ tail) rfl] at isDecimal
        cases isDecimal

theorem longest_fraction
    {digits decimals : List Char}
    (isDigit : first.isDigit = true)
    (areDigits : ∀ c ∈ digits, c.isDigit = true)
    (ends : ∀ c ∈ ahead.head?, c.isDigit = false) :
    Longest (first :: (digits ++ '.' :: decimals)) ahead := by
  have opens := Opening.of_number isDigit
  refine .ofGoesOn ?_ (by simp [opens])
  intro further kind goesOn isPrefix
  simp only [Opening.GoesOn, opens] at goesOn
  obtain ⟨other, others, areFurther, areDecimals, ⟨rfl, -⟩ | ⟨rfl, -⟩, -⟩ :=
    goesOn
  · rw [List.append_assoc] at isPrefix
    have within := length_le_of_prefix isPrefix areFurther (by rintro c ⟨⟩; rfl)
    rw [List.length_append]
    exact Nat.le_add_right_of_le within
  · obtain ⟨tail, same⟩ := isPrefix
    rw [List.append_assoc, List.append_assoc] at same
    obtain ⟨rfl, sameTail⟩ :=
      span_unique same areFurther areDigits (by rintro c ⟨⟩; rfl)
      (by rintro c ⟨⟩; rfl)
    have isDecimals : others <+: decimals ++ ahead :=
      ⟨tail, (List.cons.inj sameTail).2⟩
    have within := length_le_of_prefix isDecimals areDecimals ends
    simpa using within

theorem longest_string
    {spelled value : List Char}
    (isQuote : first = '"' ∨ first = '\'')
    (quoted : Quoted first spelled value)
    (ahead : List Char) :
    Longest (first :: (spelled ++ [first])) ahead := by
  have opens := Opening.of_string isQuote
  refine .ofGoesOn ?_ (by simp [opens])
  intro further kind goesOn isPrefix
  simp only [Opening.GoesOn, opens] at goesOn
  obtain ⟨inner, valueOther, rfl, quotedOther, -⟩ := goesOn
  obtain ⟨tail, same⟩ := isPrefix
  rw [List.append_assoc, List.append_assoc] at same
  obtain ⟨rfl, -⟩ := quotedOther.unique quoted (Opening.ne_backslash opens) same
  exact Nat.le_refl _

end Longest

end LoxScript
