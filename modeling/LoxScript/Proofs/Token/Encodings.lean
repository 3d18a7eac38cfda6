import LoxScript.Proofs.Token.Rescanning

namespace LoxScript

/-!
# Strings and their encodings

A text can be written between quotes in many ways: a character stands for itself
or is escaped, and only the quote and the backslash have to be escaped.  However
it is written, it is scanned as one string that denotes the text; and every
string that is scanned was written in one of these ways.
-/

open Lexer

/-- The characters that can be escaped, each with the letter behind the
backslash. -/
def escapes : List (Char × Char) :=
  [('\x07', 'a'), ('\x08', 'b'), ('\x0c', 'f'), ('\n', 'n'), ('\r', 'r'),
    ('\t', 't'), ('\x0b', 'v'), ('\\', '\\'), ('"', '"'), ('\'', '\'')]

/-- How a character can be written between quotes. -/
inductive Writes (quote c : Char) : List Char → Prop where
  | raw :
      c ≠ quote → c ≠ '\\' → Writes quote c [c]
  | escaped {letter} :
      (c, letter) ∈ escapes → Writes quote c ['\\', letter]

/-- The text is written between the quotes as its characters are, one after the
other. -/
def Encodes (quote : Char) (text spelled : List Char) : Prop :=
  ∃ pieces, List.Forall₂ (Writes quote) text pieces ∧ spelled = pieces.flatten

/-- The lexer reads exactly these escapes, and as these characters. -/
theorem mem_escapes_iff
    {c letter : Char} :
    (c, letter) ∈ escapes ↔ unescape? letter = some c := by
  constructor
  · intro member
    have areRead : ∀ pair ∈ escapes, unescape? pair.2 = some pair.1 := by decide
    exact areRead _ member
  · intro isMeant
    unfold unescape? at isMeant
    split at isMeant <;> cases isMeant
    all_goals decide

/-- A text is written between quotes in just the ways in which a string is read
as the text. -/
theorem encodes_iff_quoted
    {quote : Char}
    {text spelled : List Char} :
    Encodes quote text spelled ↔ Quoted quote spelled text := by
  constructor
  · rintro ⟨pieces, writes, rfl⟩
    induction writes with
    | nil => exact .nil
    | cons first _ inductionHypothesis =>
        cases first with
        | raw goesOn noEscape =>
            exact .plain goesOn noEscape inductionHypothesis
        | escaped member =>
            exact .escaped (mem_escapes_iff.mp member) inductionHypothesis
  · intro quoted
    induction quoted with
    | nil => exact ⟨[], .nil, rfl⟩
    | plain goesOn noEscape _ inductionHypothesis =>
        obtain ⟨pieces, writes, rfl⟩ := inductionHypothesis
        exact ⟨_, .cons (.raw goesOn noEscape) writes, rfl⟩
    | escaped isMeant _ inductionHypothesis =>
        obtain ⟨pieces, writes, rfl⟩ := inductionHypothesis
        exact ⟨_, .cons (.escaped (mem_escapes_iff.mpr isMeant)) writes, rfl⟩

/-- What stands between two quotes is scanned as one string, which ends on the
line of the second quote. -/
theorem Token.scan_quoted
    {quote : Char}
    {inner meant : List Char}
    (isQuote : quote = '"' ∨ quote = '\'')
    (quoted : Quoted quote inner meant) :
    Token.scan (String.ofList (quote :: inner ++ [quote])) =
      .ok [⟨.string (String.ofList meant),
        String.ofList (quote :: inner ++ [quote]),
          1 + (inner.count '\n' : Int)⟩,
        ⟨.endOfInput, "", 1 + (inner.count '\n' : Int)⟩] := by
  have noBackslash : quote ≠ '\\' := by
    rintro rfl
    simp at isQuote
  have opens : step {} quote = .ok ⟨[], 1, .text quote [quote] []⟩ :=
    openToken_quote {} isQuote
  have reads := feed_quoted [] noBackslash quoted [quote] [] 1
  have feeds : feed {} (quote :: inner ++ [quote]) =
      .ok
        ⟨[⟨.string (String.ofList meant),
            String.ofList (quote :: inner ++ [quote]),
            1 + (inner.count '\n' : Int)⟩],
          1 + (inner.count '\n' : Int), .between⟩ := by
    rw [List.cons_append, feed_cons_of_ok opens, feed_append_of_ok reads]
    simp [feed, step, emit]
  rw [Token.scan, String.toList_ofList, feeds]
  rfl

/-- However a text is written between two quotes, raw or escaped character by
character, it is scanned as one string that denotes the text and is spelled as
it was written; and every string that is scanned was written between two quotes
in such a way. -/
theorem Token.string_literals_decode_every_encoding :
    (∀ quote, quote = '"' ∨ quote = '\'' →
      ∀ (text : String) (spelled : List Char),
        Encodes quote text.toList spelled →
        Token.scan (String.ofList (quote :: spelled ++ [quote])) =
          .ok [
            ⟨.string text, String.ofList (quote :: spelled ++ [quote]),
              1 + (spelled.count '\n' : Int)⟩,
            ⟨.endOfInput, "", 1 + (spelled.count '\n' : Int)⟩]) ∧
      ∀ source tokens, Token.scan source = .ok tokens →
        ∀ token ∈ tokens, ∀ text, token.kind = .string text →
          ∃ quote spelled, (quote = '"' ∨ quote = '\'') ∧
            Encodes quote text.toList spelled ∧
            token.lexeme = String.ofList (quote :: spelled ++ [quote]) := by
  constructor
  · intro quote isQuote text spelled encodes
    have scanned := Token.scan_quoted isQuote (encodes_iff_quoted.mp encodes)
    rwa [String.ofList_toList] at scanned
  · intro source tokens scanned token member text isString
    have lexeme := Token.lexeme_of_scan scanned member (by simp [isString])
    rw [isString] at lexeme
    generalize spelled : token.lexeme.toList = characters at lexeme
    cases lexeme with
    | @string quote inner meant isQuote quoted =>
        refine ⟨quote, inner, isQuote, ?_, ?_⟩
        · rw [String.toList_ofList]
          exact encodes_iff_quoted.mpr quoted
        · rw [← spelled, String.ofList_toList]

/-- Between single quotes, a raw and an escaped line break and an escaped quote
are scanned as one string, which was written so. -/
theorem Token.string_literals_decode_mixed_encoding :
    Token.scan "'é\\'\n\\n'" =
        .ok [⟨.string "é'\n\n", "'é\\'\n\\n'", 2⟩, ⟨.endOfInput, "", 2⟩] ∧
      ∃ quote spelled, (quote = '"' ∨ quote = '\'') ∧
        Encodes quote "é'\n\n".toList spelled ∧
        "'é\\'\n\\n'" = String.ofList (quote :: spelled ++ [quote]) := by
  have encodes : Encodes '\'' "é'\n\n".toList
      ['é', '\\', '\'', '\n', '\\', 'n'] := by
    refine ⟨[['é'], ['\\', '\''], ['\n'], ['\\', 'n']], ?_, rfl⟩
    exact .cons (.raw (by decide) (by decide)) (.cons (.escaped (by decide))
      (.cons (.raw (by decide) (by decide))
        (.cons (.escaped (by decide)) .nil)))
  have scanned :=
    Token.string_literals_decode_every_encoding.1 '\''
      (.inr rfl) "é'\n\n" _ encodes
  exact ⟨scanned,
    Token.string_literals_decode_every_encoding.2 _ _ scanned _
      (.head _) "é'\n\n" rfl⟩

end LoxScript
