import LoxScript.Token
import LoxScript.Decimal.Written

namespace LoxScript

/-!
# From characters to tokens

The lexer is an automaton that takes in one character at a time.  Its mode says
which token is under way and what of it is read; a character that cannot extend
that token closes it and opens the next one.  Reading a text from left to right
therefore never looks back, and what a prefix of the text yields does not depend
on what follows, except for the token still under way at its end.
-/

/-- Why a text cannot be split into tokens. -/
inductive ScanFault where
  | unexpectedCharacter (c : Char)
  | invalidEscape (c : Char)
  | unterminatedString
deriving Repr, DecidableEq

/-- The wording of a fault. -/
def ScanFault.message : ScanFault → String
  | .unexpectedCharacter c => "Unexpected character '" ++ c.toString ++ "'."
  | .invalidEscape c => "Invalid escape sequence '\\" ++ c.toString ++ "'."
  | .unterminatedString => "Unterminated string."

/-- A fault with the line on which it was noticed. -/
structure ScanError where
  /-- Counted from one and without bound, as the lines of tokens are. -/
  line : Int
  fault : ScanFault
deriving Repr, DecidableEq

/-- The wording of a scan error. -/
def ScanError.message (error : ScanError) : String :=
  s!"[line {error.line}] Error: {error.fault.message}"

/-- The token under way.  Characters already read are kept latest first. -/
inductive Mode where
  | between
  | comparison (first : Char)
  | slash
  | comment
  | word (letters : List Char)
  | whole (digits : List Char)
  | point (digits : List Char)
  | fraction (digits : List Char) (decimals : List Char)
  | text (quote : Char) (spelled : List Char) (value : List Char)
  | escape (quote : Char) (spelled : List Char) (value : List Char)
deriving Repr, DecidableEq

/-- A lexer part way through a text. -/
structure Lexer where
  /-- The tokens read, latest first. -/
  tokens : List Token := []
  /-- The line being read, one more than the newlines before. -/
  line : Int := 1
  mode : Mode := .between
deriving Repr

namespace Lexer

/-- Whether a word may start with the character. -/
def isWordStart (c : Char) : Bool :=
  c.isAlpha || c = '_'

/-- Whether a word may go on with the character. -/
def isWordRest (c : Char) : Bool :=
  isWordStart c || c.isDigit

/-- The symbols of one character that begin no longer symbol. -/
def single? (c : Char) : Option Symbol :=
  match c with
  | '(' => some .leftParen
  | ')' => some .rightParen
  | '\x7b' => some .leftBrace
  | '\x7d' => some .rightBrace
  | ',' => some .comma
  | '.' => some .dot
  | '-' => some .minus
  | '+' => some .plus
  | ';' => some .semicolon
  | '*' => some .star
  | _ => none

/-- The symbol of a character that an equals sign may follow: alone, and with
the sign. -/
def comparison? (c : Char) : Option (Symbol × Symbol) :=
  match c with
  | '!' => some (.bang, .bangEqual)
  | '=' => some (.equal, .equalEqual)
  | '<' => some (.less, .lessEqual)
  | '>' => some (.greater, .greaterEqual)
  | _ => none

/-- The character that an escape denotes. -/
def unescape? (c : Char) : Option Char :=
  match c with
  | 'a' => some '\x07'
  | 'b' => some '\x08'
  | 'f' => some '\x0c'
  | 'n' => some '\n'
  | 'r' => some '\r'
  | 't' => some '\t'
  | 'v' => some '\x0b'
  | '\\' => some '\\'
  | '"' => some '"'
  | '\'' => some '\''
  | _ => none

/-- The kind of a word: reserved, or a name. -/
def wordKind (word : String) : Kind :=
  match Keyword.ofSpelling? word with
  | some keyword => .keyword keyword
  | none => .identifier word

/-- Adds a token that ends on the current line, with its lexeme latest character
first. -/
def emit (lexer : Lexer) (kind : Kind) (spelled : List Char) : Lexer :=
  let token : Token := ⟨kind, String.ofList spelled.reverse, lexer.line⟩
  { lexer with tokens := token :: lexer.tokens, mode := .between }

/-- Adds the token of a row of digits. -/
def emitWhole (lexer : Lexer) (digits : List Char) : Lexer :=
  lexer.emit (.number (Decimal.read digits.reverse [])) digits

/-- Adds the token of a character that an equals sign did not follow. -/
def emitComparison (lexer : Lexer) (first : Char) : Lexer :=
  match comparison? first with
  | some (alone, _) => lexer.emit (.symbol alone) [first]
  | none => lexer

/-- Ends the token under way, which the next character does not extend. -/
def close (lexer : Lexer) : Lexer :=
  match lexer.mode with
  | .between => lexer
  | .comparison first => lexer.emitComparison first
  | .slash => lexer.emit (.symbol .slash) ['/']
  | .comment => { lexer with mode := .between }
  | .word letters =>
      lexer.emit (wordKind (String.ofList letters.reverse)) letters
  | .whole digits => lexer.emitWhole digits
  | .point digits => (lexer.emitWhole digits).emit (.symbol .dot) ['.']
  | .fraction digits decimals =>
      lexer.emit (.number (Decimal.read digits.reverse decimals.reverse))
        (decimals ++ '.' :: digits)
  | .text .. => lexer
  | .escape .. => lexer

/-- Starts on a new line. -/
def nextLine (lexer : Lexer) : Lexer :=
  { lexer with line := lexer.line + 1 }

/-- Takes in a character between two tokens. -/
def openToken (lexer : Lexer) (c : Char) : Except ScanError Lexer :=
  match single? c with
  | some symbol => .ok (lexer.emit (.symbol symbol) [c])
  | none =>
      if (comparison? c).isSome then .ok { lexer with mode := .comparison c }
      else if c = '/' then .ok { lexer with mode := .slash }
      else if c = ' ' || c = '\r' || c = '\t' then .ok lexer
      else if c = '\n' then .ok lexer.nextLine
      else if c = '"' || c = '\'' then .ok { lexer with mode := .text c [c] [] }
      else if c.isDigit then .ok { lexer with mode := .whole [c] }
      else if isWordStart c then .ok { lexer with mode := .word [c] }
      else .error ⟨lexer.line, .unexpectedCharacter c⟩

/-- Takes in one character. -/
def step (lexer : Lexer) (c : Char) : Except ScanError Lexer :=
  match lexer.mode with
  | .between => lexer.openToken c
  | .comparison first =>
      match comparison? first, c with
      | some (_, joined), '=' => .ok (lexer.emit (.symbol joined) ['=', first])
      | _, _ => lexer.close.openToken c
  | .slash =>
      if c = '/' then .ok { lexer with mode := .comment }
      else lexer.close.openToken c
  | .comment => if c = '\n' then lexer.close.openToken c else .ok lexer
  | .word letters =>
      if isWordRest c then .ok { lexer with mode := .word (c :: letters) }
      else lexer.close.openToken c
  | .whole digits =>
      if c.isDigit then .ok { lexer with mode := .whole (c :: digits) }
      else if c = '.' then .ok { lexer with mode := .point digits }
      else lexer.close.openToken c
  | .point digits =>
      if c.isDigit then .ok { lexer with mode := .fraction digits [c] }
      else lexer.close.openToken c
  | .fraction digits decimals =>
      if c.isDigit then
        .ok { lexer with mode := .fraction digits (c :: decimals) }
      else lexer.close.openToken c
  | .text quote spelled value =>
      if c = quote then
        .ok (lexer.emit (.string (String.ofList value.reverse)) (c :: spelled))
      else if c = '\\' then
        .ok { lexer with mode := .escape quote (c :: spelled) value }
      else if c = '\n' then
        .ok
          { lexer.nextLine with
            mode := .text quote (c :: spelled) (c :: value) }
      else .ok { lexer with mode := .text quote (c :: spelled) (c :: value) }
  | .escape quote spelled value =>
      match unescape? c with
      | some meant =>
          .ok { lexer with mode := .text quote (c :: spelled) (meant :: value) }
      | none => .error ⟨lexer.line, .invalidEscape c⟩

/-- Takes in the characters of a text in order. -/
def feed (lexer : Lexer) (text : List Char) : Except ScanError Lexer :=
  text.foldlM step lexer

/-- Reading two texts one after the other is reading them joined. -/
theorem feed_append
    (lexer : Lexer)
    (first second : List Char) :
    lexer.feed (first ++ second) = (lexer.feed first).bind (·.feed second) := by
  simp only [feed, List.foldlM_append]
  rfl

/-- Reading goes on behind a text that is read. -/
theorem feed_append_of_ok
    {lexer next : Lexer}
    {first : List Char}
    (reads : lexer.feed first = .ok next)
    (second : List Char) :
    lexer.feed (first ++ second) = next.feed second := by
  rw [feed_append, reads]
  rfl

/-- Reading goes on behind a character that is taken in. -/
theorem feed_cons_of_ok
    {lexer next : Lexer}
    {c : Char}
    (taken : lexer.step c = .ok next)
    (rest : List Char) :
    lexer.feed (c :: rest) = next.feed rest := by
  rw [feed, List.foldlM_cons, taken]
  rfl

/-- The tokens of a text that ends here, with the end of input as the last
one. -/
def finish (lexer : Lexer) : Except ScanError (List Token) :=
  match lexer.mode with
  | .text .. | .escape .. => .error ⟨lexer.line, .unterminatedString⟩
  | _ =>
      let closed := lexer.close
      .ok (closed.tokens.reverse ++ [⟨.endOfInput, "", closed.line⟩])

end Lexer

/-- Splits a text into tokens; the last one marks the end of the input. -/
def Token.scan (text : String) : Except ScanError (List Token) := do
  let lexer ← Lexer.feed {} text.toList
  lexer.finish

/-- A text whose characters are read has the tokens that the lexer ends with. -/
theorem Token.scan_of_ok
    {text : String}
    {lexer : Lexer}
    (reads : Lexer.feed {} text.toList = .ok lexer) :
    Token.scan text = lexer.finish := by
  rw [Token.scan, reads]
  rfl

end LoxScript
