namespace LoxScript

/-!
# Tokens

A token is a piece of source text with its kind and the line on which it ends.
Names, strings and numbers carry what they denote; every other kind is a fixed
symbol or a reserved word.
-/

/-- Operators and punctuation. -/
inductive Symbol where
  | leftParen | rightParen | leftBrace | rightBrace
  | comma | dot | minus | plus | semicolon | slash | star
  | bang | bangEqual | equal | equalEqual
  | greater | greaterEqual | less | lessEqual
deriving Repr, DecidableEq

namespace Symbol

/-- Every symbol. -/
def all : List Symbol :=
  [.leftParen, .rightParen, .leftBrace, .rightBrace,
    .comma, .dot, .minus, .plus, .semicolon, .slash, .star,
    .bang, .bangEqual, .equal, .equalEqual,
    .greater, .greaterEqual, .less, .lessEqual]

/-- The name by which diagnostics call a symbol. -/
def name : Symbol → String
  | .leftParen => "LeftParen"
  | .rightParen => "RightParen"
  | .leftBrace => "LeftBrace"
  | .rightBrace => "RightBrace"
  | .comma => "Comma"
  | .dot => "Dot"
  | .minus => "Minus"
  | .plus => "Plus"
  | .semicolon => "Semicolon"
  | .slash => "Slash"
  | .star => "Star"
  | .bang => "Bang"
  | .bangEqual => "BangEqual"
  | .equal => "Equal"
  | .equalEqual => "EqualEqual"
  | .greater => "Greater"
  | .greaterEqual => "GreaterEqual"
  | .less => "Less"
  | .lessEqual => "LessEqual"

end Symbol

/-- Reserved words. -/
inductive Keyword where
  | andWord | classWord | elseWord | falseWord | funWord | forWord
  | ifWord | nilWord | orWord | printWord | returnWord | superWord
  | thisWord | trueWord | varWord | whileWord | requireWord
deriving Repr, DecidableEq

namespace Keyword

/-- Every reserved word. -/
def all : List Keyword :=
  [.andWord, .classWord, .elseWord, .falseWord, .funWord, .forWord,
    .ifWord, .nilWord, .orWord, .printWord, .returnWord, .superWord,
    .thisWord, .trueWord, .varWord, .whileWord, .requireWord]

/-- How a reserved word is spelled. -/
def spelling : Keyword → String
  | .andWord => "and"
  | .classWord => "class"
  | .elseWord => "else"
  | .falseWord => "false"
  | .funWord => "fun"
  | .forWord => "for"
  | .ifWord => "if"
  | .nilWord => "nil"
  | .orWord => "or"
  | .printWord => "print"
  | .returnWord => "return"
  | .superWord => "super"
  | .thisWord => "this"
  | .trueWord => "true"
  | .varWord => "var"
  | .whileWord => "while"
  | .requireWord => "require"

/-- The name by which diagnostics call a reserved word. -/
def name : Keyword → String
  | .andWord => "And"
  | .classWord => "Class"
  | .elseWord => "Else"
  | .falseWord => "False"
  | .funWord => "Fun"
  | .forWord => "For"
  | .ifWord => "If"
  | .nilWord => "Nil"
  | .orWord => "Or"
  | .printWord => "Print"
  | .returnWord => "Return"
  | .superWord => "Super"
  | .thisWord => "This"
  | .trueWord => "True"
  | .varWord => "Var"
  | .whileWord => "While"
  | .requireWord => "Require"

/-- The reserved word with this spelling. -/
def ofSpelling? (word : String) : Option Keyword :=
  all.find? fun keyword => keyword.spelling == word

/-- Every reserved word is found by its spelling. -/
theorem ofSpelling?_spelling (keyword : Keyword) :
    ofSpelling? keyword.spelling = some keyword := by
  cases keyword <;> decide

end Keyword

/-- What a token is, with what it denotes. -/
inductive Kind where
  | symbol (sign : Symbol)
  | keyword (word : Keyword)
  | identifier (name : String)
  | string (text : String)
  | number (value : Float)
  | endOfInput
deriving Repr, BEq

/-- The name by which diagnostics call a kind of token. -/
def Kind.name : Kind → String
  | .symbol sign => sign.name
  | .keyword word => word.name
  | .identifier _ => "Identifier"
  | .string _ => "String"
  | .number _ => "Number"
  | .endOfInput => "EOF"

/-- The symbol or reserved word that diagnostics call by this name. -/
def Kind.ofFixedName? (name : String) : Option Kind :=
  if name = "EOF" then some .endOfInput
  else
    match Symbol.all.find? fun sign => sign.name == name with
    | some sign => some (.symbol sign)
    | none => (Keyword.all.find? fun word => word.name == name).map .keyword

/-- A piece of source text. -/
structure Token where
  kind : Kind
  /-- The text as it stands in the source. -/
  lexeme : String
  /-- The line on which the text ends, counted from one.  Lines are counted
  without bound: with 32 bits they are counted alike as long as fewer than
  `2 ^ 31 - 1` newlines are read. -/
  line : Int
deriving Repr, BEq

end LoxScript
