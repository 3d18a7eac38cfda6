import LoxScript.Tree.Grammar.Statement

namespace LoxScript

/-!
# From tokens to trees

A program is what stands before the first end of input.  A list of tokens that
does not end with an end of input is refused as a whole.
-/

namespace Grammar

/-- A depth above every nesting that this many tokens can spell. -/
def depthFor (tokenCount : Nat) : Nat :=
  4 * tokenCount + 8

/-- All statements up to the end of the input. -/
def program (depth : Nat) : Parse (List Stmt) :=
  statementsUntil (fun _ => false) (declaration depth) depth

end Grammar

/-- Whether a token marks the end of the input. -/
def Token.isEnd (token : Token) : Bool :=
  token.kind matches .endOfInput

/-- The cursor at the start of a list of tokens: what stands before the first
end of input. -/
def Cursor.ofTokens? (tokens : List Token) (nextNode : NodeId) :
    Except ParseError Cursor :=
  match tokens.getLast? with
  | none => .error ⟨.endless, "", 0⟩
  | some last =>
      if last.isEnd then
        let pending := tokens.takeWhile fun token => !token.isEnd
        let finish := (tokens.find? Token.isEnd).getD last
        .ok ⟨pending, finish, nextNode⟩
      else .error (.atToken .endless last)

/-- The program that a list of tokens spells, and the next identity of a
node. -/
def parseProgram
    (tokens : List Token)
    (nextNode : NodeId) : Except ParseError (List Stmt) × NodeId :=
  match Cursor.ofTokens? tokens nextNode with
  | .error error => (.error error, nextNode)
  | .ok cursor =>
      match Grammar.program (Grammar.depthFor cursor.pending.length) cursor with
      | .ok statements rest => (.ok statements, rest.nextNode)
      | .error error rest => (.error error, rest.nextNode)

end LoxScript
