import LoxScript.Tree
import LoxScript.Tree.Grammar.Fault

namespace LoxScript

/-!
# Taking in tokens

A parser moves a cursor over the tokens of a source.  At the end of the input
the cursor stands still: what comes next is then the token that marks the end.
Parsers also hand out the identities of nodes, and keep count of them even when
they fail.
-/

/-- A position among the tokens of a source, and the next identity of a node. -/
structure Cursor where
  /-- The tokens not yet taken in, without the end of input. -/
  pending : List Token
  /-- The end of input. -/
  finish : Token
  nextNode : NodeId
deriving Repr

/-- The token to be taken in next. -/
def Cursor.current (cursor : Cursor) : Token :=
  cursor.pending.headD cursor.finish

/-- A parser: takes in tokens, and yields a part of a tree or a parse error. -/
abbrev Parse := EStateM ParseError Cursor

namespace Parse

/-- The kind of the next token. -/
def currentKind : Parse Kind := do
  return (← get).current.kind

/-- Takes in the next token. -/
def advance : Parse Token :=
  modifyGet fun cursor =>
    (cursor.current, { cursor with pending := cursor.pending.tail })

/-- Fails at the next token. -/
def fail (fault : ParseFault) : Parse α := do
  throw (ParseError.atToken fault (← get).current)

/-- An identity no other node has. -/
def freshNode : Parse NodeId :=
  modifyGet fun cursor =>
    (cursor.nextNode, { cursor with nextNode := cursor.nextNode + 1 })

/-- Whether the next token is the symbol. -/
def seesSymbol (symbol : Symbol) : Parse Bool := do
  match ← currentKind with
  | .symbol seen => return seen == symbol
  | _ => return false

/-- Takes in the symbol if it is next. -/
def acceptSymbol (symbol : Symbol) : Parse Bool := do
  if ← seesSymbol symbol then
    let _ ← advance
    return true
  else return false

/-- Takes in the reserved word if it is next. -/
def acceptKeyword (keyword : Keyword) : Parse Bool := do
  match ← currentKind with
  | .keyword seen =>
      if seen == keyword then
        let _ ← advance
        return true
      else return false
  | _ => return false

/-- Takes in the symbol, which has to be next. -/
def expectSymbol (symbol : Symbol) (item : Expectation) : Parse Token := do
  if ← seesSymbol symbol then advance else fail (.expected item)

/-- Takes in a name, which has to be next. -/
def expectName (item : Expectation) : Parse Token := do
  match ← currentKind with
  | .identifier _ => advance
  | _ => fail (.expected item)

end Parse

end LoxScript
