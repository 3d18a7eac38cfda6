import LoxScript.Text.Utf8
import LoxScript.Token.Lexer
import LoxScript.Tree.Grammar
import LoxScript.Scope.Analysis

namespace LoxScript

/-!
# From source to program

A source becomes a program in four steps, each of which can reject it: its bytes
are decoded, the text is split into tokens, the tokens form a tree, and the
names of the tree get their distances.  Nothing runs before all four have
passed.
-/

/-- Why a source is rejected before it runs. -/
inductive StaticError where
  | encoding (fault : Text.Utf8.Fault)
  | scan (error : ScanError)
  | parse (error : ParseError)
  | scope (error : ScopeError)
deriving Repr, DecidableEq

/-- The wording of a rejection. -/
def StaticError.message : StaticError → String
  | .encoding fault => "source is not valid UTF-8: " ++ fault.message
  | .scan error => error.message
  | .parse error => error.message
  | .scope error => error.message

/-- A program ready to run: its statements and the distances of their
references. -/
structure Program where
  statements : List Stmt
  distances : Distances

namespace Program

/-- The tokens of a source. -/
def tokens (source : ByteArray) : Except StaticError (List Token) := do
  let text ← (Text.Utf8.decode source).mapError .encoding
  (Token.scan text).mapError .scan

/-- The program of a list of statements. -/
def ofStatements (statements : List Stmt) : Except StaticError Program := do
  let distances ← (resolveProgram statements).mapError .scope
  return ⟨statements, distances⟩

/-- The program of a source, and the next identity of a node. -/
def compile (source : ByteArray) (nextNode : NodeId) :
    Except StaticError Program × NodeId :=
  match tokens source with
  | .error error => (.error error, nextNode)
  | .ok scanned =>
      match parseProgram scanned nextNode with
      | (.error error, next) => (.error (.parse error), next)
      | (.ok statements, next) => (ofStatements statements, next)

end Program

end LoxScript
