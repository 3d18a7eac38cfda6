import Mathlib.Data.List.Forall2
import LoxScript.Proofs.Mirror
import LoxScript.Tree.Grammar

namespace LoxScript

/-!
# Trees over other tokens

Two trees are alike if they have one shape and the tokens and the identities of
nodes at each place are related.  A parser looks at nothing but the kinds of
tokens, and not at how a name is spelled: from tokens that are related one by
one it makes trees that are alike.
-/

/-- The same kind, or two names. -/
inductive Kind.Alike : Kind → Kind → Prop where
  | same {kind} :
      Alike kind kind
  | names {name other} :
      Alike (.identifier name) (.identifier other)

/-- How the tokens of two trees are related, and how the identities of their
nodes are. -/
structure Correspondence where
  tokens : Token → Token → Prop
  nodes : NodeId → NodeId → Prop

/-- The identities of the nodes are the same. -/
def Correspondence.ofTokens (tokens : Token → Token → Prop) : Correspondence :=
  ⟨tokens, Eq⟩

variable (related : Correspondence)

/-- Expressions of one shape with related tokens and nodes. -/
inductive Expr.Alike : Expr → Expr → Prop where
  | literal {value} :
      Alike (.literal value) (.literal value)
  | grouping {inner inner'} :
      Alike inner inner' →
      Alike (.grouping inner) (.grouping inner')
  | unary {operator operator' operand operand'} :
      related.tokens operator operator' → Alike operand operand' →
      Alike (.unary operator operand) (.unary operator' operand')
  | binary {left left' operator operator' right right'} :
      Alike left left' → related.tokens operator operator' →
      Alike right right' →
      Alike (.binary left operator right) (.binary left' operator' right')
  | logical {left left' operator operator' right right'} :
      Alike left left' → related.tokens operator operator' →
      Alike right right' →
      Alike (.logical left operator right) (.logical left' operator' right')
  | reference {id id' name name'} :
      related.nodes id id' → related.tokens name name' →
      Alike (.reference id name) (.reference id' name')
  | assign {id id' name name' value value'} :
      related.nodes id id' → related.tokens name name' → Alike value value' →
      Alike (.assign id name value) (.assign id' name' value')
  | call {callee callee' paren paren' arguments arguments'} :
      Alike callee callee' → related.tokens paren paren' →
      List.Forall₂ Alike arguments arguments' →
      Alike (.call callee paren arguments) (.call callee' paren' arguments')
  | get {object object' name name'} :
      Alike object object' → related.tokens name name' →
      Alike (.get object name) (.get object' name')
  | set {object object' name name' value value'} :
      Alike object object' → related.tokens name name' → Alike value value' →
      Alike (.set object name value) (.set object' name' value')
  | thisRef {id id' keyword keyword'} :
      related.nodes id id' → related.tokens keyword keyword' →
      Alike (.thisRef id keyword) (.thisRef id' keyword')
  | superRef {id id' keyword keyword' method method'} :
      related.nodes id id' → related.tokens keyword keyword' →
      related.tokens method method' →
      Alike (.superRef id keyword method) (.superRef id' keyword' method')

/-- Superclasses with related identities and names. -/
def SuperclassRef.Alike (superclass other : SuperclassRef) : Prop :=
  related.nodes superclass.id other.id ∧
    related.tokens superclass.name other.name

mutual

/-- Statements of one shape with related tokens and nodes. -/
inductive Stmt.Alike : Stmt → Stmt → Prop where
  | print {value value'} :
      Expr.Alike related value value' →
      Stmt.Alike (.print value) (.print value')
  | expression {value value'} :
      Expr.Alike related value value' →
      Stmt.Alike (.expression value) (.expression value')
  | varDecl {name name' initializer initializer'} :
      related.tokens name name' →
      Option.Rel (Expr.Alike related) initializer initializer' →
      Stmt.Alike (.varDecl name initializer) (.varDecl name' initializer')
  | block {body body'} :
      List.Forall₂ Stmt.Alike body body' →
      Stmt.Alike (.block body) (.block body')
  | conditional
    {condition condition' thenBranch thenBranch' elseBranch elseBranch'} :
      Expr.Alike related condition condition' →
      Stmt.Alike thenBranch thenBranch' →
      Option.Rel Stmt.Alike elseBranch elseBranch' →
      Stmt.Alike (.conditional condition thenBranch elseBranch)
        (.conditional condition' thenBranch' elseBranch')
  | loop {condition condition' body body'} :
      Expr.Alike related condition condition' → Stmt.Alike body body' →
      Stmt.Alike (.loop condition body) (.loop condition' body')
  | funDecl {declaration declaration'} :
      FunctionDecl.Alike declaration declaration' →
      Stmt.Alike (.funDecl declaration) (.funDecl declaration')
  | ret {keyword keyword' value value'} :
      related.tokens keyword keyword' →
      Option.Rel (Expr.Alike related) value value' →
      Stmt.Alike (.ret keyword value) (.ret keyword' value')
  | classDecl {name name' superclass superclass' methods methods'} :
      related.tokens name name' →
      Option.Rel (SuperclassRef.Alike related) superclass superclass' →
      List.Forall₂ FunctionDecl.Alike methods methods' →
      Stmt.Alike (.classDecl name superclass methods)
        (.classDecl name' superclass' methods')
  | require {keyword keyword' path} :
      related.tokens keyword keyword' →
      Stmt.Alike (.require keyword path) (.require keyword' path)

/-- Functions of one shape with related tokens and nodes. -/
inductive FunctionDecl.Alike : FunctionDecl → FunctionDecl → Prop where
  | intro {name name' params params' body body'} :
      related.tokens name name' → List.Forall₂ related.tokens params params' →
      List.Forall₂ Stmt.Alike body body' →
      FunctionDecl.Alike ⟨name, params, body⟩ ⟨name', params', body'⟩

end

/-- Cursors over related tokens. -/
structure Cursor.Alike (cursor other : Cursor) : Prop where
  pending : List.Forall₂ related.tokens cursor.pending other.pending
  finish : related.tokens cursor.finish other.finish
  nextNode : related.nodes cursor.nextNode other.nextNode

/-- One fault at related tokens, or the fault of there being none. -/
inductive ParseError.Alike : ParseError → ParseError → Prop where
  | noTokens :
      Alike ⟨.endless, "", 0⟩ ⟨.endless, "", 0⟩
  | atToken {fault token token'} :
      related.tokens token token' →
      Alike (.atToken fault token) (.atToken fault token')

/-- From related tokens the two parsers both fail for one reason, or both yield
values that are alike and leave related tokens. -/
def Parallel
    (alike : α → β → Prop)
    (parser : Parse α)
    (other : Parse β) : Prop :=
  ∀ cursor cursorOther, Cursor.Alike related cursor cursorOther →
    Mirrors parser other cursor cursorOther
      (fun value after valueOther afterOther =>
        alike value valueOther ∧ Cursor.Alike related after afterOther)
      (fun error after errorOther afterOther =>
        ParseError.Alike related error errorOther ∧
          related.nodes after.nextNode afterOther.nextNode)

/-- The relation keeps the kinds of tokens, up to the spelling of names. -/
def KeepsKinds (related : Token → Token → Prop) : Prop :=
  ∀ token other, related token other → token.kind.Alike other.kind

/-- Related tokens are of one kind, and what comes after related identities is
related. -/
structure Correspondence.Lawful : Prop where
  kinds : KeepsKinds related.tokens
  next : ∀ id other, related.nodes id other → related.nodes (id + 1) (other + 1)

/-- What has the same identities is lawful if it keeps the kinds of tokens. -/
theorem Correspondence.lawful_ofTokens
    {tokens : Token → Token → Prop}
    (keepsKinds : KeepsKinds tokens) :
    (Correspondence.ofTokens tokens).Lawful :=
  ⟨keepsKinds, fun _ _ same => congrArg (· + 1) same⟩

variable {related}

/-- The next tokens are related. -/
theorem Cursor.Alike.current
    {cursor other : Cursor}
    (cursors : Cursor.Alike related cursor other) :
    related.tokens cursor.current other.current := by
  obtain ⟨pending, finish, nextNode⟩ := cursor
  obtain ⟨pending', finish', nextNode'⟩ := other
  obtain ⟨tokens, ends, -⟩ := cursors
  cases tokens with
  | nil => exact ends
  | cons first _ => exact first

namespace Parallel

variable {alike : α → β → Prop} {parser : Parse α} {other : Parse β}

/-- Parsers that only yield values. -/
theorem ofPure
    {value : α}
    {valueOther : β}
    (holds : alike value valueOther) :
    Parallel related alike (pure value) (pure valueOther) :=
  fun _ _ cursors => Mirrors.ofPure ⟨holds, cursors⟩

/-- Parsers that fail at the next token. -/
theorem ofFail
    (fault : ParseFault) :
    Parallel related alike (Parse.fail fault) (Parse.fail fault) :=
  fun _ _ cursors =>
    Mirrors.ofError rfl rfl ⟨.atToken cursors.current, cursors.nextNode⟩

/-- Parsers that fail at tokens they have taken in. -/
theorem ofThrow
    {token tokenOther : Token}
    (tokens : related.tokens token tokenOther)
    (fault : ParseFault) :
    Parallel related alike (throw (ParseError.atToken fault token))
      (throw (ParseError.atToken fault tokenOther)) :=
  fun _ _ cursors => Mirrors.ofError rfl rfl ⟨.atToken tokens, cursors.nextNode⟩

/-- Sequences of parsers. -/
theorem andThen
    {next : α → Parse γ}
    {nextOther : β → Parse δ}
    {final : γ → δ → Prop}
    (parallel : Parallel related alike parser other)
    (parallelNext :
      ∀ value valueOther, alike value valueOther →
        Parallel related final (next value) (nextOther valueOther)) :
    Parallel related final (parser >>= next) (other >>= nextOther) := by
  intro cursor cursorOther cursors
  refine Mirrors.andThen (parallel cursor cursorOther cursors) ?_
  rintro value after valueOther afterOther - - ⟨holds, cursorsAfter⟩
  exact parallelNext value valueOther holds after afterOther cursorsAfter

/-- Parsers whose values are changed. -/
theorem map
    {change : α → γ}
    {changeOther : β → δ}
    {final : γ → δ → Prop}
    (parallel : Parallel related alike parser other)
    (holds :
      ∀ value valueOther, alike value valueOther →
        final (change value) (changeOther valueOther)) :
    Parallel related final (change <$> parser) (changeOther <$> other) := by
  have sequence :
      Parallel related final (parser >>= fun value => pure (change value))
      (other >>= fun value => pure (changeOther value)) :=
    parallel.andThen fun value valueOther isAlike =>
      ofPure (holds value valueOther isAlike)
  simpa [Functor.map] using sequence

end Parallel

open Parse

section Tokens

/-- Taking in a token. -/
theorem parallel_advance : Parallel related related.tokens advance advance := by
  intro cursor other cursors
  refine Mirrors.ofOk rfl rfl
    ⟨cursors.current, ?_, cursors.finish, cursors.nextNode⟩
  obtain ⟨pending, finish, nextNode⟩ := cursor
  obtain ⟨pending', finish', nextNode'⟩ := other
  obtain ⟨tokens, -, -⟩ := cursors
  cases tokens with
  | nil => exact .nil
  | cons _ rest => exact rest

variable (lawful : related.Lawful) {alike : α → β → Prop}

include lawful

/-- Handing out identities. -/
theorem parallel_freshNode : Parallel related related.nodes freshNode
    freshNode := by
  intro cursor other cursors
  exact Mirrors.ofOk rfl rfl
    ⟨cursors.nextNode, cursors.pending, cursors.finish,
      lawful.next _ _ cursors.nextNode⟩

/-- Looking at the kind of the next token. -/
theorem parallel_currentKind :
    Parallel related Kind.Alike currentKind currentKind :=
  fun _ _ cursors =>
    Mirrors.ofOk rfl rfl ⟨lawful.kinds _ _ cursors.current, cursors⟩

/-- Going on by the kind of the next token, without regard to the spelling of
names. -/
theorem parallel_byKind
    {next : Kind → Parse α}
    {nextOther : Kind → Parse β}
    (names : ∀ name other, next (.identifier name) = next (.identifier other))
    (parallel : ∀ kind, Parallel related alike (next kind) (nextOther kind)) :
    Parallel related alike (currentKind >>= next)
      (currentKind >>= nextOther) := by
  refine (parallel_currentKind lawful).andThen ?_
  intro kind kindOther kinds
  cases kinds with
  | same => exact parallel kind
  | @names name other =>
      rw [names name other]
      exact parallel (.identifier other)

/-- Looking for a symbol. -/
theorem parallel_seesSymbol
    (symbol : Symbol) :
    Parallel related Eq (seesSymbol symbol)
      (seesSymbol symbol) := by
  refine parallel_byKind lawful (fun _ _ => rfl) ?_
  intro kind
  cases kind <;> exact .ofPure rfl

/-- Taking in a symbol if it is next. -/
theorem parallel_acceptSymbol
    (symbol : Symbol) :
    Parallel related Eq (acceptSymbol symbol)
      (acceptSymbol symbol) := by
  refine (parallel_seesSymbol lawful symbol).andThen ?_
  rintro seen _ rfl
  cases seen with
  | true => exact parallel_advance.andThen fun _ _ _ => .ofPure rfl
  | false => exact .ofPure rfl

/-- Taking in a reserved word if it is next. -/
theorem parallel_acceptKeyword
    (keyword : Keyword) :
    Parallel related Eq (acceptKeyword keyword)
      (acceptKeyword keyword) := by
  refine parallel_byKind lawful (fun _ _ => rfl) ?_
  intro kind
  cases kind with
  | keyword seen =>
      dsimp only
      cases seen == keyword with
      | true => exact parallel_advance.andThen fun _ _ _ => .ofPure rfl
      | false => exact .ofPure rfl
  | _ => exact .ofPure rfl

/-- Taking in a symbol that has to be next. -/
theorem parallel_expectSymbol
    (symbol : Symbol)
    (item : Expectation) :
    Parallel related related.tokens (expectSymbol symbol item)
      (expectSymbol symbol item) := by
  refine (parallel_seesSymbol lawful symbol).andThen ?_
  rintro seen _ rfl
  cases seen with
  | true => exact parallel_advance
  | false => exact .ofFail _

/-- Taking in a name that has to be next. -/
theorem parallel_expectName
    (item : Expectation) :
    Parallel related related.tokens (expectName item) (expectName item) := by
  refine parallel_byKind lawful (fun _ _ => rfl) ?_
  intro kind
  cases kind with
  | identifier name => exact parallel_advance
  | _ => exact .ofFail _

end Tokens

end LoxScript
