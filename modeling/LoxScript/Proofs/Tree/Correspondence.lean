import LoxScript.Proofs.Tree.Alike
import LoxScript.Tree.References

namespace LoxScript

/-!
# Which nodes count for trees that are alike

Whether two trees are alike depends on their own tokens and nodes only.  A tree
is alike to itself if its tokens and nodes are related to themselves, and trees
that are alike by one correspondence are so by every other one that relates as
much of them.
-/

variable {related wider : Correspondence}

/-- All tokens and the nodes at hand are related to themselves. -/
structure Correspondence.Fixes
    (related : Correspondence)
    (references : List Reference) : Prop where
  tokens : ∀ token, related.tokens token token
  nodes : ∀ node ∈ references, related.nodes node.id node.id

/-- Of the nodes at hand, those that are related by the one are so by the other;
and so are all tokens. -/
structure Correspondence.WidensOn
    (related wider : Correspondence)
    (references : List Reference) : Prop where
  tokens : ∀ token other, related.tokens token other → wider.tokens token other
  nodes :
    ∀ node ∈ references, ∀ image, related.nodes node.id image →
      wider.nodes node.id image

/-- Functions that are alike have related names. -/
theorem FunctionDecl.Alike.name
    {declaration other : FunctionDecl}
    (alike : FunctionDecl.Alike related declaration other) :
    related.tokens declaration.name other.name := by
  cases alike with
  | intro names _ _ => exact names

section Fewer

variable {references fewer : List Reference}

/-- What holds of nodes holds of some of them. -/
theorem Correspondence.Fixes.mono
    (fixes : related.Fixes references)
    (subset : fewer ⊆ references) :
    related.Fixes fewer :=
  ⟨fixes.tokens, fun node member => fixes.nodes node (subset member)⟩

/-- What holds of nodes holds of some of them. -/
theorem Correspondence.WidensOn.mono
    (widens : related.WidensOn wider references)
    (subset : fewer ⊆ references) :
    related.WidensOn wider fewer :=
  ⟨widens.tokens, fun node member => widens.nodes node (subset member)⟩

end Fewer

section Self

mutual

/-- An expression is alike to itself. -/
theorem Expr.alike_self :
    (expr : Expr) → related.Fixes expr.references → Expr.Alike related expr expr
  | .literal _, _ => .literal
  | .grouping inner, fixes => .grouping (inner.alike_self fixes)
  | .unary _ operand, fixes =>
      .unary (fixes.tokens _) (operand.alike_self fixes)
  | .binary left _ right, fixes =>
      .binary (left.alike_self (fixes.mono (List.subset_append_left _ _)))
        (fixes.tokens _)
        (right.alike_self (fixes.mono (List.subset_append_right _ _)))
  | .logical left _ right, fixes =>
      .logical (left.alike_self (fixes.mono (List.subset_append_left _ _)))
        (fixes.tokens _)
        (right.alike_self (fixes.mono (List.subset_append_right _ _)))
  | .reference id name, fixes =>
      .reference (fixes.nodes ⟨.read, id, name⟩ (List.mem_singleton_self _))
        (fixes.tokens _)
  | .assign id name value, fixes =>
      .assign (fixes.nodes ⟨.write, id, name⟩ (.head _)) (fixes.tokens _)
        (value.alike_self (fixes.mono (List.subset_cons_self _ _)))
  | .call callee _ arguments, fixes =>
      .call (callee.alike_self (fixes.mono (List.subset_append_left _ _)))
        (fixes.tokens _)
        (Expr.alike_selfAll arguments
          (fixes.mono (List.subset_append_right _ _)))
  | .get object _, fixes => .get (object.alike_self fixes) (fixes.tokens _)
  | .set object _ value, fixes =>
      .set (object.alike_self (fixes.mono (List.subset_append_left _ _)))
        (fixes.tokens _)
        (value.alike_self (fixes.mono (List.subset_append_right _ _)))
  | .thisRef id keyword, fixes =>
      .thisRef (fixes.nodes ⟨.this, id, keyword⟩ (List.mem_singleton_self _))
        (fixes.tokens _)
  | .superRef id keyword _, fixes =>
      .superRef (fixes.nodes ⟨.super, id, keyword⟩ (List.mem_singleton_self _))
        (fixes.tokens _) (fixes.tokens _)

/-- Expressions are alike to themselves. -/
theorem Expr.alike_selfAll :
    (exprs : List Expr) → related.Fixes (Expr.referencesAll exprs) →
      List.Forall₂ (Expr.Alike related) exprs exprs
  | [], _ => .nil
  | first :: rest, fixes =>
      .cons (first.alike_self (fixes.mono (List.subset_append_left _ _)))
        (Expr.alike_selfAll rest (fixes.mono (List.subset_append_right _ _)))

end

/-- So are expressions that may be absent. -/
theorem alike_selfOptional :
    (value : Option Expr) → related.Fixes (optionalReferences value) →
      Option.Rel (Expr.Alike related) value value
  | none, _ => .none
  | some value, fixes => .some (value.alike_self fixes)

mutual

/-- A statement is alike to itself. -/
theorem Stmt.alike_self :
    (statement : Stmt) → related.Fixes statement.references →
      Stmt.Alike related statement statement
  | .print value, fixes => .print (value.alike_self fixes)
  | .expression value, fixes => .expression (value.alike_self fixes)
  | .varDecl _ initializer, fixes =>
      .varDecl (fixes.tokens _) (alike_selfOptional initializer fixes)
  | .block body, fixes => .block (Stmt.alike_selfAll body fixes)
  | .conditional condition thenBranch none, fixes =>
      .conditional
        (condition.alike_self (fixes.mono (List.subset_append_left _ _)))
        (thenBranch.alike_self (fixes.mono (List.subset_append_right _ _)))
          .none
  | .conditional condition thenBranch (some elseBranch), fixes =>
      .conditional
        (condition.alike_self (fixes.mono
          (List.subset_append_of_subset_left _ (List.subset_append_left _ _))))
        (thenBranch.alike_self (fixes.mono
          (List.subset_append_of_subset_left _ (List.subset_append_right _ _))))
        (.some (elseBranch.alike_self
          (fixes.mono (List.subset_append_right _ _))))
  | .loop condition body, fixes =>
      .loop (condition.alike_self (fixes.mono (List.subset_append_left _ _)))
        (body.alike_self (fixes.mono (List.subset_append_right _ _)))
  | .funDecl declaration, fixes => .funDecl (declaration.alike_self fixes)
  | .ret _ value, fixes =>
      .ret (fixes.tokens _) (alike_selfOptional value fixes)
  | .classDecl _ none methods, fixes =>
      .classDecl (fixes.tokens _) .none
        (FunctionDecl.alike_selfAll methods fixes)
  | .classDecl _ (some _) methods, fixes =>
      .classDecl (fixes.tokens _)
        (.some ⟨fixes.nodes _ (.head _), fixes.tokens _⟩)
        (FunctionDecl.alike_selfAll methods
          (fixes.mono (List.subset_append_right _ _)))
  | .require _ _, fixes => .require (fixes.tokens _)

/-- Statements are alike to themselves. -/
theorem Stmt.alike_selfAll :
    (statements : List Stmt) → related.Fixes (Stmt.referencesAll statements) →
      List.Forall₂ (Stmt.Alike related) statements statements
  | [], _ => .nil
  | first :: rest, fixes =>
      .cons (first.alike_self (fixes.mono (List.subset_append_left _ _)))
        (Stmt.alike_selfAll rest (fixes.mono (List.subset_append_right _ _)))

/-- A function is alike to itself. -/
theorem FunctionDecl.alike_self :
    (declaration : FunctionDecl) → related.Fixes declaration.references →
      FunctionDecl.Alike related declaration declaration
  | ⟨_, _, body⟩, fixes =>
      .intro (fixes.tokens _) (List.forall₂_same.mpr fun token _ =>
        fixes.tokens token) (Stmt.alike_selfAll body fixes)

/-- Functions are alike to themselves. -/
theorem FunctionDecl.alike_selfAll :
    (declarations : List FunctionDecl) →
      related.Fixes (FunctionDecl.referencesAll declarations) →
      List.Forall₂ (FunctionDecl.Alike related) declarations declarations
  | [], _ => .nil
  | first :: rest, fixes =>
      .cons (first.alike_self (fixes.mono (List.subset_append_left _ _)))
        (FunctionDecl.alike_selfAll rest
          (fixes.mono (List.subset_append_right _ _)))

end

end Self

section Widening

mutual

/-- Expressions that are alike are so by every relation that relates as much of
their nodes. -/
theorem Expr.alike_widen :
    (expr : Expr) → ∀ {other}, Expr.Alike related expr other →
      related.WidensOn wider expr.references → Expr.Alike wider expr other
  | .literal _, _, .literal, _ => .literal
  | .grouping inner, _, .grouping alike, widens =>
      .grouping (inner.alike_widen alike widens)
  | .unary _ operand, _, .unary operators alike, widens =>
      .unary (widens.tokens _ _ operators) (operand.alike_widen alike widens)
  | .binary left _ right, _, .binary lefts operators rights, widens =>
      .binary (left.alike_widen lefts
        (widens.mono (List.subset_append_left _ _)))
        (widens.tokens _ _ operators)
        (right.alike_widen rights (widens.mono (List.subset_append_right _ _)))
  | .logical left _ right, _, .logical lefts operators rights, widens =>
      .logical (left.alike_widen lefts
        (widens.mono (List.subset_append_left _ _)))
        (widens.tokens _ _ operators)
        (right.alike_widen rights (widens.mono (List.subset_append_right _ _)))
  | .reference id name, _, .reference nodes names, widens =>
      .reference (widens.nodes ⟨.read, id, name⟩
        (List.mem_singleton_self _) _ nodes) (widens.tokens _ _ names)
  | .assign id name value, _, .assign nodes names alike, widens =>
      .assign (widens.nodes ⟨.write, id, name⟩ (.head _) _ nodes)
        (widens.tokens _ _ names)
        (value.alike_widen alike (widens.mono (List.subset_cons_self _ _)))
  | .call callee _ arguments, _, .call callees parens alike, widens =>
      .call (callee.alike_widen callees
        (widens.mono (List.subset_append_left _ _))) (widens.tokens _ _ parens)
        (Expr.alike_widenAll arguments alike
          (widens.mono (List.subset_append_right _ _)))
  | .get object _, _, .get objects names, widens =>
      .get (object.alike_widen objects widens) (widens.tokens _ _ names)
  | .set object _ value, _, .set objects names values, widens =>
      .set (object.alike_widen objects
        (widens.mono (List.subset_append_left _ _))) (widens.tokens _ _ names)
        (value.alike_widen values (widens.mono (List.subset_append_right _ _)))
  | .thisRef id keyword, _, .thisRef nodes keywords, widens =>
      .thisRef (widens.nodes ⟨.this, id, keyword⟩
        (List.mem_singleton_self _) _ nodes) (widens.tokens _ _ keywords)
  | .superRef id keyword _, _, .superRef nodes keywords methods, widens =>
      .superRef (widens.nodes ⟨.super, id, keyword⟩
        (List.mem_singleton_self _) _ nodes)
        (widens.tokens _ _ keywords) (widens.tokens _ _ methods)

/-- So are expressions that are alike one by one. -/
theorem Expr.alike_widenAll :
    (exprs : List Expr) → ∀ {others},
      List.Forall₂ (Expr.Alike related) exprs others →
      related.WidensOn wider (Expr.referencesAll exprs) →
      List.Forall₂ (Expr.Alike wider) exprs others
  | [], _, .nil, _ => .nil
  | first :: rest, _, .cons alike others, widens =>
      .cons (first.alike_widen alike
        (widens.mono (List.subset_append_left _ _)))
        (Expr.alike_widenAll rest others
          (widens.mono (List.subset_append_right _ _)))

end

/-- So are expressions that may be absent. -/
theorem alike_widenOptional
    {value : Option Expr}
    {other : Option Expr}
    (alike : Option.Rel (Expr.Alike related) value other)
    (widens : related.WidensOn wider (optionalReferences value)) :
    Option.Rel (Expr.Alike wider) value other := by
  cases alike with
  | none => exact .none
  | some alike => exact .some (Expr.alike_widen _ alike widens)

mutual

/-- Statements that are alike are so by every relation that relates as much of
their nodes. -/
theorem Stmt.alike_widen :
    (statement : Stmt) → ∀ {other}, Stmt.Alike related statement other →
      related.WidensOn wider statement.references →
        Stmt.Alike wider statement other
  | .print value, _, .print alike, widens =>
      .print (value.alike_widen alike widens)
  | .expression value, _, .expression alike, widens =>
      .expression (value.alike_widen alike widens)
  | .varDecl _ _, _, .varDecl names initializers, widens =>
      .varDecl (widens.tokens _ _ names)
        (alike_widenOptional initializers widens)
  | .block body, _, .block alike, widens =>
      .block (Stmt.alike_widenAll body alike widens)
  | .conditional condition thenBranch none, _, .conditional conditions branches
    .none, widens =>
      .conditional
        (condition.alike_widen conditions
          (widens.mono (List.subset_append_left _ _)))
        (thenBranch.alike_widen branches
          (widens.mono (List.subset_append_right _ _)))
        .none
  | .conditional condition thenBranch (some elseBranch), _,
      .conditional conditions branches (.some others), widens =>
      .conditional
        (condition.alike_widen conditions (widens.mono
          (List.subset_append_of_subset_left _ (List.subset_append_left _ _))))
        (thenBranch.alike_widen branches (widens.mono
          (List.subset_append_of_subset_left _ (List.subset_append_right _ _))))
        (.some (elseBranch.alike_widen others
          (widens.mono (List.subset_append_right _ _))))
  | .loop condition body, _, .loop conditions bodies, widens =>
      .loop (condition.alike_widen conditions
        (widens.mono (List.subset_append_left _ _)))
        (body.alike_widen bodies (widens.mono (List.subset_append_right _ _)))
  | .funDecl declaration, _, .funDecl alike, widens =>
      .funDecl (declaration.alike_widen alike widens)
  | .ret _ _, _, .ret keywords values, widens =>
      .ret (widens.tokens _ _ keywords) (alike_widenOptional values widens)
  | .classDecl _ none methods, _, .classDecl names .none alike, widens =>
      .classDecl (widens.tokens _ _ names) .none
        (FunctionDecl.alike_widenAll methods alike widens)
  | .classDecl _ (some _) methods, _,
      .classDecl names (.some superclasses) alike, widens =>
      .classDecl (widens.tokens _ _ names)
        (.some ⟨widens.nodes _ (.head _) _ superclasses.1,
          widens.tokens _ _ superclasses.2⟩)
        (FunctionDecl.alike_widenAll methods alike
          (widens.mono (List.subset_append_right _ _)))
  | .require _ _, _, .require keywords, widens =>
      .require (widens.tokens _ _ keywords)
termination_by structural statement => statement

/-- So are statements that are alike one by one. -/
theorem Stmt.alike_widenAll :
    (statements : List Stmt) → ∀ {others},
      List.Forall₂ (Stmt.Alike related) statements others →
      related.WidensOn wider (Stmt.referencesAll statements) →
      List.Forall₂ (Stmt.Alike wider) statements others
  | [], _, .nil, _ => .nil
  | first :: rest, _, .cons alike others, widens =>
      .cons (first.alike_widen alike
        (widens.mono (List.subset_append_left _ _)))
        (Stmt.alike_widenAll rest others
          (widens.mono (List.subset_append_right _ _)))
termination_by structural statements => statements

/-- So are functions. -/
theorem FunctionDecl.alike_widen :
    (declaration :
      FunctionDecl) → ∀ {other}, FunctionDecl.Alike related declaration other →
      related.WidensOn wider declaration.references →
      FunctionDecl.Alike wider declaration other
  | ⟨_, _, body⟩, _, .intro names params bodies, widens =>
      .intro (widens.tokens _ _ names) (params.imp widens.tokens)
        (Stmt.alike_widenAll body bodies widens)
termination_by structural declaration => declaration

/-- So are functions that are alike one by one. -/
theorem FunctionDecl.alike_widenAll :
    (declarations : List FunctionDecl) →
      ∀ {others}, List.Forall₂ (FunctionDecl.Alike related)
        declarations others →
      related.WidensOn wider (FunctionDecl.referencesAll declarations) →
      List.Forall₂ (FunctionDecl.Alike wider) declarations others
  | [], _, .nil, _ => .nil
  | first :: rest, _, .cons alike others, widens =>
      .cons (first.alike_widen alike
        (widens.mono (List.subset_append_left _ _)))
        (FunctionDecl.alike_widenAll rest others
          (widens.mono (List.subset_append_right _ _)))
termination_by structural declarations => declarations

end

end Widening

end LoxScript
