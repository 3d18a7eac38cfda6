import LoxScript.Proofs.Direct.Analysis
import LoxScript.Proofs.Renaming.Tree
import LoxScript.Proofs.Scope.Inside

namespace LoxScript

/-!
# References and the iterations around them

Which of the scopes around a reference are those of iterations is written in
marks.  Analysed directly, a program lacks the marked scopes, so what is a
number of scopes out there lies as many scopes out as there are scopes in
between that are not marked.
-/

open Resolve

namespace Marks

/-- How far out a scope is when the marked scopes are left out. -/
def beyond (marks : Marks) (distance : Nat) : Nat :=
  (marks.take distance).count false

@[simp] theorem beyond_zero (marks : Marks) : marks.beyond 0 = 0 := by
  simp [beyond]

/-- A scope that is kept counts. -/
@[simp] theorem beyond_kept
    (marks : Marks)
    (distance : Nat) :
    beyond (false :: marks) (distance + 1) = marks.beyond distance + 1 := by
  simp [beyond]

/-- The scope of an iteration does not count. -/
@[simp] theorem beyond_folded
    (marks : Marks)
    (distance : Nat) :
    beyond (true :: marks) (distance + 1) = marks.beyond distance := by
  simp [beyond]

/-- The references with the marks of the scopes around all of them. -/
def around (marks : Marks) (references : List Reference) :
    List (Marks × Reference) :=
  references.map fun reference => (marks, reference)

@[simp] theorem map_snd_around
    (marks : Marks)
    (references : List Reference) :
    (marks.around references).map Prod.snd = references := by
  simp [around, Function.comp_def]

end Marks

section Uses

variable (iterations : Iterations)

mutual

/-- The references of a statement with the marks of the scopes around them. -/
def Stmt.uses (marks : Marks) : Stmt → List (Marks × Reference)
  | .print value => marks.around value.references
  | .expression value => marks.around value.references
  | .varDecl _ initializer => marks.around (optionalReferences initializer)
  | .block body => Stmt.usesAll (false :: marks) body
  | .conditional condition thenBranch none =>
      marks.around condition.references ++ thenBranch.uses marks
  | .conditional condition thenBranch (some elseBranch) =>
      marks.around condition.references ++ thenBranch.uses marks ++
        elseBranch.uses marks
  | .loop condition (.block body) =>
      marks.around condition.references ++ Stmt.usesAll
        (iterations.chooses body :: marks) body
  | .loop condition body => marks.around condition.references ++ body.uses marks
  | .funDecl declaration => declaration.uses marks
  | .ret _ value => marks.around (optionalReferences value)
  | .classDecl _ superclass methods =>
      marks.around (headingReferences superclass) ++
        FunctionDecl.usesAll (Marks.ofClass superclass marks) methods
  | .require _ _ => []

/-- The references of several statements. -/
def Stmt.usesAll (marks : Marks) : List Stmt → List (Marks × Reference)
  | [] => []
  | first :: rest => first.uses marks ++ Stmt.usesAll marks rest

/-- The references of a function. -/
def FunctionDecl.uses (marks : Marks) : FunctionDecl → List (Marks × Reference)
  | ⟨_, _, body⟩ => Stmt.usesAll (false :: marks) body

/-- The references of several functions. -/
def FunctionDecl.usesAll (marks : Marks) : List FunctionDecl →
    List (Marks × Reference)
  | [] => []
  | first :: rest => first.uses marks ++ FunctionDecl.usesAll marks rest

end

mutual

/-- No reference of a statement is left out. -/
theorem Stmt.map_uses :
    (statement : Stmt) →
      ∀ marks, (statement.uses iterations marks).map Prod.snd =
        statement.references
  | .print _, marks => by simp [Stmt.uses, Stmt.references]
  | .expression _, marks => by simp [Stmt.uses, Stmt.references]
  | .varDecl _ _, marks => by simp [Stmt.uses, Stmt.references]
  | .block body, marks => by
      simp [Stmt.uses, Stmt.references, Stmt.map_usesAll body]
  | .conditional _ thenBranch none, marks => by
      simp [Stmt.uses, Stmt.references, thenBranch.map_uses]
  | .conditional _ thenBranch (some elseBranch), marks => by
      simp [Stmt.uses, Stmt.references, thenBranch.map_uses,
        elseBranch.map_uses]
  | .loop _ body, marks => by
      have same := body.map_uses marks
      cases body with
      | block inner => simp [Stmt.uses, Stmt.references, Stmt.map_usesAll inner]
      | _ => simp_all [Stmt.uses, Stmt.references]
  | .funDecl declaration, marks => by
      simp [Stmt.uses, Stmt.references, declaration.map_uses]
  | .ret _ _, marks => by simp [Stmt.uses, Stmt.references]
  | .classDecl _ superclass methods, marks => by
      simp [Stmt.uses, references_classDecl, FunctionDecl.map_usesAll methods]
  | .require _ _, marks => rfl

/-- No reference of several statements is left out. -/
theorem Stmt.map_usesAll :
    (statements : List Stmt) →
      ∀ marks, (Stmt.usesAll iterations marks statements).map Prod.snd =
        Stmt.referencesAll statements
  | [], marks => rfl
  | first :: rest, marks => by
      simp [Stmt.usesAll, Stmt.referencesAll, first.map_uses,
        Stmt.map_usesAll rest]

/-- No reference of a function is left out. -/
theorem FunctionDecl.map_uses :
    (declaration : FunctionDecl) →
      ∀ marks, (declaration.uses iterations marks).map Prod.snd =
        declaration.references
  | ⟨_, _, body⟩, marks => by
      simp [FunctionDecl.uses, FunctionDecl.references, Stmt.map_usesAll body]

/-- No reference of several functions is left out. -/
theorem FunctionDecl.map_usesAll :
    (declarations : List FunctionDecl) →
      ∀ marks, (FunctionDecl.usesAll iterations marks declarations).map
        Prod.snd = FunctionDecl.referencesAll declarations
  | [], marks => rfl
  | first :: rest, marks => by
      simp [FunctionDecl.usesAll, FunctionDecl.referencesAll, first.map_uses,
        FunctionDecl.map_usesAll rest]

end

/-- The references of a part with the marks of the scopes around them. -/
def Part.uses (marks : Marks) : Part → List (Marks × Reference)
  | .expr value => marks.around value.references
  | .exprs values => marks.around (Expr.referencesAll values)
  | .stmt statement => statement.uses iterations marks
  | .stmts statements => Stmt.usesAll iterations marks statements
  | .function declaration => declaration.uses iterations marks
  | .functions declarations =>
      FunctionDecl.usesAll iterations marks declarations

/-- The part is an iteration of the whole, which is a loop. -/
def Part.Iterates (whole part : Part) : Prop :=
  ∃ condition body, whole = .stmt (.loop condition (.block body)) ∧
    part = .stmt (.block body) ∧
    iterations.chooses body = true

/-- What is done where a part is has no other references than the part, if it is
no iteration. -/
theorem Part.Covers.uses_subset
    {whole part : Part}
    (covers : whole.Covers part)
    (kept : ¬ whole.Iterates iterations part)
    (marks : Marks) :
    part.uses iterations marks ⊆ whole.uses iterations marks := by
  intro use member
  cases covers with
  | initializer => exact member
  | superclass => exact List.mem_append_left _ member
  | rest => exact List.mem_append_right _ member
  | included includes =>
      cases includes with
      | @condition _ _ elseBranch =>
          cases elseBranch <;> simp_all [Part.uses, Stmt.uses]
      | @thenBranch _ _ elseBranch =>
          cases elseBranch <;> simp_all [Part.uses, Stmt.uses]
      | @guard _ body => cases body <;> simp_all [Part.uses, Stmt.uses]
      | @repeated condition body =>
          cases body with
          | block body =>
              have isKept : iterations.chooses body = false := by
                simpa [Part.Iterates] using kept
              simp_all [Part.uses, Stmt.uses]
          | _ => simp_all [Part.uses, Stmt.uses]
      | _ =>
          simp_all [Part.uses, Stmt.uses, Stmt.usesAll, FunctionDecl.usesAll,
            Expr.references,
            Expr.referencesAll, Marks.around, optionalReferences]

end Uses

end LoxScript
