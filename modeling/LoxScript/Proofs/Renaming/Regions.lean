import LoxScript.Proofs.Renaming.Tree
import LoxScript.Proofs.Scope.Position

namespace LoxScript

/-!
# What scopes declare

The scopes of a parsed program declare proper names only, and the scopes of an
accepted one declare each name once: of the statements and parameters in one
scope no two have the same name.
-/

open Analysis Resolve

/-- What a scope declares has proper names. -/
def Region.Orderly (region : Region) : Prop :=
  (∀ param ∈ region.params, param.IsName) ∧ Stmt.OrderlyAll region.body

mutual

/-- The scopes of an orderly statement are orderly. -/
theorem Stmt.orderly_regionAt? :
    (statement : Stmt) →
      ∀ {site region}, statement.Orderly →
        statement.regionAt? site = some region →
        region.Orderly
  | .print _, _, _, _, found
  | .expression _, _, _, _, found
  | .varDecl _ _, _, _, _, found
  | .ret _ _, _, _, _, found
  | .require _ _, _, _, _, found => nomatch found
  | .block body, site, _, orderly, found => by
      simp only [Stmt.Orderly] at orderly
      cases site with
      | nil =>
          cases found
          exact ⟨nofun, orderly⟩
      | cons child site => exact Stmt.orderly_regionOf? body orderly found
  | .conditional _ thenBranch none, site, _, orderly, found => by
      simp only [Stmt.Orderly] at orderly
      cases site with
      | nil => cases found
      | cons child site =>
          simp only [Stmt.regionAt?] at found
          split at found
          · exact thenBranch.orderly_regionAt? orderly.2 found
          · cases found
  | .conditional _ thenBranch (some elseBranch), site, _, orderly, found => by
      simp only [Stmt.Orderly] at orderly
      cases site with
      | nil => cases found
      | cons child site =>
          simp only [Stmt.regionAt?] at found
          split at found
          · exact thenBranch.orderly_regionAt? orderly.1.2 found
          · split at found
            · exact elseBranch.orderly_regionAt? orderly.2.2 found
            · cases found
  | .loop _ body, site, _, orderly, found => by
      simp only [Stmt.Orderly] at orderly
      cases site with
      | nil => cases found
      | cons child site =>
          simp only [Stmt.regionAt?] at found
          split at found
          · exact body.orderly_regionAt? orderly.2 found
          · cases found
  | .funDecl declaration, _, _, orderly, found => by
      simp only [Stmt.Orderly] at orderly
      simp only [Stmt.regionAt?] at found
      exact declaration.orderly_regionAt? orderly.2 found
  | .classDecl _ _ methods, site, _, orderly, found => by
      simp only [Stmt.Orderly] at orderly
      cases site with
      | nil => cases found
      | cons child site =>
          exact FunctionDecl.orderly_regionOf? methods orderly.2 found

/-- The scopes of orderly statements are orderly. -/
theorem Stmt.orderly_regionOf? :
    (statements : List Stmt) →
      ∀ {child site region}, Stmt.OrderlyAll statements →
        Stmt.regionOf? statements child site = some region → region.Orderly
  | head :: _, 0, _, _, orderly, found => by
      simp only [Stmt.OrderlyAll] at orderly
      exact head.orderly_regionAt? orderly.1 found
  | _ :: rest, _ + 1, _, _, orderly, found => by
      simp only [Stmt.OrderlyAll] at orderly
      exact Stmt.orderly_regionOf? rest orderly.2 found

/-- The scopes of an orderly function are orderly. -/
theorem FunctionDecl.orderly_regionAt? :
    (declaration : FunctionDecl) →
      ∀ {site region}, declaration.Orderly →
        declaration.regionAt? site = some region →
        region.Orderly
  | ⟨_, _, _⟩, [], _, orderly, found => by
      simp only [FunctionDecl.Orderly] at orderly
      cases found
      exact orderly
  | ⟨_, _, body⟩, _ :: _, _, orderly, found => by
      simp only [FunctionDecl.Orderly] at orderly
      exact Stmt.orderly_regionOf? body orderly.2 found

/-- The scopes of orderly functions are orderly. -/
theorem FunctionDecl.orderly_regionOf? :
    (declarations : List FunctionDecl) →
      ∀ {child site region}, FunctionDecl.OrderlyAll declarations →
        FunctionDecl.regionOf? declarations child site = some region →
          region.Orderly
  | head :: _, 0, _, _, orderly, found => by
      simp only [FunctionDecl.OrderlyAll] at orderly
      exact head.orderly_regionAt? orderly.1 found
  | _ :: rest, _ + 1, _, _, orderly, found => by
      simp only [FunctionDecl.OrderlyAll] at orderly
      exact FunctionDecl.orderly_regionOf? rest orderly.2 found

end

/-- The variables and parameters of an orderly scope are spelled like no
reserved word. -/
theorem Region.Declares.isName
    {region : Region}
    {name : String}
    (declares : region.Declares name)
    (orderly : region.Orderly) :
    ∃ token : Token, token.lexeme = name ∧ token.IsName := by
  rcases declares with
    ⟨param, isParam, same⟩ | ⟨token, initializer, isDeclared, same⟩
  · exact ⟨param, same, orderly.1 param isParam⟩
  · exact ⟨token, same,
      Stmt.isName_of_declared? (Stmt.orderly_of_mem orderly.2 isDeclared)
        token rfl⟩

variable {before after : Analysis}

/-- The name that an accepted statement declares was free. -/
theorem Stmt.declarable_of_resolve
    {statement : Stmt}
    {name : Token}
    (declares : statement.declared? = some name)
    (resolved : statement.resolve before = .ok () after) :
    Declarable name before := by
  cases statement with
  | varDecl token initializer =>
      cases declares
      simp only [Stmt.resolve] at resolved
      obtain ⟨_, _, isDeclared, -⟩ := bind_eq_ok_iff.mp resolved
      exact (declare_eq_ok_iff.mp isDeclared).1
  | funDecl declaration =>
      cases declares
      exact (resolve_funDecl_eq_ok resolved).1
  | classDecl token superclass methods =>
      cases declares
      obtain ⟨_, _, headed, -, -⟩ := resolve_classDecl_eq_ok resolved
      cases superclass with
      | none => exact (heading_none_eq_ok headed).1
      | some named => exact (heading_some_eq_ok headed).1
  | _ => cases declares

/-- The two statements do not declare the same name. -/
def Stmt.Apart (statement other : Stmt) : Prop :=
  ∀ name ∈ statement.declared?, ∀ another ∈ other.declared?,
    name.lexeme ≠ another.lexeme

instance : Std.Symm Stmt.Apart where
  symm _ _ apart _ isName _ isOther same := apart _ isOther _ isName same.symm

/-- Accepted statements declare each name once, and none that their scope
declared before. -/
theorem Stmt.apart_of_resolveAll
    {statements : List Stmt}
    {scope : Scope}
    {outer : List Scope}
    (shape : before.scopes = scope :: outer)
    (orderly : Stmt.OrderlyAll statements)
    (resolved : Stmt.resolveAll statements before = .ok () after) :
    (∀ statement ∈ statements, ∀ name ∈ statement.declared?,
        scope.contains name.lexeme = false) ∧
      statements.Pairwise Stmt.Apart := by
  induction statements generalizing before scope with
  | nil =>
      exact ⟨nofun, .nil⟩
  | cons statement rest inductionHypothesis =>
      simp only [Stmt.OrderlyAll] at orderly
      simp only [Stmt.resolveAll] at resolved
      obtain ⟨⟨⟩, middle, resolvedFirst, resolvedRest⟩ :=
        bind_eq_ok_iff.mp resolved
      have scopes := statement.scopes_of_resolve orderly.1 resolvedFirst
      have free {name : Token} (declares : statement.declared? = some name) :
          scope.contains name.lexeme = false :=
        Stmt.declarable_of_resolve declares resolvedFirst scope
          (by simp [shape])
      cases declares : statement.declared? with
      | none =>
          rw [declares, shape] at scopes
          obtain ⟨absent, apart⟩ :=
            inductionHypothesis scopes orderly.2 resolvedRest
          refine ⟨?_, .cons (fun _ _ _ isName => by simp [declares] at isName)
            apart⟩
          intro other member name isName
          rcases List.mem_cons.mp member with rfl | further
          · simp [declares] at isName
          · exact absent other further name isName
      | some token =>
          rw [declares, shape] at scopes
          obtain ⟨absent, apart⟩ :=
            inductionHypothesis scopes orderly.2 resolvedRest
          have unlike : ∀ other ∈ rest, ∀ name ∈ other.declared?,
              token.lexeme ≠ name.lexeme ∧
                scope.contains name.lexeme = false := by
            intro other member name isName
            have missing := absent other member name isName
            rw [NameMap.contains_insert] at missing
            simpa using missing
          refine ⟨?_, .cons ?_ apart⟩
          · intro other member name isName
            rcases List.mem_cons.mp member with rfl | further
            · exact free isName
            · exact (unlike other further name isName).2
          · intro other member name isName another isAnother
            cases declares.symm.trans isName
            exact (unlike other member another isAnother).1

end LoxScript
