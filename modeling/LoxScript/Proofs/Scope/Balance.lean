import LoxScript.Proofs.Scope.Effect

namespace LoxScript

/-!
# Scopes stay balanced

Blocks, functions and classes open scopes, and an analysis can fail inside of
them.  However the analysis of a statement ends, the scopes that were open
before are open afterwards, and what was known before is still known.
-/

open Resolve

/-- The analysis after a step, whether the step succeeds or fails. -/
def Resolve.afterwards (step : Resolve Unit) (before : Analysis) : Analysis :=
  match step before with
  | .ok _ after => after
  | .error _ after => after

namespace Analysis

variable {before after : Analysis} {ids : List NodeId} {step : Resolve Unit}

/-- What holds of a step however it ends holds of the analysis after it. -/
theorem afterwards_of_leads
    {holds : Analysis → Prop}
    (leads : Leads step before (fun _ after => holds after)
      (fun _ after => holds after)) :
    holds (step.afterwards before) := by
  unfold Resolve.afterwards
  split
  · rename_i yields
    exact leads.ok yields
  · rename_i fails
    exact leads.error fails

/-- What keeps the number of scopes and all but the innermost may only add names
to that one. -/
theorem Kept.innermost
    (kept : Kept ids before after)
    {scope : Scope}
    {outer : List Scope}
    (shape : before.scopes = scope :: outer) :
    ∃ grown, after.scopes = grown :: outer ∧
      ∀ name, scope.contains name → grown.contains name := by
  cases shapeAfter : after.scopes with
  | nil =>
      have height := kept.height
      simp [shape, shapeAfter] at height
  | cons grown others =>
      have sameOuter := kept.outer
      rw [shape, shapeAfter] at sameOuter
      have names :=
        kept.names scope (by simp [shape]) grown (by simp [shapeAfter])
      exact ⟨grown, congrArg _ sameOuter, names⟩

/-- Distances that were filed under other identities are filed as before. -/
theorem Kept.filed
    (kept : Kept ids before after)
    (new : ∀ id ∈ ids, before.distances[id]? = none)
    {id : NodeId}
    {distance : Nat}
    (isFiled : before.distances[id]? = some distance) :
    after.distances[id]? = some distance := by
  have isOther : id ∉ ids := by
    intro member
    rw [new id member] at isFiled
    cases isFiled
  rw [kept.distances id isOther, isFiled]

end Analysis

/-- However the analysis of a statement ends, as many scopes are open as before,
those around the innermost one are as they were, the innermost one has lost no
name, and the code at hand belongs to a function if it did; what was filed for
other nodes is filed as before.  The analysis of an expression leaves the
scopes, the function and the class alone altogether. -/
theorem Analysis.scopes_stay_balanced
    (before : Analysis)
    (statement : Stmt)
    (expr : Expr) :
    (statement.resolve.afterwards before).scopes.length = before.scopes.length ∧
      (∀ scope outer, before.scopes = scope :: outer →
        ∃ grown, (statement.resolve.afterwards before).scopes = grown :: outer ∧
          ∀ name, scope.contains name → grown.contains name) ∧
      (statement.resolve.afterwards before).inFunction = before.inFunction ∧
      ((∀ id ∈ identities statement.references, before.distances[id]? = none) →
        ∀ (id : NodeId) distance, before.distances[id]? = some distance →
          (statement.resolve.afterwards before).distances[id]? =
            some distance) ∧
      (expr.resolve.afterwards before).scopes = before.scopes ∧
      (expr.resolve.afterwards before).inFunction = before.inFunction ∧
      (expr.resolve.afterwards before).inClass = before.inClass := by
  have kept : Kept (identities statement.references) before
      (statement.resolve.afterwards before) :=
    afterwards_of_leads
      ((statement.keeps_resolve before).weaken (fun _ _ kept => kept.1)
        fun _ _ kept => kept)
  have filed := afterwards_of_leads (expr.files_resolve before)
  exact ⟨kept.height, fun _ _ => kept.innermost, kept.inFunction,
    fun new _ _ => kept.filed new, filed.1.scopes, filed.1.inFunction, filed.2⟩

/-- A function in which a local is read in its own initializer, inside of a
block. -/
def selfReading : Stmt :=
  .block [.funDecl ⟨⟨.identifier "f", "f", 1⟩, [⟨.identifier "x", "x", 1⟩],
    [.expression (.reference 1 ⟨.identifier "a", "a", 1⟩),
      .varDecl ⟨.identifier "b", "b", 1⟩
        (some (.reference 2 ⟨.identifier "b", "b", 1⟩))]⟩]

/-- The analysis of a block fails two scopes further in, and leaves one scope
open as it was before. -/
theorem Analysis.scopes_stay_balanced_at_error :
    let before : Analysis :=
      { scopes := [NameMap.empty.insert "a" true]
        distances := ({} : Distances).insert 0 3 }
    (∃ error after, selfReading.resolve before = .error error after ∧
        error.fault = .readInOwnInitializer) ∧
      (selfReading.resolve.afterwards before).scopes.length = 1 ∧
      (selfReading.resolve.afterwards before).inFunction = false ∧
      (selfReading.resolve.afterwards before).distances[(0 : NodeId)]? =
        some 3 := by
  intro before
  obtain ⟨height, _, noFunction, filed, _⟩ :=
    Analysis.scopes_stay_balanced before selfReading (.literal .nil)
  have new : ∀ id ∈ identities selfReading.references,
      before.distances[id]? = none := by
    decide
  exact ⟨⟨_, _, rfl, rfl⟩, height, noFunction, filed new 0 3 (by decide)⟩

end LoxScript
