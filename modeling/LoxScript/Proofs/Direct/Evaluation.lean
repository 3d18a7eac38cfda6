import LoxScript.Proofs.Direct.Analysis
import LoxScript.Proofs.Machine.Endurance

namespace LoxScript

/-!
# Execution without scopes for iterations

The direct evaluator differs from the evaluator of programs in two points: a
loop repeats the statement and the expression of an iteration in the frame it is
executed in, one after the other and with no frame around them, and required
sources are analysed accordingly.
-/

open Run

/-- Leaves out one place for a frame: it gets no names, and nothing refers to
it. -/
def Run.skipFrame : Run Unit := do
  let _ ← allocate ⟨NameMap.empty, none⟩

namespace Evaluator

/-- Executes what a loop repeats; an iteration is executed where the loop is. -/
def iterateDirectly
    (inner : Evaluator)
    (iterations : Iterations)
    (load : Token → String → Run Program) : Stmt → Run Flow
  | .block body =>
      if iterations.chooses body then do
        skipFrame
        inner.execAll body
      else inner.execNext load (.block body)
  | body => inner.execNext load body

/-- The evaluator in which iterations have no frames of their own, with a number
of steps. -/
def direct (iterations : Iterations) (context : Context) : Nat → Evaluator
  | 0 => exhausted
  | steps + 1 =>
      let inner := direct iterations context steps
      let load := loadRequiredBy (Machine.compileDirectly iterations) context
      { inner.next context load with
        iterate := inner.iterateDirectly iterations load }

/-- With one step more, the direct evaluator asks itself for the parts. -/
theorem direct_succ
    (iterations : Iterations)
    (context : Context)
    (steps : Nat) :
    direct iterations context (steps + 1) =
      { (direct iterations context steps).next context
          (loadRequiredBy (Machine.compileDirectly iterations) context) with
        iterate := (direct iterations context steps).iterateDirectly iterations
          (loadRequiredBy (Machine.compileDirectly iterations) context) } :=
  rfl

/-- What a loop repeats is prolonged. -/
theorem Prolongs.iterateDirectly
    {longer shorter : Evaluator}
    (prolongs : longer.Prolongs shorter)
    (iterations : Iterations)
    (load : Token → String → Run Program)
    (body : Stmt) :
    (longer.iterateDirectly iterations load body).Prolongs
      (shorter.iterateDirectly iterations load body) := by
  unfold Evaluator.iterateDirectly
  split
  · split
    · exact Run.Prolongs.andThen (.refl _) fun _ => prolongs.execAll _
    · exact prolongs.execNext load _
  · exact prolongs.execNext load _

/-- More steps prolong what the direct evaluator does. -/
theorem direct_prolongs
    (iterations : Iterations)
    (context : Context)
    {steps more : Nat}
    (enough : steps ≤ more) :
    (direct iterations context more).Prolongs
      (direct iterations context steps) := by
  refine prolongs_of_le (fun steps => ?_) enough
  induction steps with
  | zero => exact .ofExhausted _
  | succ steps prolongs =>
      let load := loadRequiredBy (Machine.compileDirectly iterations) context
      exact { prolongs.next context load with
        iterate := prolongs.iterateDirectly iterations load }

end Evaluator

end LoxScript
