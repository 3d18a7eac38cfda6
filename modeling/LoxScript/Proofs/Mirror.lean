import LoxScript.Proofs.Outcome

namespace LoxScript

/-!
# Two steps side by side

`Mirrors` says of two steps, each started in a state of its own, that they end
alike: both yield a value or both fail, and the two outcomes are related.  Like
`Leads` it is proved along the sequence of the steps.
-/

/-- The two steps both yield values with `good`, or both fail with `bad`. -/
def Mirrors
    (left : EStateM ε σ α)
    (right : EStateM ζ τ β)
    (state : σ)
    (other : τ)
    (good : α → σ → β → τ → Prop)
    (bad : ε → σ → ζ → τ → Prop) : Prop :=
  match left state, right other with
  | .ok value after, .ok image afterImage => good value after image afterImage
  | .error error after, .error image afterImage =>
      bad error after image afterImage
  | _, _ => False

namespace Mirrors

variable {left : EStateM ε σ α} {right : EStateM ζ τ β} {state : σ} {other : τ}
variable {good : α → σ → β → τ → Prop} {bad : ε → σ → ζ → τ → Prop}

/-- Two steps that yield values. -/
theorem ofOk
    {value : α}
    {image : β}
    {after : σ}
    {afterImage : τ}
    (yields : left state = .ok value after)
    (yieldsImage : right other = .ok image afterImage)
    (holds : good value after image afterImage) :
    Mirrors left right state other good bad := by
  unfold Mirrors
  rw [yields, yieldsImage]
  exact holds

/-- Two steps that fail. -/
theorem ofError
    {error : ε}
    {image : ζ}
    {after : σ}
    {afterImage : τ}
    (fails : left state = .error error after)
    (failsImage : right other = .error image afterImage)
    (holds : bad error after image afterImage) :
    Mirrors left right state other good bad := by
  unfold Mirrors
  rw [fails, failsImage]
  exact holds

/-- If the left step yields a value, so does the right one. -/
theorem ok
    (mirrors : Mirrors left right state other good bad)
    {value : α}
    {after : σ}
    (yields : left state = .ok value after) :
    ∃ image afterImage, right other = .ok image afterImage ∧
      good value after image afterImage := by
  unfold Mirrors at mirrors
  rw [yields] at mirrors
  split at mirrors
  · rename_i same outcome
    cases same
    exact ⟨_, _, outcome, mirrors⟩
  · rename_i same _
    cases same
  · exact mirrors.elim

/-- If the left step fails, so does the right one. -/
theorem error
    (mirrors : Mirrors left right state other good bad)
    {error : ε}
    {after : σ}
    (fails : left state = .error error after) :
    ∃ image afterImage, right other = .error image afterImage ∧
      bad error after image afterImage := by
  unfold Mirrors at mirrors
  rw [fails] at mirrors
  split at mirrors
  · rename_i same _
    cases same
  · rename_i same outcome
    cases same
    exact ⟨_, _, outcome, mirrors⟩
  · exact mirrors.elim

/-- What the outcomes are related by may be weakened. -/
theorem weaken
    {better : α → σ → β → τ → Prop}
    {worse : ε → σ → ζ → τ → Prop}
    (mirrors : Mirrors left right state other better worse)
    (onValues :
      ∀ value after image afterImage, left state = .ok value after →
        right other = .ok image afterImage →
        better value after image afterImage →
        good value after image afterImage)
    (onErrors :
      ∀ error after image afterImage, worse error after image afterImage →
        bad error after image afterImage) :
    Mirrors left right state other good bad := by
  cases outcome : left state with
  | ok value after =>
      obtain ⟨image, afterImage, outcomeImage, holds⟩ := mirrors.ok outcome
      exact .ofOk outcome outcomeImage
        (onValues value after image afterImage outcome outcomeImage holds)
  | error error after =>
      obtain ⟨image, afterImage, outcomeImage, holds⟩ := mirrors.error outcome
      exact .ofError outcome outcomeImage
        (onErrors error after image afterImage holds)

/-- Sequences of steps: the first ones end alike, and from there so do the
second ones. -/
theorem andThen
    {next : α → EStateM ε σ γ}
    {nextImage : β → EStateM ζ τ δ}
    {final : γ → σ → δ → τ → Prop}
    (mirrors : Mirrors left right state other good bad)
    (mirrorsNext :
      ∀ value after image afterImage, left state = .ok value after →
        right other = .ok image afterImage → good value after image afterImage →
        Mirrors (next value) (nextImage image) after afterImage final bad) :
    Mirrors (left >>= next) (right >>= nextImage) state other final bad := by
  cases outcome : left state with
  | ok value after =>
      obtain ⟨image, afterImage, outcomeImage, holds⟩ := mirrors.ok outcome
      have rest :=
        mirrorsNext value after image afterImage outcome outcomeImage holds
      unfold Mirrors at rest ⊢
      rw [bind_of_ok outcome, bind_of_ok outcomeImage]
      exact rest
  | error error after =>
      obtain ⟨image, afterImage, outcomeImage, holds⟩ := mirrors.error outcome
      exact .ofError (bind_of_error outcome) (bind_of_error outcomeImage) holds

/-- Two steps that look at their states first. -/
theorem look
    {next : σ → EStateM ε σ γ}
    {nextImage : τ → EStateM ζ τ δ}
    {final : γ → σ → δ → τ → Prop}
    (mirrors : Mirrors (next state) (nextImage other) state other final bad) :
    Mirrors (get >>= next) (get >>= nextImage) state other final bad :=
  mirrors

/-- Two steps that only yield values. -/
theorem ofPure
    {value : α}
    {image : β}
    (holds : good value state image other) :
    Mirrors (pure value : EStateM ε σ α) (pure image : EStateM ζ τ β) state
      other good bad :=
  holds

/-- Two steps that only fail. -/
theorem ofThrow
    {error : ε}
    {image : ζ}
    (holds : bad error state image other) :
    Mirrors (throw error : EStateM ε σ α) (throw image : EStateM ζ τ β) state
      other good bad :=
  holds

end Mirrors

end LoxScript
