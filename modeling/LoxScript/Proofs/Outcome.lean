namespace LoxScript

/-!
# Reasoning about steps that can fail

Parsers, the scope analysis and the evaluator are all written as steps over a
state that yield a value or an error.  `Leads` says of such a step, started in
one state, what holds however it ends; a sequence of steps is treated by
treating its first step with the rest as the goal.
-/

/-- Started in `state`, the step yields a value and a state with `good`, or an
error and a state with `bad`. -/
def Leads
    (step : EStateM ε σ α)
    (state : σ)
    (good : α → σ → Prop)
    (bad : ε → σ → Prop) : Prop :=
  match step state with
  | .ok value after => good value after
  | .error error after => bad error after

/-- A first step that yields a value is followed by the second from where it
ended. -/
theorem bind_of_ok
    {first : EStateM ε σ α}
    {next : α → EStateM ε σ β}
    {state middle : σ}
    {value : α}
    (yields : first state = .ok value middle) :
    (first >>= next) state = next value middle := by
  simp [bind, EStateM.bind, yields]

/-- A first step that fails is all there is. -/
theorem bind_of_error
    {first : EStateM ε σ α}
    {next : α → EStateM ε σ β}
    {state middle : σ}
    {error : ε}
    (fails : first state = .error error middle) :
    (first >>= next) state = .error error middle := by
  simp [bind, EStateM.bind, fails]

/-- A step that yields a value yields a change of it. -/
theorem map_of_ok
    {step : EStateM ε σ α}
    {state after : σ}
    {value : α}
    (change : α → β)
    (yields : step state = .ok value after) :
    (change <$> step) state = .ok (change value) after := by
  simp only [Functor.map, EStateM.map, yields]

/-- Two steps of which one is taken, each followed by the same steps. -/
theorem choice_of_ok
    {taken other : EStateM ε σ α}
    {next : α → EStateM ε σ β}
    {state middle : σ}
    {value : α}
    {condition : Bool}
    (yields : (if condition = true then taken else other) state =
      .ok value middle) :
    (if condition = true then taken >>= next else other >>= next) state =
      next value middle := by
  cases condition <;> exact bind_of_ok yields

/-- A step that looks at the state is followed by the second with that state. -/
theorem bind_get
    {next : σ → EStateM ε σ β}
    (state : σ) :
    (get >>= next) state = next state state :=
  rfl

/-- A step that yields a value and changes the state. -/
theorem modifyGet_eq
    (change : σ → α × σ)
    (state : σ) :
    (modifyGet change :
      EStateM ε σ α) state = .ok (change state).1 (change state).2 :=
  rfl

/-- A sequence of two steps yields a value exactly if both steps do. -/
theorem bind_eq_ok_iff
    {first : EStateM ε σ α}
    {next : α → EStateM ε σ β}
    {state after : σ}
    {value : β} :
    (first >>= next) state = .ok value after ↔
      ∃ yielded middle,
        first state = .ok yielded middle ∧
          next yielded middle = .ok value after := by
  cases outcome : first state with
  | ok yielded middle =>
      rw [bind_of_ok outcome]
      constructor
      · intro yields
        exact ⟨yielded, middle, rfl, yields⟩
      · rintro ⟨_, _, same, yields⟩
        cases same
        exact yields
  | error error middle =>
      simp [bind_of_error outcome]

/-- One of two steps followed by the same steps yields a value exactly if all
that are taken do. -/
theorem choice_eq_ok_iff
    {taken other : EStateM ε σ α}
    {next : α → EStateM ε σ β}
    {state after : σ}
    {value : β}
    {condition : Bool} :
    (if condition = true then taken >>= next else other >>= next) state =
      .ok value after ↔
      ∃ yielded middle,
        (if condition = true then taken else other) state = .ok yielded middle ∧
          next yielded middle = .ok value after := by
  cases condition <;> exact bind_eq_ok_iff

/-- A change of what a step yields is yielded exactly if the step yields. -/
theorem map_eq_ok_iff
    {step : EStateM ε σ α}
    {change : α → β}
    {state after : σ}
    {value : β} :
    (change <$> step) state = .ok value after ↔
      ∃ yielded, step state = .ok yielded after ∧ change yielded = value := by
  cases outcome : step state with
  | ok yielded middle =>
      rw [map_of_ok change outcome]
      constructor
      · rintro ⟨⟩
        exact ⟨yielded, rfl, rfl⟩
      · rintro ⟨_, ⟨⟩, rfl⟩
        rfl
  | error error middle =>
      simp [Functor.map, EStateM.map, outcome]

/-- A sequence of two steps fails exactly if the first one does, or yields a
value with which the second one does. -/
theorem bind_eq_error_iff
    {first : EStateM ε σ α}
    {next : α → EStateM ε σ β}
    {state after : σ}
    {error : ε} :
    (first >>= next) state = .error error after ↔
      first state = .error error after ∨
        ∃ yielded middle,
          first state = .ok yielded middle ∧
            next yielded middle = .error error after := by
  cases outcome : first state with
  | ok yielded middle =>
      rw [bind_of_ok outcome]
      constructor
      · intro fails
        exact .inr ⟨yielded, middle, rfl, fails⟩
      · rintro (same | ⟨_, _, same, fails⟩)
        · cases same
        · cases same
          exact fails
  | error failed middle =>
      simp [bind_of_error outcome]

namespace Leads

variable {step : EStateM ε σ α} {state : σ}
variable {good : α → σ → Prop} {bad : ε → σ → Prop}

/-- What a step leads to may be weakened. -/
theorem weaken
    {better : α → σ → Prop}
    {worse : ε → σ → Prop}
    (leads : Leads step state better worse)
    (onValue : ∀ value after, better value after → good value after)
    (onError : ∀ error after, worse error after → bad error after) :
    Leads step state good bad := by
  unfold Leads at leads ⊢
  split at leads
  · exact onValue _ _ leads
  · exact onError _ _ leads

/-- A step whose outcome is a value leads to what holds of the value. -/
theorem ok
    (leads : Leads step state good bad)
    {value : α}
    {after : σ}
    (yields : step state = .ok value after) :
    good value after := by
  simpa [Leads, yields] using leads

/-- A step whose outcome is an error leads to what holds of the error. -/
theorem error
    (leads : Leads step state good bad)
    {error : ε}
    {after : σ}
    (fails : step state = .error error after) :
    bad error after := by
  simpa [Leads, fails] using leads

/-- A sequence of steps: the first one leads to where the second one leads
on. -/
theorem bind
    {next : α → EStateM ε σ β}
    {final : β → σ → Prop}
    (leads :
      Leads step state (fun value after => Leads (next value) after final bad)
        bad) :
    Leads (step >>= next) state final bad := by
  cases outcome : step state with
  | ok value middle =>
      simpa [Leads, bind_of_ok outcome, outcome] using leads
  | error error middle =>
      simpa [Leads, bind_of_error outcome, outcome] using leads

/-- Changing the value that a step yields. -/
theorem map
    {change : α → β}
    {final : β → σ → Prop}
    (leads :
      Leads step state (fun value after => final (change value) after) bad) :
    Leads (change <$> step) state final bad := by
  cases outcome : step state <;>
    simpa [Leads, Functor.map, EStateM.map, outcome] using leads

/-- A step that looks at the state first. -/
theorem look
    {next : σ → EStateM ε σ α}
    (leads : Leads (next state) state good bad) :
    Leads (get >>= next) state good bad :=
  leads

/-- A step that only yields a value. -/
theorem ofPure
    {value : α}
    (holds : good value state) :
    Leads (pure value) state good bad :=
  holds

/-- A step that only changes the state. -/
theorem ofModify
    {change : σ → σ}
    {good : PUnit → σ → Prop}
    (holds : good () (change state)) :
    Leads (modify change) state good bad :=
  holds

/-- A step that only fails. -/
theorem ofThrow
    {error : ε}
    (holds : bad error state) :
    Leads (throw error) state good bad :=
  holds

end Leads

end LoxScript
