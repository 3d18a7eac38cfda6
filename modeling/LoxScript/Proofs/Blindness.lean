import LoxScript.Host.Standard
import LoxScript.Host.Toolbox
import LoxScript.Proofs.Likeness

namespace LoxScript

/-!
# Natives that do not look into functions

What a native does may depend on which function it is passed, on the function's
name and on the number of its parameters, but not on its code.  All natives that
come with the language are of this kind.
-/

/-- The native does not look into functions: passed twins, it gives back twins,
whatever functions count as twins that look the same.  It may give back
functions that it has kept. -/
def HostNative.BlindBut (native : HostNative) (kept : Function → Prop) : Prop :=
  ∀ like : Likeness, like.Faithful →
    (∀ function : Function, kept function →
      like.functions function function ∧ like.methods function function) →
    ∀ arguments images world, List.Forall₂ (Value.Twin like) arguments images →
      nativeTwin like (native.body arguments world) (native.body images world)

/-- The standard natives do not look into functions. -/
theorem Standard.blindBut_natives
    (kept : Function → Prop) :
    ∀ entry ∈ Standard.natives, entry.2.BlindBut kept := by
  intro entry member like _ _ arguments images world twins
  have related := head?_of_twins twins
  simp only [Standard.natives, List.mem_cons, List.not_mem_nil,
    or_false] at member
  rcases member with rfl | rfl | rfl
  · exact .value .number
  · simp only [Standard.sleep]
    generalize arguments.head? = value, images.head? = image at related ⊢
    cases related with
    | none => exact .failure
    | some twin =>
        cases twin with
        | number =>
            -- The first split is on the sign of the duration, the second on its
            -- limit.
            dsimp only
            split <;> split
            · exact .value .nil
            · exact .failure
            · exact .value .nil
            · exact .failure
        | _ => exact .failure
  · simp only [Standard.randN]
    generalize arguments.head? = value, images.head? = image at related ⊢
    cases related with
    | none => exact .failure
    | some twin =>
        cases twin with
        | number =>
            dsimp only
            split
            · exact .failure
            · split
              · exact .failure
              · exact .value .number
        | _ => exact .failure

/-- The natives for hosts to pick from do not look into functions. -/
theorem Toolbox.blindBut_of_body?
    {tool key : String}
    {body : NativeBody}
    (picked : Toolbox.body? tool key = some body)
    (name : String)
    (arity : Nat)
    (kept : Function → Prop) :
    HostNative.BlindBut ⟨name, arity, body⟩ kept := by
  intro like faithful _ arguments images world twins
  have related := head?_of_twins twins
  unfold Toolbox.body? at picked
  split at picked <;> cases picked
  · simp only [Toolbox.double]
    generalize arguments.head? = value, images.head? = image at related ⊢
    cases related with
    | none => exact .failure
    | some twin =>
        cases twin with
        | number => exact .value .number
        | _ => exact .failure
  · exact .value .nil
  · simp only [Toolbox.fail]
    generalize arguments.head? = value, images.head? = image at related ⊢
    cases related with
    | none => exact .failure
    | some twin =>
        dsimp only
        rw [twin.text faithful]
        exact .failure
  · exact .value .number
  · simp only [Toolbox.join, texts_of_twins twins faithful]
    exact .value .string
  · simp only [Toolbox.type, argumentType_of_twins related]
    exact .value .string
  · cases twins with
    | nil => exact .value .nil
    | cons first _ => exact .value first

end LoxScript
