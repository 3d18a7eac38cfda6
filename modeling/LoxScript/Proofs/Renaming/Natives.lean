import LoxScript.Proofs.Blindness
import LoxScript.Proofs.Renaming.State

namespace LoxScript

/-!
# Natives beside a renaming

A renaming leaves the functions alone that were there before the program, so
natives may have kept those.
-/

/-- The native does not look into functions: passed twins, it gives back twins,
whatever functions count as twins that look the same.  It may have kept
functions of the store. -/
def HostNative.Blind (native : HostNative) (store : Store) : Prop :=
  ∀ like : Likeness, like.Faithful →
    (∀ function : Function, store.Anchored function.closure →
      like.functions function function ∧ like.methods function function) →
    ∀ arguments images world, List.Forall₂ (Value.Twin like) arguments images →
      nativeTwin like (native.body arguments world) (native.body images world)

/-- The standard natives do not look into functions. -/
theorem Standard.blind_natives
    (store : Store) :
    ∀ entry ∈ Standard.natives, entry.2.Blind store :=
  Standard.blindBut_natives _

/-- The natives for hosts to pick from do not look into functions. -/
theorem Toolbox.blind_of_body?
    {tool key : String}
    {body : NativeBody}
    (picked : Toolbox.body? tool key = some body)
    (name : String)
    (arity : Nat)
    (store : Store) :
    HostNative.Blind ⟨name, arity, body⟩ store :=
  Toolbox.blindBut_of_body? picked name arity _

end LoxScript
