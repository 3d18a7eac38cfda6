import LoxScript.Proofs.Counterpart.State
import LoxScript.Proofs.Mirror

namespace LoxScript

/-!
# Steps that keep in step

Two steps, started in machines that are counterparts, keep in step if they end
alike in machines that are counterparts again: with values that are related, or
with the same error, perhaps a number of lines further down.  This is proved
along the sequence of the steps, while the distances of new nodes are filed.
-/

/-- The error a number of lines further down. -/
def RuntimeError.moved (lines : Int) : RuntimeError → RuntimeError
  | .operand operator line fault => .operand operator (line + lines) fault
  | .undefinedVariable name line => .undefinedVariable name (line + lines)
  | .undefinedProperty name line => .undefinedProperty name (line + lines)
  | .notAnInstance name found line => .notAnInstance name found (line + lines)
  | .arity expected got line => .arity expected got (line + lines)
  | .notCallable found line => .notCallable found (line + lines)
  | .superclassNotClass line => .superclassNotClass (line + lines)
  | .require path line cause => .require path (line + lines) cause
  | .cyclicRequire path line => .cyclicRequire path (line + lines)
  | .unresolvedLocal name distance line =>
      .unresolvedLocal name distance (line + lines)
  | .native name reason => .native name reason
  | .output fault => .output fault

/-- The error, or the same one a number of lines further down. -/
inductive RuntimeError.Shifted (lines : Int) (error : RuntimeError) :
    RuntimeError → Prop where
  | same : Shifted lines error error
  | moved : Shifted lines error (error.moved lines)

/-- Halts for the same reason, perhaps a number of lines further down. -/
inductive Halt.Shifted (lines : Int) : Halt → Halt → Prop where
  | failed {error image} :
      RuntimeError.Shifted lines error image →
        Shifted lines (.failed error) (.failed image)
  | exhausted :
      Shifted lines .exhausted .exhausted

/-- Two machines have gone on, and are counterparts. -/
structure Machine.Follow
    (lines : Int)
    (kept : Function → Prop)
    (machine image after afterImage : Machine) : Prop where
  recalls : machine.Recalls after
  recallsImage : image.Recalls afterImage
  counterpart : after.Counterpart lines kept afterImage

namespace Machine

variable {lines : Int} {kept : Function → Prop}
variable {machine image middle middleImage after afterImage : Machine}

namespace Follow

/-- Nothing has happened. -/
theorem refl
    (counterpart : machine.Counterpart lines kept image) :
    Follow lines kept machine image machine image :=
  ⟨.refl machine, .refl image, counterpart⟩

/-- One step after the other. -/
theorem trans
    (follow : Follow lines kept machine image middle middleImage)
    (followNext : Follow lines kept middle middleImage after afterImage) :
    Follow lines kept machine image after afterImage :=
  ⟨follow.recalls.trans followNext.recalls,
    follow.recallsImage.trans followNext.recallsImage, followNext.counterpart⟩

/-- Codes that are alike stay alike. -/
theorem within
    (follow : Follow lines kept machine image after afterImage) :
    (machine.linked lines image).Within (after.linked lines afterImage) :=
  follow.recalls.within follow.recallsImage lines

/-- Values that are twins stay twins. -/
theorem value
    {value valueImage : Value}
    (follow : Follow lines kept machine image after afterImage)
    (alike :
      Value.Twin (machine.linked lines image).likeness value valueImage) :
    Value.Twin (after.linked lines afterImage).likeness value valueImage :=
  alike.widen follow.within.likeness

/-- Values that are twins one by one stay twins. -/
theorem values
    {values images : List Value}
    (follow : Follow lines kept machine image after afterImage)
    (alike : List.Forall₂ (Value.Twin (machine.linked lines image).likeness)
      values images) :
    List.Forall₂ (Value.Twin (after.linked lines afterImage).likeness)
      values images :=
  alike.imp fun _ _ => follow.value

/-- Two machines whose stores have changed. -/
theorem ofStores
    {store storeImage : Store}
    (counterpart : machine.Counterpart lines kept image)
    (stores :
      store.Counterpart (machine.linked lines image).likeness storeImage) :
    Follow lines kept machine image { machine with store := store }
      { image with store := storeImage } :=
  ⟨.ofSame rfl rfl, .ofSame rfl rfl, { counterpart with store := stores }⟩

end Follow

end Machine

/-- Started in the two machines, the two steps end alike: with related values,
or with the same error, perhaps a number of lines further down. -/
def InStep
    (lines : Int)
    (kept : Function → Prop)
    (left : Run α)
    (right : Run β)
    (machine image : Machine)
    (alike : Correspondence → α → β → Prop) : Prop :=
  Mirrors left right machine image
    (fun value after valueImage afterImage =>
      Machine.Follow lines kept machine image after afterImage ∧
        alike (after.linked lines afterImage) value valueImage)
    (fun halt after haltImage afterImage =>
      Halt.Shifted lines halt haltImage ∧
        Machine.Follow lines kept machine image after afterImage)

namespace Correspondence

variable (code : Correspondence)

/-- The values are twins. -/
def Values : Value → Value → Prop :=
  Value.Twin code.likeness

/-- The values are twins one by one. -/
def Lists : List Value → List Value → Prop :=
  List.Forall₂ (Value.Twin code.likeness)

/-- The functions are counterparts. -/
def Functions : Function → Function → Prop :=
  Function.Counterpart code

/-- The classes are twins. -/
def Classes : Class → Class → Prop :=
  Class.Twin code.likeness

/-- The instances are twins. -/
def Objects (object image : Instance) : Prop :=
  Value.Twin code.likeness (.object object) (.object image)

/-- The statements end alike: normally, or with twins as values. -/
inductive Flows : Flow → Flow → Prop where
  | normal :
      Flows .normal .normal
  | returned {value image} :
      Value.Twin code.likeness value image →
        Flows (.returned value) (.returned image)

/-- The values are the same. -/
def Same (_ : Correspondence) (value image : α) : Prop :=
  image = value

/-- Nothing is asked of the values. -/
def Anything (_ : Correspondence) (_ : α) (_ : β) : Prop :=
  True

end Correspondence

namespace InStep

variable {lines : Int} {kept : Function → Prop} {machine image : Machine}
variable {left : Run α} {right : Run β} {alike : Correspondence → α → β → Prop}

/-- Two steps that yield values and change the machines. -/
theorem ofOk
    {value : α}
    {valueImage : β}
    {after afterImage : Machine}
    (yields : left machine = .ok value after)
    (yieldsImage : right image = .ok valueImage afterImage)
    (follow : Machine.Follow lines kept machine image after afterImage)
    (holds : alike (after.linked lines afterImage) value valueImage) :
    InStep lines kept left right machine image alike :=
  Mirrors.ofOk yields yieldsImage ⟨follow, holds⟩

/-- Two steps that only yield values. -/
theorem ofPure
    {value : α}
    {valueImage : β}
    (counterpart : machine.Counterpart lines kept image)
    (holds : alike (machine.linked lines image) value valueImage) :
    InStep lines kept (pure value) (pure valueImage) machine image alike :=
  ofOk rfl rfl (.refl counterpart) holds

/-- Two steps that fail with one error, perhaps on different lines. -/
theorem ofErrors
    {error errorImage : RuntimeError}
    (counterpart : machine.Counterpart lines kept image)
    (errors : RuntimeError.Shifted lines error errorImage) :
    InStep lines kept (Run.fail error) (Run.fail errorImage) machine
      image alike :=
  Mirrors.ofThrow ⟨.failed errors, .refl counterpart⟩

/-- Two steps that fail with one error. -/
theorem ofFail
    (counterpart : machine.Counterpart lines kept image)
    (error : RuntimeError) :
    InStep lines kept (Run.fail error) (Run.fail error) machine image alike :=
  ofErrors counterpart .same

/-- Two steps that run out of steps. -/
theorem ofExhausted
    (counterpart : machine.Counterpart lines kept image) :
    InStep lines kept (throw .exhausted) (throw .exhausted) machine
      image alike :=
  Mirrors.ofThrow ⟨.exhausted, .refl counterpart⟩

/-- What is done before two steps counts as part of them. -/
theorem after
    {start startImage : Machine}
    (inStep : InStep lines kept left right machine image alike)
    (follow : Machine.Follow lines kept start startImage machine image) :
    Mirrors left right machine image
      (fun value after valueImage afterImage =>
        Machine.Follow lines kept start startImage after afterImage ∧
          alike (after.linked lines afterImage) value valueImage)
      (fun halt after haltImage afterImage =>
        Halt.Shifted lines halt haltImage ∧
          Machine.Follow lines kept start startImage after afterImage) := by
  refine Mirrors.weaken inStep ?_ ?_
  · rintro value after valueImage afterImage - - ⟨followNext, holds⟩
    exact ⟨follow.trans followNext, holds⟩
  · rintro halt after haltImage afterImage ⟨halts, followNext⟩
    exact ⟨halts, follow.trans followNext⟩

/-- Sequences of steps. -/
theorem andThen
    {next : α → Run γ}
    {nextImage : β → Run δ}
    {final : Correspondence → γ → δ → Prop}
    (inStep : InStep lines kept left right machine image alike)
    (inStepNext :
      ∀ after afterImage value valueImage,
        Machine.Follow lines kept machine image after afterImage →
        alike (after.linked lines afterImage) value valueImage →
        InStep lines kept (next value) (nextImage valueImage) after
          afterImage final) :
    InStep lines kept (left >>= next) (right >>= nextImage) machine
      image final := by
  refine Mirrors.andThen inStep ?_
  rintro value after valueImage afterImage - - ⟨follow, holds⟩
  exact (inStepNext after afterImage value valueImage follow holds).after follow

/-- Two steps that look at their machines first. -/
theorem look
    {next : Machine → Run α}
    {nextImage : Machine → Run β}
    (inStep :
      InStep lines kept (next machine) (nextImage image) machine image alike) :
    InStep lines kept (get >>= next) (get >>= nextImage) machine image alike :=
  Mirrors.look inStep

/-- Two steps whose values are changed. -/
theorem map
    {change : α → γ}
    {changeImage : β → δ}
    {final : Correspondence → γ → δ → Prop}
    (inStep : InStep lines kept left right machine image alike)
    (holds :
      ∀ code value valueImage, alike code value valueImage →
        final code (change value) (changeImage valueImage)) :
    InStep lines kept (change <$> left) (changeImage <$> right) machine
      image final := by
  have sequence : InStep lines kept (left >>= fun value => pure (change value))
      (right >>= fun value => pure (changeImage value)) machine
      image final := by
    refine inStep.andThen ?_
    intro after afterImage value valueImage follow isAlike
    exact ofPure follow.counterpart (holds _ value valueImage isAlike)
  simpa [Functor.map] using sequence

/-- Two steps around other ones: the machines are changed first, and changed
back however the inner steps end. -/
theorem around
    {outer : Run α}
    {outerImage : Run β}
    {entered enteredImage : Machine}
    {leave leaveImage : Machine → Machine}
    (runs :
      outer machine = match left entered with
        | .ok value after => .ok value (leave after)
        | .error halt after => .error halt (leave after))
    (runsImage :
      outerImage image = match right enteredImage with
        | .ok value after => .ok value (leaveImage after)
        | .error halt after => .error halt (leaveImage after))
    (inStep : InStep lines kept left right entered enteredImage alike)
    (leaves :
      ∀ after afterImage,
        Machine.Follow lines kept entered enteredImage after afterImage →
        Machine.Follow lines kept machine image (leave after)
          (leaveImage afterImage))
    (unmoved :
      ∀ after afterImage value valueImage,
        alike (after.linked lines afterImage) value valueImage →
        alike ((leave after).linked lines (leaveImage afterImage)) value
          valueImage) :
    InStep lines kept outer outerImage machine image alike := by
  cases outcome : left entered with
  | ok value after =>
      obtain ⟨valueImage, afterImage, outcomeImage, follow, holds⟩ :=
        Mirrors.ok inStep outcome
      rw [outcome] at runs
      rw [outcomeImage] at runsImage
      exact .ofOk runs runsImage (leaves after afterImage follow)
        (unmoved after afterImage value valueImage holds)
  | error halt after =>
      obtain ⟨haltImage, afterImage, outcomeImage, halts, follow⟩ :=
        Mirrors.error inStep outcome
      rw [outcome] at runs
      rw [outcomeImage] at runsImage
      exact Mirrors.ofError runs runsImage
        ⟨halts, leaves after afterImage follow⟩

end InStep

open Run

variable {lines : Int} {kept : Function → Prop} {machine image : Machine}
variable {left : Run α} {right : Run β} {alike : Correspondence → α → β → Prop}

/-- Two steps in one frame, from which the machines come back. -/
theorem inStep_inFrame
    {frame : FrameId}
    (actives : image.active = machine.active)
    (inStep :
      InStep lines kept left right { machine with active := frame }
        { image with active := frame } alike) :
    InStep lines kept (inFrame frame left) (inFrame frame right) machine
      image alike := by
  refine InStep.around rfl rfl inStep ?_ fun _ _ _ _ holds => holds
  intro after afterImage follow
  exact ⟨Machine.respected_recalls.inFrame frame follow.recalls,
    Machine.respected_recalls.inFrame frame follow.recallsImage,
    { follow.counterpart with active := actives }⟩

/-- Two steps of one required source, which is then taken off the stack. -/
theorem inStep_whileRequiring
    {path : String}
    (inStep :
      InStep lines kept left right
        { machine with requiring := path :: machine.requiring }
        { image with requiring := path :: image.requiring } alike) :
    InStep lines kept (whileRequiring path left) (whileRequiring path right)
      machine image alike := by
  refine InStep.around rfl rfl inStep ?_ fun _ _ _ _ holds => holds
  intro after afterImage follow
  exact ⟨Machine.respected_recalls.whileRequiring path follow.recalls,
    Machine.respected_recalls.whileRequiring path follow.recallsImage,
    { follow.counterpart with
      requiring := congrArg List.tail follow.counterpart.requiring }⟩

end LoxScript
