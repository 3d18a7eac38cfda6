import LoxScript.Proofs.Mirror
import LoxScript.Proofs.Renaming.State

namespace LoxScript

/-!
# Steps on twins

Two steps agree, started in machines that are twins, if they end alike in
machines that are twins again: with values that are related, or with the same
error, apart from the name that it quotes.  Agreement is proved along the
sequence of the steps, while the flags grow with the frames.
-/

/-- The same error, or one that quotes the new name where the other quotes the
old one. -/
inductive RuntimeError.Twin (old new : String) : RuntimeError →
    RuntimeError → Prop where
  | same {error} :
      Twin old new error error
  | renamed {distance line} :
      Twin old new (.unresolvedLocal old distance line)
        (.unresolvedLocal new distance line)

/-- Halts for the same reason, apart from the name that it quotes. -/
inductive Halt.Twin (old new : String) : Halt → Halt → Prop where
  | failed {error image} :
      RuntimeError.Twin old new error image →
        Twin old new (.failed error) (.failed image)
  | exhausted :
      Twin old new .exhausted .exhausted

/-- The store has been extended, and the machine is in the same frame. -/
structure Machine.Later
    (flags : Flags)
    (before : Machine)
    (grown : Flags)
    (after : Machine) : Prop where
  extend : Store.Extends flags before.store grown after.store
  active : after.active = before.active

namespace Machine

variable {r : Relabelling} {flags midway grown : Flags}
  {before middle after image : Machine}

theorem Later.refl
    (flags : Flags)
    (machine : Machine) :
    machine.Later flags flags machine :=
  ⟨.refl flags _, rfl⟩

/-- One step after the other. -/
theorem Later.trans
    (later : before.Later flags midway middle)
    (laterNext : middle.Later midway grown after) :
    before.Later flags grown after :=
  ⟨later.extend.trans laterNext.extend, laterNext.active.trans later.active⟩

/-- The frames around the code at hand stay what they are. -/
theorem Later.carries
    {marks : Marks}
    (later : before.Later flags grown after)
    (carries : before.store.Carries flags before.active marks) :
    after.store.Carries grown after.active marks := by
  rw [later.active]
  exact carries.later later.extend

/-- Values that are twins stay twins. -/
theorem Later.value
    {value valueImage : Value}
    (later : before.Later flags grown after)
    (alike : Value.Twin (before.store.likeness r flags) value valueImage) :
    Value.Twin (after.store.likeness r grown) value valueImage :=
  alike.widen later.extend.within

/-- Values that are twins one by one stay twins. -/
theorem Later.values
    {values images : List Value}
    (later : before.Later flags grown after)
    (alike :
      List.Forall₂ (Value.Twin (before.store.likeness r flags)) values images) :
    List.Forall₂ (Value.Twin (after.store.likeness r grown)) values images :=
  alike.imp fun _ _ twin => later.value twin

/-- Twins whose stores have changed. -/
theorem Twin.withStore
    {store storeImage : Store}
    (twin : before.Twin r flags image)
    (stores : store.Twin r grown storeImage) :
    Machine.Twin r grown { before with store := store }
      { image with store := storeImage } :=
  { twin with store := stores }

/-- Twins in another frame. -/
theorem Twin.inFrame
    (twin : before.Twin r flags image)
    (frame : FrameId) :
    Machine.Twin r flags { before with active := frame }
      { image with active := frame } :=
  { twin with active := rfl }

end Machine

/-- Started in the two machines, the two steps end alike: with related values,
or with the same error apart from the name that it quotes. -/
def Agrees
    (r : Relabelling)
    (flags : Flags)
    (left right : Run α)
    (machine image : Machine)
    (alike : Flags → Machine → α → α → Prop) : Prop :=
  Mirrors left right machine image
    (fun value after valueImage afterImage =>
      ∃ grown, machine.Later flags grown after ∧ after.Twin r grown afterImage ∧
        alike grown after value valueImage)
    (fun halt after haltImage afterImage =>
      Halt.Twin r.old r.new halt haltImage ∧
        ∃ grown, machine.Later flags grown after ∧
          after.Twin r grown afterImage)

/-- The values are twins. -/
def alikeValues
    (r : Relabelling)
    (flags : Flags)
    (machine : Machine)
    (value image : Value) : Prop :=
  Value.Twin (machine.store.likeness r flags) value image

/-- The values are twins one by one. -/
def alikeLists
    (r : Relabelling)
    (flags : Flags)
    (machine : Machine)
    (values images : List Value) : Prop :=
  List.Forall₂ (alikeValues r flags machine) values images

/-- The statements end alike: normally, or with twins as values. -/
inductive alikeFlows (r : Relabelling) (flags : Flags) (machine : Machine) :
    Flow → Flow → Prop where
  | normal :
      alikeFlows r flags machine .normal .normal
  | returned {value image} :
      alikeValues r flags machine value image →
      alikeFlows r flags machine (.returned value) (.returned image)

/-- Nothing but the store counts for how statements end. -/
theorem alikeFlows.move
    {r : Relabelling}
    {flags : Flags}
    {machine other : Machine}
    {flow image : Flow}
    (flows : alikeFlows r flags machine flow image)
    (same : other.store = machine.store) :
    alikeFlows r flags other flow image := by
  cases flows with
  | normal => exact .normal
  | returned alike =>
      refine .returned ?_
      unfold alikeValues
      rw [same]
      exact alike

/-- Nothing is asked of the values. -/
def alikeAnyhow (_ : Flags) (_ : Machine) (_ _ : α) : Prop :=
  True

namespace Agrees

variable {r : Relabelling} {flags : Flags} {machine image : Machine}
variable {left right : Run α} {alike : Flags → Machine → α → α → Prop}

/-- Two steps that yield values and change the machines. -/
theorem ofOk
    {value valueImage : α}
    {grown : Flags}
    {after afterImage : Machine}
    (yields : left machine = .ok value after)
    (yieldsImage : right image = .ok valueImage afterImage)
    (later : machine.Later flags grown after)
    (twin : after.Twin r grown afterImage)
    (holds : alike grown after value valueImage) :
    Agrees r flags left right machine image alike :=
  Mirrors.ofOk yields yieldsImage ⟨grown, later, twin, holds⟩

/-- Two steps that only yield values. -/
theorem ofPure
    {value valueImage : α}
    (twin : machine.Twin r flags image)
    (holds : alike flags machine value valueImage) :
    Agrees r flags (pure value) (pure valueImage) machine image alike :=
  ofOk rfl rfl (.refl flags machine) twin holds

/-- Two steps that fail with errors that are twins. -/
theorem ofErrors
    {error errorImage : RuntimeError}
    (twin : machine.Twin r flags image)
    (errors : RuntimeError.Twin r.old r.new error errorImage) :
    Agrees r flags (Run.fail error) (Run.fail errorImage) machine image alike :=
  Mirrors.ofThrow ⟨.failed errors, flags, .refl flags machine, twin⟩

/-- Two steps that fail with one error. -/
theorem ofFail
    (twin : machine.Twin r flags image)
    (error : RuntimeError) :
    Agrees r flags (Run.fail error) (Run.fail error) machine image alike :=
  ofErrors twin .same

/-- Two steps that run out of steps. -/
theorem ofExhausted
    (twin : machine.Twin r flags image) :
    Agrees r flags (throw .exhausted) (throw .exhausted) machine image alike :=
  Mirrors.ofThrow ⟨.exhausted, flags, .refl flags machine, twin⟩

/-- What the values are related by may be weakened. -/
theorem weaken
    {wider : Flags → Machine → α → α → Prop}
    (agrees : Agrees r flags left right machine image alike)
    (widen :
      ∀ grown after value valueImage, machine.Later flags grown after →
        alike grown after value valueImage →
          wider grown after value valueImage) :
    Agrees r flags left right machine image wider := by
  refine Mirrors.weaken agrees ?_ fun _ _ _ _ holds => holds
  rintro value after valueImage afterImage - - ⟨grown, later, twin, holds⟩
  exact ⟨grown, later, twin, widen grown after value valueImage later holds⟩

/-- What is done before two steps counts as part of them. -/
theorem after
    {start : Machine}
    {earlier : Flags}
    (agrees : Agrees r flags left right machine image alike)
    (later : start.Later earlier flags machine) :
    Mirrors left right machine image
      (fun value after valueImage afterImage =>
        ∃ grown, start.Later earlier grown after ∧
          after.Twin r grown afterImage ∧
          alike grown after value valueImage)
      (fun halt after haltImage afterImage =>
        Halt.Twin r.old r.new halt haltImage ∧
          ∃ grown, start.Later earlier grown after ∧
            after.Twin r grown afterImage) := by
  refine Mirrors.weaken agrees ?_ ?_
  · rintro value after valueImage afterImage - - ⟨grown, laterNext, twin, holds⟩
    exact ⟨grown, later.trans laterNext, twin, holds⟩
  · rintro halt after haltImage afterImage ⟨halts, grown, laterNext, twin⟩
    exact ⟨halts, grown, later.trans laterNext, twin⟩

/-- Sequences of steps. -/
theorem andThen
    {next nextImage : α → Run β}
    {final : Flags → Machine → β → β → Prop}
    (agrees : Agrees r flags left right machine image alike)
    (agreesNext :
      ∀ grown after afterImage value valueImage,
        machine.Later flags grown after →
        after.Twin r grown afterImage → alike grown after value valueImage →
        Agrees r grown (next value) (nextImage valueImage) after
          afterImage final) :
    Agrees r flags (left >>= next) (right >>= nextImage) machine
      image final := by
  refine Mirrors.andThen agrees ?_
  rintro value after valueImage afterImage - - ⟨grown, later, twin, holds⟩
  exact (agreesNext grown after afterImage value valueImage later twin
    holds).after later

/-- Two steps that look at their machines first. -/
theorem look
    {next nextImage : Machine → Run α}
    (agrees :
      Agrees r flags (next machine) (nextImage image) machine image alike) :
    Agrees r flags (get >>= next) (get >>= nextImage) machine image alike :=
  Mirrors.look agrees

/-- Two steps whose values are changed. -/
theorem map
    {change changeImage : α → β}
    {final : Flags → Machine → β → β → Prop}
    (agrees : Agrees r flags left right machine image alike)
    (holds :
      ∀ grown after value valueImage, alike grown after value valueImage →
        final grown after (change value) (changeImage valueImage)) :
    Agrees r flags (change <$> left) (changeImage <$> right) machine
      image final := by
  have sequence : Agrees r flags (left >>= fun value => pure (change value))
      (right >>= fun value => pure (changeImage value)) machine
      image final := by
    refine agrees.andThen ?_
    intro grown after afterImage value valueImage _ twin isAlike
    exact ofPure twin (holds grown after value valueImage isAlike)
  simpa [Functor.map] using sequence

end Agrees

open Run

variable {r : Relabelling} {flags : Flags} {machine image : Machine}
variable {left right : Run α} {alike : Flags → Machine → α → α → Prop}

/-- Two steps around other ones: the machines are changed first, and changed
back however the inner steps end. -/
theorem Agrees.around
    {outer outerImage : Run α}
    {entered enteredImage : Machine}
    {leave leaveImage : Machine → Machine}
    (runs :
      outer machine = match left entered with
        | .ok value after => .ok value (leave after)
        | .error halt after => .error halt (leave after))
    (runsImage :
      outerImage image = match right enteredImage with
        | .ok value after => .ok value (leaveImage after)
        | .error halt after => .error halt (leaveImage after))
    (agrees : Agrees r flags left right entered enteredImage alike)
    (leaves :
      ∀ grown after afterImage, entered.Later flags grown after →
        after.Twin r grown afterImage →
        machine.Later flags grown (leave after) ∧
          (leave after).Twin r grown (leaveImage afterImage))
    (unmoved :
      ∀ grown after value valueImage, alike grown after value valueImage →
        alike grown (leave after) value valueImage) :
    Agrees r flags outer outerImage machine image alike := by
  cases outcome : left entered with
  | ok value after =>
      obtain ⟨valueImage, afterImage, outcomeImage, grown, later, twin,
          holds⟩ :=
        Mirrors.ok agrees outcome
      rw [outcome] at runs
      rw [outcomeImage] at runsImage
      obtain ⟨laterOuter, twinOuter⟩ := leaves grown after afterImage later twin
      exact .ofOk runs runsImage laterOuter twinOuter
        (unmoved grown after value valueImage holds)
  | error halt after =>
      obtain ⟨haltImage, afterImage, outcomeImage, halts, grown, later, twin⟩ :=
        Mirrors.error agrees outcome
      rw [outcome] at runs
      rw [outcomeImage] at runsImage
      obtain ⟨laterOuter, twinOuter⟩ := leaves grown after afterImage later twin
      exact Mirrors.ofError runs runsImage ⟨halts, grown, laterOuter, twinOuter⟩

/-- Two steps in one frame, from which the machines come back. -/
theorem agrees_inFrame
    {frame : FrameId}
    (actives : image.active = machine.active)
    (agrees :
      Agrees r flags left right { machine with active := frame }
        { image with active := frame } alike)
    (unmoved :
      ∀ grown after value valueImage, alike grown after value valueImage →
        alike grown { after with active := machine.active } value valueImage) :
    Agrees r flags (inFrame frame left) (inFrame frame right) machine
      image alike := by
  refine Agrees.around rfl rfl agrees ?_ unmoved
  intro grown after afterImage later twin
  refine ⟨⟨later.extend, rfl⟩, ?_⟩
  rw [actives]
  exact twin.inFrame machine.active

/-- Two steps of one required source, which is then taken off the stack. -/
theorem agrees_whileRequiring
    {path : String}
    (agrees :
      Agrees r flags left right
        { machine with requiring := path :: machine.requiring }
        { image with requiring := path :: image.requiring } alike)
    (unmoved :
      ∀ grown after value valueImage, alike grown after value valueImage →
        alike grown { after with requiring := after.requiring.tail } value
          valueImage) :
    Agrees r flags (whileRequiring path left) (whileRequiring path right)
      machine image alike := by
  refine Agrees.around rfl rfl agrees ?_ unmoved
  intro grown after afterImage later twin
  exact ⟨⟨later.extend, later.active⟩,
    { twin with requiring := congrArg List.tail twin.requiring }⟩

end LoxScript
