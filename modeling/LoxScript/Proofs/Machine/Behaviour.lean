import LoxScript.Proofs.Machine.Fitting
import LoxScript.Machine.Evaluation

namespace LoxScript

/-!
# Steps that keep a machine sound

A step behaves if, whatever its outcome, the machine has grown, is sound and is
back in the frame it was in, and no local frame has got a new name but perhaps
an open one.  This module says so of every small step that the evaluator is made
of.
-/

open Run

variable (offered : ByteArray → Prop) (context : Context)

/-- The machine has grown, is sound and is in the same frame; only an open frame
has new names. -/
structure Machine.Advances (opened : Option FrameId) (before after : Machine) :
    Prop where
  precedes : before.Precedes after
  sound : after.Sound offered context
  active : after.active = before.active
  steady : before.store.Steady opened after.store

/-- Whatever its outcome, the step advances the machine; the value it yields is
as wanted. -/
def Run.Behaves
    (opened : Option FrameId)
    (step : Run α)
    (machine : Machine)
    (good : α → Machine → Prop) : Prop :=
  Leads step machine
    (fun value after => machine.Advances offered context opened after ∧
      good value after)
    (fun _ after => machine.Advances offered context opened after)

variable {offered context} {opened : Option FrameId}
  {before middle after machine : Machine}

namespace Machine

namespace Advances

/-- Nothing has changed. -/
theorem refl
    (sound : machine.Sound offered context)
    (opened : Option FrameId) :
    machine.Advances offered context opened machine :=
  ⟨.refl machine, sound, rfl, .refl opened _⟩

/-- One step after the other. -/
theorem trans
    (advances : before.Advances offered context opened middle)
    (advancesNext : middle.Advances offered context opened after) :
    before.Advances offered context opened after where
  precedes := advances.precedes.trans advancesNext.precedes
  sound := advancesNext.sound
  active := advancesNext.active.trans advances.active
  steady := advances.steady.trans advances.precedes.grows advancesNext.steady

/-- More frames may be open. -/
theorem widen
    (advances : before.Advances offered context none after)
    (opened : Option FrameId) :
    before.Advances offered context opened after :=
  ⟨advances.precedes, advances.sound, advances.active,
    advances.steady.widen opened⟩

end Advances

/-- The active frame goes on to fit the scopes as long as it is not open. -/
theorem Fits.advance
    {scopes : List Scope}
    (fits : before.Fits scopes)
    (sound : before.Sound offered context)
    (advances : before.Advances offered context none after) :
    after.Fits scopes := by
  refine ⟨?_, ?_⟩
  · rw [advances.active]
    exact fits.chain.grow sound.rooted advances.precedes.grows
  · intro scope isHead name unready
    have chain := fits.chain
    have isLocal : before.active ≠ globalFrame := by
      cases scopes with
      | nil => cases isHead
      | cons first outer => exact chain.ne_global sound.rooted
    rw [advances.active,
      advances.steady _ name (chain.present sound.rooted) isLocal nofun]
    exact fits.exact scope isHead name unready

/-- A machine stays sound if all that it newly holds is sound. -/
theorem Sound.grow
    (sound : before.Sound offered context)
    (precedes : before.Precedes after)
    (unfiled : ∀ id, after.nextNode ≤ id → after.distances[id]? = none)
    (values :
      ∀ frame name value, after.store.lookup? frame name = some value →
        before.store.lookup? frame name = some value ∨
          value.Sound offered after)
    (fields :
      ∀ object name value, after.store.field? object name = some value →
        before.store.field? object name = some value ∨
          value.Sound offered after) :
    after.Sound offered context where
  rooted := sound.rooted.grow precedes.grows
  values frame name value found := by
    rcases values frame name value found with earlier | isSound
    · exact (sound.values frame name value earlier).later precedes sound.rooted
    · exact isSound
  fields object name value found := by
    rcases fields object name value found with earlier | isSound
    · exact (sound.fields object name value earlier).later precedes sound.rooted
    · exact isSound
  unfiled := unfiled
  sources := sound.sources
  natives native member arguments world value rest yields := by
    rcases sound.natives native member arguments world value rest yields with
      isAtom | passed | isSound
    · exact .inl isAtom
    · exact .inr (.inl passed)
    · exact .inr (.inr (isSound.later precedes sound.rooted))

/-- A name gets a value. -/
theorem precedes_define
    {frame : FrameId}
    {name : String}
    (permitted : frame = globalFrame ∨ ¬ Reserved name)
    (machine : Machine)
    (value : Value) :
    machine.Precedes
      { machine with store := machine.store.define frame name value } :=
  .ofStore (.define permitted _ _) rfl rfl

variable (sound : machine.Sound offered context)

include sound

/-- What is neither stored nor filed does not count. -/
theorem advances_aside
    {output : Sink}
    {world : World}
    (opened : Option FrameId) :
    machine.Advances offered context opened
      { machine with output := output, world := world } := by
  have precedes :
      machine.Precedes { machine with output := output, world := world } :=
    .ofStore (.refl _) rfl rfl
  exact ⟨precedes, sound.grow precedes sound.unfiled (fun _ _ _ => .inl)
    fun _ _ _ => .inl, rfl, .refl _ _⟩

/-- A new frame with sound values. -/
theorem advances_allocate
    {added : Frame}
    (contents : ∀ name value, added.bindings.find? name = some value →
      value.Sound offered machine)
    (opened : Option FrameId) :
    machine.Advances offered context opened
      { machine with store := machine.store.allocate added } := by
  have precedes :
      machine.Precedes { machine with store := machine.store.allocate added } :=
    .ofStore (.allocate _ added) rfl rfl
  refine ⟨precedes, sound.grow precedes sound.unfiled ?_ fun _ _ _ => .inl, rfl,
    .allocate _ _ _⟩
  intro frame name value found
  have present := Store.lt_nextFrame_of_lookup? found
  rw [Store.nextFrame_allocate] at present
  rcases Nat.lt_succ_iff_lt_or_eq.mp present with earlier | rfl
  · rw [Store.lookup?_allocate_of_lt earlier] at found
    exact .inl found
  · rw [Store.lookup?_allocate_nextFrame] at found
    exact .inr ((contents name value found).later precedes sound.rooted)

/-- A name gets a sound value. -/
theorem advances_define
    {frame : FrameId}
    {name : String}
    {value : Value}
    (permitted : frame = globalFrame ∨ ¬ Reserved name)
    (steady :
      machine.store.Steady opened (machine.store.define frame name value))
    (isSound :
      value.Sound offered
        { machine with store := machine.store.define frame name value }) :
    machine.Advances offered context opened
      { machine with store := machine.store.define frame name value } := by
  have precedes := precedes_define permitted machine value
  refine ⟨precedes, sound.grow precedes sound.unfiled ?_ fun _ _ _ => .inl, rfl,
    steady⟩
  intro other wanted held found
  rw [Store.lookup?_define] at found
  split at found
  · cases found
    exact .inr isSound
  · exact .inl found

/-- A new instance, without fields. -/
theorem advances_allocateInstance
    (opened : Option FrameId) :
    machine.Advances offered context opened
      { machine with store := machine.store.allocateInstance } := by
  have precedes : machine.Precedes
      { machine with store := machine.store.allocateInstance } :=
    .ofStore (.ofFrames rfl) rfl rfl
  refine ⟨precedes, sound.grow precedes sound.unfiled (fun _ _ _ => .inl) ?_,
    rfl, .ofFrames rfl _⟩
  exact fun _ _ _ found => .inl (Store.field?_of_allocateInstance found)

/-- A field gets a sound value. -/
theorem advances_setField
    {object : InstanceId}
    {name : String}
    {value : Value}
    (isSound : value.Sound offered machine)
    (opened : Option FrameId) :
    machine.Advances offered context opened
      { machine with store := machine.store.setField object name value } := by
  have precedes :
      machine.Precedes
        { machine with store := machine.store.setField object name value } :=
    .ofStore (.ofFrames rfl) rfl rfl
  refine ⟨precedes, sound.grow precedes sound.unfiled (fun _ _ _ => .inl) ?_,
    rfl, .ofFrames rfl _⟩
  intro other wanted held found
  rcases Store.field?_of_setField found with rfl | earlier
  · exact .inr (isSound.later precedes sound.rooted)
  · exact .inl earlier

/-- An identity is handed out. -/
theorem advances_skipIdentity
    (opened : Option FrameId) :
    machine.Advances offered context opened
      { machine with store := machine.store.skipIdentity } := by
  have precedes :
      machine.Precedes { machine with store := machine.store.skipIdentity } :=
    .ofStore (.ofFrames rfl) rfl rfl
  exact ⟨precedes, sound.grow precedes sound.unfiled (fun _ _ _ => .inl)
    fun _ _ _ => .inl, rfl, .ofFrames rfl _⟩

end Machine

namespace Run.Behaves

variable {step : Run α} {next : α → Run β}
variable {good better : α → Machine → Prop} {final : β → Machine → Prop}

/-- A step that yields a value. -/
theorem ofOk
    {value : α}
    (yields : step machine = .ok value after)
    (advances : machine.Advances offered context opened after)
    (holds : good value after) :
    Behaves offered context opened step machine good := by
  unfold Behaves Leads
  rw [yields]
  exact ⟨advances, holds⟩

/-- A step that fails or is out of steps. -/
theorem ofError
    {halt : Halt}
    (fails : step machine = .error halt after)
    (advances : machine.Advances offered context opened after) :
    Behaves offered context opened step machine good := by
  unfold Behaves Leads
  rw [fails]
  exact advances

/-- A step that only yields a value. -/
theorem ofPure
    {value : α}
    (sound : machine.Sound offered context)
    (holds : good value machine) :
    Behaves offered context opened (pure value) machine good :=
  ofOk rfl (.refl sound opened) holds

/-- A step that fails. -/
theorem ofFail
    (sound : machine.Sound offered context)
    (error : RuntimeError) :
    Behaves offered context opened (fail error) machine good :=
  .refl sound opened

/-- A step that is out of steps. -/
theorem ofExhausted
    (sound : machine.Sound offered context) :
    Behaves offered context opened (throw .exhausted) machine good :=
  .refl sound opened

/-- One step after the other. -/
theorem andThen
    (behaves : Behaves offered context opened step machine good)
    (behavesNext :
      ∀ value after, step machine = .ok value after →
        machine.Advances offered context opened after → good value after →
        Behaves offered context opened (next value) after final) :
    Behaves offered context opened (step >>= next) machine final := by
  unfold Behaves Leads at *
  cases outcome : step machine with
  | ok value middle =>
      rw [bind_of_ok outcome]
      rw [outcome] at behaves
      obtain ⟨advances, isGood⟩ := behaves
      have rest := behavesNext value middle outcome advances isGood
      split at rest
      · exact ⟨advances.trans rest.1, rest.2⟩
      · exact advances.trans rest
  | error halt middle =>
      rw [bind_of_error outcome]
      rw [outcome] at behaves
      exact behaves

/-- Looking at the machine before the next step. -/
theorem look
    {next : Machine → Run β}
    (behaves : Behaves offered context opened (next machine) machine final) :
    Behaves offered context opened (get >>= next) machine final :=
  behaves

/-- What is known of the value may be weakened. -/
theorem weaken
    (behaves : Behaves offered context opened step machine better)
    (isGood :
      ∀ value after, step machine = .ok value after →
        machine.Advances offered context opened after → better value after →
        good value after) :
    Behaves offered context opened step machine good := by
  unfold Behaves Leads at *
  cases outcome : step machine with
  | ok value middle =>
      rw [outcome] at behaves
      exact ⟨behaves.1, isGood value middle outcome behaves.1 behaves.2⟩
  | error halt middle =>
      rw [outcome] at behaves
      exact behaves

/-- More frames may be open. -/
theorem widen
    (behaves : Behaves offered context none step machine good)
    (opened : Option FrameId) :
    Behaves offered context opened step machine good :=
  Leads.weaken behaves (fun _ _ holds => ⟨holds.1.widen opened, holds.2⟩)
    fun _ _ advances => advances.widen opened

/-- A step that opens no frame, and after it one that may. -/
theorem beforeOpen
    (behaves : Behaves offered context none step machine good)
    (behavesNext :
      ∀ value after, step machine = .ok value after →
        machine.Advances offered context none after → good value after →
        Behaves offered context opened (next value) after final) :
    Behaves offered context opened (step >>= next) machine final := by
  have closed : Behaves offered context none step machine fun value after =>
      machine.Advances offered context none after ∧ good value after :=
    behaves.weaken fun _ _ _ advances isGood => ⟨advances, isGood⟩
  refine (closed.widen opened).andThen ?_
  rintro value after yields - ⟨advances, isGood⟩
  exact behavesNext value after yields advances isGood

end Run.Behaves

namespace Store

/-- The frame in which a method is bound matches the scope of a class. -/
theorem matches_ofThis
    {store : Store}
    {frame : FrameId}
    {object : Instance}
    (found : store.lookup? frame "this" = some (.object object)) :
    store.Matches frame Scope.ofThis := by
  refine ⟨?_, fun _ => ⟨object, found⟩, fun contained => by cases contained⟩
  intro name ready
  rw [Scope.ofThis, NameMap.find?_insert] at ready
  split at ready
  · rename_i same
    subst same
    exact holds_iff.mpr ⟨_, found⟩
  · cases ready

/-- The frame of a superclass matches the scope of a subclass. -/
theorem matches_ofSuper
    {store : Store}
    {frame : FrameId}
    {superclass : Class}
    (found : store.lookup? frame "super" = some (.blueprint superclass)) :
    store.Matches frame Scope.ofSuper := by
  refine ⟨?_, fun contained => (by cases contained), fun _ =>
    ⟨superclass, found⟩⟩
  intro name ready
  rw [Scope.ofSuper, NameMap.find?_insert] at ready
  split at ready
  · rename_i same
    subst same
    exact holds_iff.mpr ⟨_, found⟩
  · cases ready

end Store

namespace Run

variable (sound : machine.Sound offered context)

include sound

/-- Reading a variable. -/
theorem behaves_readVariable
    (id : NodeId)
    (name : Token) :
    Behaves offered context none (readVariable id name) machine
      fun value after => value.Sound offered after := by
  refine Behaves.look ?_
  split
  · split
    · rename_i value found
      refine .ofPure sound ?_
      unfold Store.lookupAt? at found
      split at found
      · exact sound.values _ _ value found
      · cases found
    · exact .ofFail sound _
  · split
    · rename_i value found
      exact .ofPure sound (sound.values _ _ value found)
    · exact .ofFail sound _

/-- The frame that holds a variable has its name. -/
theorem behaves_frameOf
    (id : NodeId)
    (name : Token) :
    Behaves offered context none (frameOf id name) machine
      fun frame after => after = machine ∧
      machine.store.holds frame name.lexeme = true := by
  refine Behaves.look ?_
  split
  · split
    · rename_i frame found
      exact .ofPure sound ⟨rfl, Store.holds_of_holderAt? found⟩
    · exact .ofFail sound _
  · split
    · rename_i held
      exact .ofPure sound ⟨rfl, held⟩
    · exact .ofFail sound _

/-- Overwriting a variable. -/
theorem behaves_assignVariable
    {name : Token}
    {value : Value}
    (isName : name.IsName)
    (isSound : value.Sound offered machine)
    (id : NodeId) :
    Behaves offered context none (assignVariable id name value) machine
      fun _ _ => True := by
  refine (behaves_frameOf sound id name).andThen ?_
  rintro frame present - - ⟨rfl, held⟩
  have permitted : frame = globalFrame ∨ ¬ Reserved name.lexeme :=
    .inr isName.notReserved
  have precedes := Machine.precedes_define permitted present value
  exact .ofOk rfl
    (Machine.advances_define sound permitted (.assign held value none)
      (isSound.later precedes sound.rooted)) trivial

/-- Setting a field. -/
theorem behaves_setField
    {value : Value}
    (isSound : value.Sound offered machine)
    (object : Instance)
    (name : String) :
    Behaves offered context none (setField object name value) machine
      fun _ _ => True :=
  .ofOk rfl (Machine.advances_setField sound isSound none) trivial

/-- Writing to the output. -/
theorem behaves_write
    (text : String) :
    Behaves offered context none (write text) machine fun _ _ => True := by
  refine Behaves.look ?_
  have advances : machine.Advances offered context none
      { machine with output := machine.output.append text.toUTF8 } :=
    machine.advances_aside sound none
  have appends : Behaves offered context none
      (modify fun machine =>
        { machine with output := machine.output.append text.toUTF8 })
      machine fun _ _ => True :=
    .ofOk rfl advances trivial
  refine appends.andThen ?_
  rintro _ after - further -
  split
  · exact .ofFail further.sound _
  · exact .ofPure further.sound trivial

/-- Binding a method to an instance. -/
theorem behaves_bind
    {method : Function}
    {object : Instance}
    (isMethod : method.SoundMethod offered machine)
    (isObject : object.blueprint.Sound offered machine) :
    Behaves offered context none (bind method object) machine
      fun bound after => bound.Sound offered after := by
  obtain ⟨program, outer, knows, places, fits⟩ := isMethod
  let added : Frame :=
    ⟨NameMap.empty.insert "this" (.object object), some method.closure⟩
  have contents : ∀ name value, added.bindings.find? name = some value →
      value.Sound offered machine := by
    intro name value found
    rw [NameMap.find?_insert] at found
    split at found
    · cases found
      exact isObject
    · cases found
  have advances := Machine.advances_allocate sound contents none
  have identified := Machine.advances_skipIdentity advances.sound none
  have both := advances.trans identified
  refine .ofOk rfl both ⟨program, _, knows.later both.precedes, places,
    ⟨?_, ?_⟩, fun _ => ?_⟩
  · exact Store.matches_ofThis
      (Store.lookup?_allocate_nextFrame machine.store added "this")
  · exact ⟨method.closure, Store.parent?_allocate_nextFrame machine.store added,
      fits.grow sound.rooted both.precedes.grows⟩
  · exact ⟨outer, rfl⟩

/-- Reading a property. -/
theorem behaves_getProperty
    {object : Instance}
    (isObject : object.blueprint.Sound offered machine)
    (name : Token) :
    Behaves offered context none (getProperty object name) machine
      fun value after => value.Sound offered after := by
  refine Behaves.look ?_
  split
  · rename_i value found
    exact .ofPure sound (sound.fields _ _ value found)
  · split
    · rename_i method found
      refine (behaves_bind sound (isObject _ method found) isObject).andThen ?_
      intro bound after _ advances isBound
      exact .ofPure advances.sound isBound
    · exact .ofFail sound _

/-- The superclass and the instance that `super` means. -/
theorem behaves_superParts
    (id : NodeId)
    (keyword : Token) :
    Behaves offered context none (superParts id keyword) machine
      fun parts after =>
        parts.1.Sound offered after ∧
          parts.2.blueprint.Sound offered after := by
  refine Behaves.look ?_
  have held {frame : FrameId} {distance : Nat} {name : String} {value : Value}
      (found : machine.store.lookupAt? frame distance name = some value) :
      value.Sound offered machine := by
    unfold Store.lookupAt? at found
    split at found
    · exact sound.values _ _ value found
    · cases found
  split
  · exact .ofFail sound _
  · split
    · rename_i superclass foundSuper
      split
      · exact .ofFail sound _
      · split
        · rename_i object foundThis
          exact .ofPure sound ⟨held foundSuper, held foundThis⟩
        · exact .ofFail sound _
    · exact .ofFail sound _

/-- Reading a method of the superclass. -/
theorem behaves_readSuper
    (id : NodeId)
    (keyword method : Token) :
    Behaves offered context none (readSuper id keyword method) machine
      fun value after => value.Sound offered after := by
  refine (behaves_superParts sound id keyword).andThen ?_
  rintro ⟨superclass, object⟩ after - advances ⟨isClass, isObject⟩
  dsimp only
  split
  · rename_i found isMethod
    refine (behaves_bind advances.sound (isClass _ found isMethod)
      isObject).andThen ?_
    intro bound last _ further isBound
    exact .ofPure further.sound isBound
  · exact .ofFail advances.sound _

/-- Calling a native. -/
theorem behaves_callNative
    {arguments : List Value}
    (areSound : ∀ argument ∈ arguments, argument.Sound offered machine)
    (native : Native) :
    Behaves offered context none (callNative context native arguments) machine
      fun value after => value.Sound offered after := by
  let performed :=
    performNative context.natives native.slot arguments machine.world
  have advances : machine.Advances offered context none
      { machine with world := performed.2 } :=
    machine.advances_aside sound none
  have performs : Behaves offered context none
      (modifyGet fun machine =>
        let performed :=
          performNative context.natives native.slot arguments machine.world
        (performed.1, { machine with world := performed.2 }))
      machine fun outcome after =>
        ∀ value, outcome = .ok value → value.Sound offered after := by
    refine .ofOk rfl advances ?_
    intro value yields
    refine Value.Sound.later advances.precedes sound.rooted ?_
    obtain ⟨found, member, body⟩ :=
      performNative_eq_ok
        (Prod.ext yields rfl : performed = (.ok value, performed.2))
    rcases sound.natives found member _ _ _ _ body with
      isAtom | passed | isSound
    · exact isAtom.sound
    · exact areSound value passed
    · exact isSound
  refine performs.andThen ?_
  intro outcome after _ further isSound
  split
  · exact .ofPure further.sound (isSound _ rfl)
  · exact .ofFail further.sound _

/-- The result of a call. -/
theorem behaves_callResult
    {flow : Flow}
    (isFlow : flow.Sound offered machine)
    (function : Function) :
    Behaves offered context none (callResult function flow) machine
      fun value after => value.Sound offered after := by
  unfold callResult
  split
  · refine Behaves.look ?_
    split
    · rename_i value found
      exact .ofPure sound (sound.values _ _ value found)
    · exact .ofFail sound _
  · split
    · exact .ofPure sound isFlow
    · exact .ofPure sound trivial

end Run

end LoxScript
