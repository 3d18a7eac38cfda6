import LoxScript.Proofs.Machine.Changes
import LoxScript.Proofs.Scope.Walk

namespace LoxScript

/-!
# Later code stays out of earlier frames

Draw a line at some moment of a run.  Code is early if its nodes have identities
that were handed out before the line; a frame is late if it and the local frames
above it were added after the line.  Whatever is executed after the line, code
that is not early is executed in late frames only: a function sees the frame it
was declared in, and code is compiled into the global frame.
-/

open Run

/-- A moment of a run: what was handed out before it is early. -/
structure Line where
  /-- The first identity of a node after the line. -/
  node : NodeId
  /-- The first frame after the line. -/
  frame : FrameId

/-- The frame is the global one or was added after the line, and so were those
above it. -/
inductive Store.Late (line : Line) (store : Store) : FrameId → Prop where
  | global :
      Late line store globalFrame
  | inner {frame parent} :
      line.frame ≤ frame → store.parent? frame = some parent →
      Late line store parent →
      Late line store frame

/-- All nodes of the part have identities from before the line. -/
def Part.Early (line : Line) (part : Part) : Prop :=
  ∀ id ∈ part.ids, id < line.node

/-- The part may be executed in the frame. -/
def Store.Admits (line : Line) (store : Store) (frame : FrameId) (part : Part) :
    Prop :=
  part.Early line ∨ store.Late line frame

/-- Frames keep their places and parents, and the machine is in the same
frame. -/
structure Machine.Extends (before after : Machine) : Prop where
  size : before.store.nextFrame ≤ after.store.nextFrame
  parents :
    ∀ frame, frame < before.store.nextFrame →
      after.store.parent? frame = before.store.parent? frame
  active : after.active = before.active

/-- Every change of a machine extends it. -/
theorem Machine.respected_extends : Machine.Respected Machine.Extends where
  refl _ := ⟨Nat.le_refl _, fun _ _ => rfl, rfl⟩
  trans first second :=
    ⟨Nat.le_trans first.size second.size,
      fun frame present =>
        (second.parents frame (Nat.lt_of_lt_of_le present first.size)).trans
          (first.parents frame present),
      second.active.trans first.active⟩
  change changes := by
    cases changes with
    | allocate added =>
        refine ⟨by simp [Store.nextFrame_allocate], ?_, rfl⟩
        exact fun frame present => Store.parent?_allocate_of_lt present added
    | define name value => exact ⟨by simp, fun _ _ => by simp, rfl⟩
    | assign frame name value _ => exact ⟨by simp, fun _ _ => by simp, rfl⟩
    | _ => exact ⟨Nat.le_refl _, fun _ _ => rfl, rfl⟩
  inFrame _ entered := ⟨entered.size, entered.parents, rfl⟩
  whileRequiring _ entered := ⟨entered.size, entered.parents, entered.active⟩

variable {line : Line} {store : Store} {before after machine : Machine}
  {frame : FrameId}

section Frames

/-- Late frames stay late. -/
theorem Store.Late.later
    (late : before.store.Late line frame)
    (extend : before.Extends after) :
    after.store.Late line frame := by
  induction late with
  | global => exact .global
  | inner above isParent _ inductionHypothesis =>
      refine .inner above ?_ inductionHypothesis
      rw [extend.parents _ (Store.lt_nextFrame_of_parent? isParent)]
      exact isParent

/-- Whatever is above a late frame is the global frame or was added after the
line. -/
theorem Store.Late.ancestor
    {distance : Nat}
    {found : FrameId}
    (late : store.Late line frame)
    (rooted : store.Rooted)
    (isFound : store.ancestor? frame distance = some found) :
    found = globalFrame ∨ line.frame ≤ found := by
  induction late generalizing distance with
  | global =>
      cases distance with
      | zero =>
          cases isFound
          exact .inl rfl
      | succ further => simp [Store.ancestor?, rooted.top] at isFound
  | inner above isParent _ inductionHypothesis =>
      cases distance with
      | zero =>
          cases isFound
          exact .inr above
      | succ further =>
          simp only [Store.ancestor?, isParent] at isFound
          exact inductionHypothesis isFound

/-- A new frame above a late one is late. -/
theorem Store.Late.allocate
    (late : before.store.Late line frame)
    (after : line.frame ≤ before.store.nextFrame)
    (bindings : NameMap Value) :
    (before.store.allocate ⟨bindings, some frame⟩).Late line
      before.store.nextFrame := by
  have extend : before.Extends
      { before with store := before.store.allocate ⟨bindings, some frame⟩ } :=
    Machine.respected_extends.change (.allocate before _)
  exact .inner after (Store.parent?_allocate_nextFrame _ _) (late.later extend)

/-- What is admitted stays admitted. -/
theorem Store.Admits.later
    {part : Part}
    (admits : before.store.Admits line frame part)
    (extend : before.Extends after) :
    after.store.Admits line frame part :=
  admits.imp_right fun late => late.later extend

/-- A part of what is admitted is admitted. -/
theorem Store.Admits.part
    {part other : Part}
    (admits : store.Admits line frame part)
    (within : other.ids ⊆ part.ids) :
    store.Admits line frame other :=
  admits.imp_left fun early id member => early id (within member)

/-- What is admitted in a frame is admitted in a new frame above it. -/
theorem Store.Admits.allocate
    {part : Part}
    (admits : machine.store.Admits line frame part)
    (after : line.frame ≤ machine.store.nextFrame)
    (bindings : NameMap Value) :
    (machine.store.allocate ⟨bindings, some frame⟩).Admits line
      machine.store.nextFrame part :=
  admits.imp_right fun late => late.allocate after bindings

end Frames

section Values

variable (line : Line) (store : Store)

/-- The function's code may be executed in the function's own frame. -/
def Function.Secluded (function : Function) : Prop :=
  store.Admits line function.closure (.function function.declaration)

/-- The methods of the class and of its superclasses may be executed in their
own frames. -/
def Class.Secluded (blueprint : Class) : Prop :=
  ∀ name method, blueprint.findMethod? name = some method →
    method.Secluded line store

/-- Whatever can be called through the value may be executed in its own
frame. -/
def Value.Secluded : Value → Prop
  | .function called => called.Secluded line store
  | .blueprint called => called.Secluded line store
  | .object held => held.blueprint.Secluded line store
  | _ => True

/-- What can be called may be executed in its own frame. -/
def Callee.Secluded : Callee → Prop
  | .function called => called.Secluded line store
  | .native _ => True
  | .blueprint called => called.Secluded line store

/-- What a statement returns can be called in its own frame only. -/
def Flow.Secluded : Flow → Prop
  | .normal => True
  | .returned value => value.Secluded line store

/-- All values that variables and fields have are good. -/
structure Store.Holds (good : Value → Prop) : Prop where
  values : ∀ frame name value, store.lookup? frame name = some value →
    good value
  fields : ∀ object name value, store.field? object name = some value →
    good value

/-- The machine is past the line, and all that it holds is executed in its own
frame only. -/
structure Machine.Secluded (machine : Machine) : Prop where
  past : line.frame ≤ machine.store.nextFrame
  holds : machine.store.Holds (Value.Secluded line machine.store)

/-- Natives yield nothing but what refers to nothing, was passed to them or is
early. -/
def Context.Lends (context : Context) : Prop :=
  ∀ native ∈ context.natives, ∀ arguments world value after,
    native.body arguments world = (.ok value, after) →
      value.IsAtom ∨ value ∈ arguments ∨ ∀ store, value.Secluded line store

end Values

section Later

variable (extend : before.Extends after)

include extend

theorem Function.Secluded.later
    {function : Function}
    (secluded : function.Secluded line before.store) :
    function.Secluded line after.store :=
  Store.Admits.later secluded extend

theorem Class.Secluded.later
    {blueprint : Class}
    (secluded : blueprint.Secluded line before.store) :
    blueprint.Secluded line after.store :=
  fun name method found => (secluded name method found).later extend

/-- What is executed in its own frame only stays so. -/
theorem Value.Secluded.later
    {value : Value}
    (secluded : value.Secluded line before.store) :
    value.Secluded line after.store := by
  cases value with
  | function function => exact Function.Secluded.later extend secluded
  | blueprint blueprint => exact Class.Secluded.later extend secluded
  | object object => exact Class.Secluded.later extend secluded
  | _ => trivial

end Later

/-- What a value can be called as is executed in its own frame only, if the
value is. -/
theorem Value.Secluded.callee
    {value : Value}
    {callee : Callee}
    (secluded : value.Secluded line store)
    (callable : value.callee? = some callee) :
    callee.Secluded line store := by
  cases value <;> cases callable <;> exact secluded

/-- A value that refers to nothing cannot be called. -/
theorem Value.IsAtom.secluded
    {value : Value}
    (isAtom : value.IsAtom) :
    value.Secluded line store := by
  cases value with
  | function function => cases isAtom
  | blueprint blueprint => cases isAtom
  | object object => cases isAtom
  | _ => trivial

namespace Store.Holds

/-- At first nothing is held. -/
theorem initial
    (good : Value → Prop) :
    Store.initial.Holds good where
  values frame name value found := by
    rw [Store.lookup?_initial] at found
    cases found
  fields object name value found := by
    rw [Store.field?_initial] at found
    cases found

variable {good better : Value → Prop}

/-- Less may be asked of the values. -/
theorem weaken
    (holds : store.Holds better)
    (implies : ∀ value, better value → good value) :
    store.Holds good :=
  ⟨fun frame name value found =>
    implies value (holds.values frame name value found),
    fun object name value found =>
      implies value (holds.fields object name value found)⟩

/-- A new frame with good values. -/
theorem allocate
    {added : Frame}
    (holds : store.Holds good)
    (contents : ∀ name value, added.bindings.find? name = some value →
      good value) :
    (store.allocate added).Holds good := by
  refine ⟨?_, holds.fields⟩
  intro frame name value found
  have present := Store.lt_nextFrame_of_lookup? found
  rw [Store.nextFrame_allocate] at present
  rcases Nat.lt_succ_iff_lt_or_eq.mp present with earlier | rfl
  · rw [Store.lookup?_allocate_of_lt earlier] at found
    exact holds.values frame name value found
  · rw [Store.lookup?_allocate_nextFrame] at found
    exact contents name value found

/-- A name gets a good value. -/
theorem define
    {value : Value}
    (holds : store.Holds good)
    (isGood : good value)
    (frame : FrameId)
    (name : String) :
    (store.define frame name value).Holds good := by
  refine ⟨?_, holds.fields⟩
  intro other wanted held found
  rw [Store.lookup?_define] at found
  split at found
  · cases found
    exact isGood
  · exact holds.values other wanted held found

/-- A new instance, without fields. -/
theorem allocateInstance
    (holds : store.Holds good) :
    store.allocateInstance.Holds good :=
  ⟨holds.values, fun object name value found =>
    holds.fields object name value (Store.field?_of_allocateInstance found)⟩

/-- A field gets a good value. -/
theorem setField
    {value : Value}
    (holds : store.Holds good)
    (isGood : good value)
    (object : InstanceId)
    (name : String) :
    (store.setField object name value).Holds good := by
  refine ⟨holds.values, ?_⟩
  intro other wanted held found
  rcases Store.field?_of_setField found with rfl | earlier
  · exact isGood
  · exact holds.fields other wanted held earlier

end Store.Holds

namespace Machine.Secluded

variable (secluded : machine.Secluded line)

include secluded

/-- A machine stays secluded if its store has grown by what is. -/
theorem grow
    (extend : machine.Extends after)
    (holds : after.store.Holds (Value.Secluded line machine.store)) :
    after.Secluded line :=
  ⟨Nat.le_trans secluded.past extend.size,
    holds.weaken fun _ isSecluded => isSecluded.later extend⟩

/-- A new frame with values that are secluded. -/
theorem allocate
    {added : Frame}
    (contents :
      ∀ name value, added.bindings.find? name = some value →
        value.Secluded line machine.store) :
    Machine.Secluded line
      { machine with store := machine.store.allocate added } :=
  secluded.grow (Machine.respected_extends.change (.allocate machine added))
    (secluded.holds.allocate contents)

/-- An identity is handed out. -/
theorem skipIdentity :
    Machine.Secluded line
      { machine with store := machine.store.skipIdentity } :=
  secluded.grow (Machine.respected_extends.change (.skipIdentity machine))
    ⟨secluded.holds.values, secluded.holds.fields⟩

/-- A name of the active frame gets a value that is secluded. -/
theorem define
    {value : Value}
    (isSecluded : value.Secluded line machine.store)
    (name : String) :
    Machine.Secluded line
      { machine with
        store := machine.store.define machine.active name value } :=
  secluded.grow (Machine.respected_extends.change (.define machine name value))
    (secluded.holds.define isSecluded _ name)

end Machine.Secluded

end LoxScript
