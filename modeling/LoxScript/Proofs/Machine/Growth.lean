import LoxScript.Machine

namespace LoxScript

/-!
# How a machine grows

Whatever a program does, frames stay where they are, keep their parents and keep
their names, and what `this` and `super` mean in a local frame never changes.
Distances that were filed stay filed.
-/

/-- The names that only the evaluator itself defines in local frames. -/
def Reserved (name : String) : Prop :=
  name = "this" ∨ name = "super"

namespace Store

/-- Frames keep their places, parents and names. -/
structure Grows (before after : Store) : Prop where
  size : before.nextFrame ≤ after.nextFrame
  parents : ∀ frame, frame < before.nextFrame →
    after.parent? frame = before.parent? frame
  names : ∀ frame name, before.holds frame name = true →
    after.holds frame name = true
  reserved :
    ∀ frame name value, frame ≠ globalFrame → Reserved name →
      before.lookup? frame name = some value →
        after.lookup? frame name = some value

/-- No local frame gets a new name, but perhaps an open one. -/
def Steady (opened : Option FrameId) (before after : Store) : Prop :=
  ∀ frame name, frame < before.nextFrame → frame ≠ globalFrame →
    frame ∉ opened →
    after.holds frame name = before.holds frame name

variable {before middle after store : Store} {frame : FrameId} {name : String}
  {value : Value}

/-- A frame that has a name is there. -/
theorem lt_nextFrame_of_lookup?
    (found : store.lookup? frame name = some value) :
    frame < store.nextFrame := by
  unfold lookup? at found
  split at found
  · rename_i held present
    exact (Array.getElem?_eq_some_iff.mp present).1
  · cases found

/-- A frame that is not there has no names. -/
theorem lookup?_eq_none
    {store : Store}
    {frame : FrameId}
    (absent : store.nextFrame ≤ frame)
    (name : String) :
    store.lookup? frame name = none := by
  cases found : store.lookup? frame name with
  | none => rfl
  | some value =>
      exact absurd (lt_nextFrame_of_lookup? found) (Nat.not_lt.mpr absent)

/-- A frame that has a parent is there. -/
theorem lt_nextFrame_of_parent?
    {parent : FrameId}
    (found : store.parent? frame = some parent) :
    frame < store.nextFrame := by
  unfold parent? at found
  split at found
  · rename_i held present
    exact (Array.getElem?_eq_some_iff.mp present).1
  · cases found

/-- A frame that is not there has no parent. -/
theorem parent?_eq_none
    {store : Store}
    {frame : FrameId}
    (absent : store.nextFrame ≤ frame) :
    store.parent? frame = none := by
  cases found : store.parent? frame with
  | none => rfl
  | some parent =>
      exact absurd (lt_nextFrame_of_parent? found) (Nat.not_lt.mpr absent)

theorem holds_iff :
    store.holds frame name = true ↔ ∃ value,
      store.lookup? frame name = some value := by
  simp [holds, Option.isSome_iff_exists]

/-- Where a name that is assigned to is found, it is held. -/
theorem holds_of_holderAt?
    {distance : Nat}
    {holder : FrameId}
    (isFound : store.holderAt? frame distance name = some holder) :
    store.holds holder name = true := by
  unfold holderAt? at isFound
  split at isFound
  · split at isFound
    · rename_i isHeld
      cases isFound
      exact isHeld
    · cases isFound
  · cases isFound

/-- An instance that has a field is there. -/
theorem lt_nextInstance_of_field?
    {object : InstanceId}
    (isFound : store.field? object name = some value) :
    object < store.nextInstance := by
  unfold field? at isFound
  split at isFound
  · rename_i held present
    exact (Array.getElem?_eq_some_iff.mp present).1
  · cases isFound

/-- A field that an instance has after one was added it had before. -/
theorem field?_of_allocateInstance
    {object : InstanceId}
    (isFound : store.allocateInstance.field? object name = some value) :
    store.field? object name = some value := by
  simp only [field?, allocateInstance, Array.getElem?_push] at isFound ⊢
  split at isFound
  · rename_i held present
    split at present
    · cases present
      cases isFound
    · rw [present]
      exact isFound
  · cases isFound

/-- A field that an instance has after one was set is that one, or it had it
before. -/
theorem field?_of_setField
    {object wanted : InstanceId}
    {field : String}
    {held : Value}
    (isFound : (store.setField object name value).field? wanted field =
      some held) :
    held = value ∨ store.field? wanted field = some held := by
  by_cases same : object = wanted
  · subst same
    cases present : store.fields[object]? with
    | none => simp [field?, setField, Array.getElem?_modify, present] at isFound
    | some entries =>
        simp only [field?, setField, Array.getElem?_modify, present, if_true,
          Option.map_some, NameMap.find?_insert] at isFound ⊢
        split at isFound
        · cases isFound
          exact .inl rfl
        · exact .inr isFound
  · refine .inr ?_
    simpa [field?, setField, Array.getElem?_modify, same] using isFound

/-- Nothing is held initially. -/
theorem lookup?_initial
    (frame : FrameId)
    (name : String) :
    Store.initial.lookup? frame name = none := by
  cases found : Store.initial.lookup? frame name with
  | none => rfl
  | some value =>
      cases Nat.lt_one_iff.mp (lt_nextFrame_of_lookup? found)
      cases found

/-- There are no fields initially. -/
theorem field?_initial
    (object : InstanceId)
    (name : String) :
    Store.initial.field? object name = none := by
  simp [initial, field?]

/-- A new frame is the last one. -/
theorem nextFrame_allocate
    (store : Store)
    (added : Frame) :
    (store.allocate added).nextFrame = store.nextFrame + 1 := by
  simp [allocate, nextFrame]

/-- A new frame has the parent it was made with. -/
theorem parent?_allocate_nextFrame
    (store : Store)
    (added : Frame) :
    (store.allocate added).parent? store.nextFrame = added.parent := by
  simp [allocate, parent?, nextFrame]

@[simp] theorem nextFrame_define
    (store : Store)
    (frame : FrameId)
    (name : String)
    (value : Value) :
    (store.define frame name value).nextFrame = store.nextFrame := by
  simp [define, nextFrame]

/-- What `define` does to the names of every frame. -/
theorem holds_define
    (store : Store)
    (frame other : FrameId)
    (name wanted : String)
    (value : Value) :
    (store.define frame name value).holds other wanted =
      (decide (frame = other ∧ name = wanted ∧ frame < store.frames.size) ||
        store.holds other wanted) := by
  unfold holds
  rw [lookup?_define]
  by_cases here : frame = other ∧ name = wanted ∧ frame < store.frames.size
  · rw [if_pos here, decide_eq_true here]
    rfl
  · rw [if_neg here, decide_eq_false here]
    rfl

namespace Grows

theorem refl
    (store : Store) :
    Grows store store :=
  ⟨Nat.le_refl _, fun _ _ => rfl, fun _ _ held => held,
    fun _ _ _ _ _ found => found⟩

/-- One change after the other. -/
theorem trans
    (grows : Grows before middle)
    (growsNext : Grows middle after) :
    Grows before after where
  size := Nat.le_trans grows.size growsNext.size
  parents frame present :=
    (growsNext.parents frame (Nat.lt_of_lt_of_le present grows.size)).trans
      (grows.parents frame present)
  names frame name held :=
    growsNext.names frame name (grows.names frame name held)
  reserved frame name value isLocal isReserved found :=
    growsNext.reserved frame name value isLocal isReserved
      (grows.reserved frame name value isLocal isReserved found)

/-- A change that leaves the frames alone. -/
theorem ofFrames
    (same : after.frames = before.frames) :
    Grows before after := by
  refine ⟨?_, ?_, ?_, ?_⟩
  · simp [nextFrame, same]
  · intro frame _
    simp [parent?, same]
  · intro frame name held
    simpa [holds, lookup?, same] using held
  · intro frame name value _ _ found
    simpa [lookup?, same] using found

/-- A new frame. -/
theorem allocate
    (store : Store)
    (added : Frame) :
    Grows store (store.allocate added) where
  size := by simp [nextFrame_allocate]
  parents frame present := parent?_allocate_of_lt present added
  names frame name held := by
    obtain ⟨value, found⟩ := holds_iff.mp held
    refine holds_iff.mpr ⟨value, ?_⟩
    rw [lookup?_allocate_of_lt (lt_nextFrame_of_lookup? found)]
    exact found
  reserved frame name value _ _ found := by
    rw [lookup?_allocate_of_lt (lt_nextFrame_of_lookup? found)]
    exact found

/-- A name gets a value, new or not. -/
theorem define
    (permitted : frame = globalFrame ∨ ¬ Reserved name)
    (store : Store)
    (value : Value) :
    Grows store (store.define frame name value) where
  size := by simp
  parents other _ := by simp
  names other wanted held := by simp [holds_define, held]
  reserved other wanted held isLocal isReserved found := by
    rw [lookup?_define]
    split
    · rename_i here
      obtain ⟨rfl, rfl, -⟩ := here
      exact absurd isReserved (permitted.resolve_left isLocal)
    · exact found

end Grows

namespace Steady

variable {opened : Option FrameId}

theorem refl
    (opened : Option FrameId)
    (store : Store) :
    Steady opened store store :=
  fun _ _ _ _ _ => rfl

/-- One change after the other. -/
theorem trans
    (steady : Steady opened before middle)
    (grows : Grows before middle)
    (steadyNext : Steady opened middle after) :
    Steady opened before after := by
  intro frame name present isLocal closed
  rw [steadyNext frame name (Nat.lt_of_lt_of_le present grows.size)
    isLocal closed]
  exact steady frame name present isLocal closed

/-- More frames may be open. -/
theorem widen
    (steady : Steady none before after)
    (opened : Option FrameId) :
    Steady opened before after :=
  fun frame name present isLocal _ => steady frame name present isLocal nofun

/-- What is done in a new frame opens no frame that was there. -/
theorem ofNew
    {added : Frame}
    (steady : Steady (some before.nextFrame) (before.allocate added) after) :
    Steady none before after := by
  intro frame name present isLocal _
  have further : frame < (before.allocate added).nextFrame := by
    rw [nextFrame_allocate]
    exact Nat.lt_succ_of_lt present
  rw [steady frame name further isLocal ?_]
  · simp [holds, lookup?_allocate_of_lt present]
  · intro same
    cases same
    exact Nat.lt_irrefl _ present

/-- A change that leaves the frames alone. -/
theorem ofFrames
    (same : after.frames = before.frames)
    (opened : Option FrameId) :
    Steady opened before after := by
  intro frame name _ _ _
  simp [holds, lookup?, same]

/-- A new frame. -/
theorem allocate
    (store : Store)
    (added : Frame)
    (opened : Option FrameId) :
    Steady opened store (store.allocate added) := by
  intro frame name present _ _
  simp [holds, lookup?_allocate_of_lt present]

/-- A name gets a value in an open frame or in the global one. -/
theorem define
    (permitted : frame = globalFrame ∨ frame ∈ opened)
    (store : Store)
    (name : String)
    (value : Value) :
    Steady opened store (store.define frame name value) := by
  intro other wanted _ isLocal closed
  rw [holds_define]
  by_cases same : frame = other
  · subst same
    exact (permitted.elim isLocal closed).elim
  · simp [same]

/-- A name that is there gets another value. -/
theorem assign
    (held : store.holds frame name = true)
    (value : Value)
    (opened : Option FrameId) :
    Steady opened store (store.define frame name value) := by
  intro other wanted _ _ _
  rw [holds_define]
  by_cases here : frame = other ∧ name = wanted ∧ frame < store.frames.size
  · obtain ⟨rfl, rfl, -⟩ := here
    simp [held]
  · simp [here]

end Steady

end Store

namespace Machine

/-- A later state of the machine: its store has grown, and no distance has
changed. -/
structure Precedes (before after : Machine) : Prop where
  grows : before.store.Grows after.store
  nodes : before.nextNode ≤ after.nextNode
  distances : ∀ id, id < before.nextNode →
    after.distances[id]? = before.distances[id]?

namespace Precedes

variable {before middle after : Machine}

/-- A change of the store. -/
theorem ofStore
    (grows : before.store.Grows after.store)
    (nodes : after.nextNode = before.nextNode)
    (distances : after.distances = before.distances) :
    Precedes before after :=
  ⟨grows, Nat.le_of_eq nodes.symm, fun _ _ => by rw [distances]⟩

theorem refl
    (machine : Machine) :
    Precedes machine machine :=
  .ofStore (.refl _) rfl rfl

/-- One change after the other. -/
theorem trans
    (precedes : Precedes before middle)
    (precedesNext : Precedes middle after) :
    Precedes before after where
  grows := precedes.grows.trans precedesNext.grows
  nodes := Nat.le_trans precedes.nodes precedesNext.nodes
  distances id below :=
    (precedesNext.distances id (Nat.lt_of_lt_of_le below precedes.nodes)).trans
      (precedes.distances id below)

end Precedes

end Machine

end LoxScript
