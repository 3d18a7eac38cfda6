import LoxScript.Value

namespace LoxScript

/-!
# The store

Variables live in frames, and every frame but a global one has a parent.  A
frame is shared by all that refer to it: a write through one chain of parents is
seen through every other chain that passes the same frame.  The store also holds
the fields of instances and hands out identities.
-/

/-- The variables of one scope at run time. -/
structure Frame where
  bindings : NameMap Value
  parent : Option FrameId

/-- Everything that functions, frames and instances share. -/
structure Store where
  frames : Array Frame
  fields : Array (NameMap Value)
  nextIdentity : Nat

/-- The frame of the global variables. -/
def globalFrame : FrameId :=
  0

namespace Store

/-- The store with an empty global frame and nothing else. -/
def initial : Store :=
  ⟨#[⟨NameMap.empty, none⟩], #[], 0⟩

/-- Adds a frame. -/
def allocate (store : Store) (frame : Frame) : Store :=
  { store with frames := store.frames.push frame }

/-- The place of the frame to be added next. -/
def nextFrame (store : Store) : FrameId :=
  store.frames.size

/-- The value of a name in one frame, its parents left aside. -/
def lookup? (store : Store) (frame : FrameId) (name : String) : Option Value :=
  match store.frames[frame]? with
  | some held => held.bindings.find? name
  | none => none

/-- Whether one frame has the name. -/
def holds (store : Store) (frame : FrameId) (name : String) : Bool :=
  (store.lookup? frame name).isSome

/-- Gives a name a value in one frame, new or not. -/
def define (store : Store) (frame : FrameId) (name : String) (value : Value) :
    Store :=
  { store with
    frames := store.frames.modify frame fun held =>
      { held with bindings := held.bindings.insert name value } }

/-- The parent of a frame. -/
def parent? (store : Store) (frame : FrameId) : Option FrameId :=
  match store.frames[frame]? with
  | some held => held.parent
  | none => none

/-- The frame a number of parents up. -/
def ancestor? (store : Store) (frame : FrameId) : Nat → Option FrameId
  | 0 => some frame
  | distance + 1 =>
      match store.parent? frame with
      | some parent => store.ancestor? parent distance
      | none => none

/-- The value of a name in the frame a number of parents up. -/
def lookupAt? (store : Store) (frame : FrameId) (distance : Nat)
    (name : String) : Option Value :=
  match store.ancestor? frame distance with
  | some found => store.lookup? found name
  | none => none

/-- The frame a number of parents up, if it has the name. -/
def holderAt? (store : Store) (frame : FrameId) (distance : Nat)
    (name : String) : Option FrameId :=
  match store.ancestor? frame distance with
  | some found => if store.holds found name then some found else none
  | none => none

/-- Overwrites a name in one frame; fails if the frame does not have it. -/
def assign? (store : Store) (frame : FrameId) (name : String) (value : Value) :
    Option Store :=
  if store.holds frame name then some (store.define frame name value) else none

/-- Overwrites a name in the frame a number of parents up; fails if it is not
there. -/
def assignAt?
    (store : Store)
    (frame : FrameId)
    (distance : Nat)
    (name : String)
    (value : Value) : Option Store :=
  match store.holderAt? frame distance name with
  | some found => some (store.define found name value)
  | none => none

/-- Whether a frame has no parent. -/
def isGlobal (store : Store) (frame : FrameId) : Bool :=
  (store.parent? frame).isNone

/-- The names of one frame in ascending order. -/
def names (store : Store) (frame : FrameId) : List String :=
  match store.frames[frame]? with
  | some held => held.bindings.names
  | none => []

/-- The identity of the instance to be added next. -/
def nextInstance (store : Store) : InstanceId :=
  store.fields.size

/-- Adds an instance without fields. -/
def allocateInstance (store : Store) : Store :=
  { store with fields := store.fields.push NameMap.empty }

/-- The value of an instance's field. -/
def field? (store : Store) (object : InstanceId) (name : String) :
    Option Value :=
  match store.fields[object]? with
  | some held => held.find? name
  | none => none

/-- Gives an instance's field a value, new or not. -/
def setField (store : Store) (object : InstanceId) (name : String)
    (value : Value) : Store :=
  { store with
    fields := store.fields.modify object fun held => held.insert name value }

/-- The names of an instance's fields in ascending order. -/
def fieldNames (store : Store) (object : InstanceId) : List String :=
  match store.fields[object]? with
  | some held => held.names
  | none => []

/-- Counts one identity as handed out. -/
def skipIdentity (store : Store) : Store :=
  { store with nextIdentity := store.nextIdentity + 1 }

/-- What `define` does to every look-up in one frame. -/
theorem lookup?_define
    (store : Store)
    (frame other : FrameId)
    (name wanted : String)
    (value : Value) :
    (store.define frame name value).lookup? other wanted =
      if frame = other ∧ name = wanted ∧ frame < store.frames.size then
        some value
      else store.lookup? other wanted := by
  by_cases same : frame = other
  · subst same
    by_cases present : frame < store.frames.size
    · simp [define, lookup?, present, Array.getElem_modify,
        NameMap.find?_insert]
    · simp [define, lookup?, present]
  · simp [define, lookup?, Array.getElem?_modify, same]

/-- Defining a name moves no frame. -/
@[simp] theorem parent?_define
    (store : Store)
    (frame other : FrameId)
    (name : String)
    (value : Value) :
    (store.define frame name value).parent? other = store.parent? other := by
  by_cases same : frame = other
  · subst same
    cases held : store.frames[frame]? <;>
      simp [define, parent?, Array.getElem?_modify, held]
  · simp [define, parent?, Array.getElem?_modify, same]

/-- Going up twice is going up by the sum of the distances. -/
theorem ancestor?_add
    (store : Store)
    (frame : FrameId)
    (near far : Nat) :
    store.ancestor? frame (near + far) =
      (store.ancestor? frame near).bind fun found =>
        store.ancestor? found far := by
  induction near generalizing frame with
  | zero =>
      simp [ancestor?]
  | succ near inductionHypothesis =>
      rw [Nat.succ_add]
      cases parent : store.parent? frame <;>
        simp [ancestor?, parent, inductionHypothesis]

/-- A new frame changes nothing in the frames that were there. -/
theorem lookup?_allocate_of_lt
    {store : Store}
    {frame : FrameId}
    (present : frame < store.nextFrame)
    (added : Frame)
    (name : String) :
    (store.allocate added).lookup? frame name = store.lookup? frame name := by
  simp only [nextFrame] at present
  simp [allocate, lookup?, Array.getElem?_push_lt, present]

/-- A new frame moves none of the frames that were there. -/
theorem parent?_allocate_of_lt
    {store : Store}
    {frame : FrameId}
    (present : frame < store.nextFrame)
    (added : Frame) :
    (store.allocate added).parent? frame = store.parent? frame := by
  simp only [nextFrame] at present
  simp [allocate, parent?, Array.getElem?_push_lt, present]

/-- A new frame holds what it was made with. -/
theorem lookup?_allocate_nextFrame
    (store : Store)
    (added : Frame)
    (name : String) :
    (store.allocate added).lookup? store.nextFrame name =
      added.bindings.find? name := by
  simp [allocate, lookup?, nextFrame]

end Store

end LoxScript
