import LoxScript.Proofs.Machine.Distances
import LoxScript.Proofs.Machine.Fitting
import LoxScript.Proofs.Machine.Stages

namespace LoxScript

/-!
# Sealed frames

The frame of a bound method and the frame around the methods of a subclass are
sealed.  Statements and assignments write to other frames only, since these are
the names that they cannot have: so a sealed frame stays exactly as it was made.
-/

/-- The frame was made for `this` or for `super`. -/
inductive Frame.Sealed : Frame → Prop where
  | this {object parent} : Sealed (.ofThis object parent)
  | super {superclass parent} : Sealed (.ofSuper superclass parent)

namespace Frame.Sealed

variable {frame : Frame}

/-- A sealed frame has a parent. -/
theorem parent
    (isSealed : frame.Sealed) :
    ∃ parent, frame.parent = some parent := by
  cases isSealed <;> exact ⟨_, rfl⟩

/-- It holds no name that a script can give. -/
theorem reserved
    {name : String}
    {value : Value}
    (isSealed : frame.Sealed)
    (isHeld : frame.bindings.find? name = some value) :
    Reserved name := by
  cases isSealed with
  | this => exact .inl (Frame.held_single isHeld).1
  | super => exact .inr (Frame.held_single isHeld).1

/-- A frame that has none of these names is not sealed. -/
theorem absent
    (isOwn : ∀ name value, frame.bindings.find? name = some value →
      ¬ Reserved name) :
    ¬ frame.Sealed := by
  intro isSealed
  have held : ∃ name value, frame.bindings.find? name = some value := by
    cases isSealed with
    | this => exact ⟨"this", _, rfl⟩
    | super => exact ⟨"super", _, rfl⟩
  obtain ⟨name, value, isHeld⟩ := held
  exact isOwn name value isHeld (isSealed.reserved isHeld)

end Frame.Sealed

namespace Store

/-- The frame is there, and it is not sealed. -/
def Opens (store : Store) (frame : FrameId) : Prop :=
  ∃ held, store.frames[frame]? = some held ∧ ¬ held.Sealed

/-- Frames keep their places and parents; sealed frames stay exactly as they
are, and the others stay open. -/
structure Upholds (before after : Store) : Prop where
  size : before.nextFrame ≤ after.nextFrame
  parents : ∀ frame, frame < before.nextFrame →
    after.parent? frame = before.parent? frame
  seals :
    ∀ (frame : FrameId) (held : Frame),
      held.Sealed → before.frames[frame]? = some held →
      after.frames[frame]? = some held
  opens : ∀ frame, before.Opens frame → after.Opens frame

variable {store before middle after : Store} {frame : FrameId}

/-- What is known of a frame is known of its names. -/
theorem lookup?_eq
    {held : Frame}
    (present : store.frames[frame]? = some held)
    (name : String) :
    store.lookup? frame name = held.bindings.find? name := by
  simp only [lookup?, present]

/-- What is known of a frame is known of its parent. -/
theorem parent?_eq
    {held : Frame}
    (present : store.frames[frame]? = some held) :
    store.parent? frame = held.parent := by
  simp only [parent?, present]

/-- An open frame is there. -/
theorem Opens.present
    (opens : store.Opens frame) :
    frame < store.nextFrame := by
  obtain ⟨held, present, -⟩ := opens
  exact (Array.getElem?_eq_some_iff.mp present).1

/-- The global frame is open. -/
theorem Rooted.opens
    (rooted : store.Rooted) :
    store.Opens globalFrame := by
  have present := Array.getElem?_eq_getElem rooted.present
  refine ⟨_, present, fun isSealed => ?_⟩
  obtain ⟨parent, isParent⟩ := isSealed.parent
  rw [← parent?_eq present, rooted.top] at isParent
  cases isParent

/-- A new frame that is not sealed is open. -/
theorem opens_allocate
    {added : Frame}
    (isOpen : ¬ added.Sealed) :
    (store.allocate added).Opens store.nextFrame :=
  ⟨added, Array.getElem?_push_size, isOpen⟩

/-- A frame that holds a name is open, if a script can give that name. -/
theorem opens_of_holds
    {name : String}
    (isHeld : store.holds frame name = true)
    (isOwn : ¬ Reserved name) :
    store.Opens frame := by
  obtain ⟨value, found⟩ := holds_iff.mp isHeld
  have present := Array.getElem?_eq_getElem (lt_nextFrame_of_lookup? found)
  rw [lookup?_eq present] at found
  exact ⟨_, present, fun isSealed => isOwn (isSealed.reserved found)⟩

namespace Upholds

theorem refl
    (store : Store) :
    Upholds store store :=
  ⟨Nat.le_refl _, fun _ _ => rfl, fun _ _ _ present => present,
    fun _ opens => opens⟩

/-- One change after the other. -/
theorem trans
    (upholds : Upholds before middle)
    (upholdsNext : Upholds middle after) :
    Upholds before after where
  size := Nat.le_trans upholds.size upholdsNext.size
  parents frame present :=
    (upholdsNext.parents frame (Nat.lt_of_lt_of_le present upholds.size)).trans
      (upholds.parents frame present)
  seals frame held isSealed present :=
    upholdsNext.seals frame held isSealed
      (upholds.seals frame held isSealed present)
  opens frame opens := upholdsNext.opens frame (upholds.opens frame opens)

/-- A change that leaves the frames alone. -/
theorem ofFrames
    (same : after.frames = before.frames) :
    Upholds before after := by
  refine ⟨?_, ?_, ?_, ?_⟩
  · simp [nextFrame, same]
  · intro frame _
    simp [parent?, same]
  · intro frame held _ present
    rw [same]
    exact present
  · intro frame opens
    unfold Opens at opens ⊢
    rwa [same]

/-- A new frame. -/
theorem allocate
    (store : Store)
    (added : Frame) :
    Upholds store (store.allocate added) := by
  have stays {frame : FrameId} {held : Frame}
      (present : store.frames[frame]? = some held) :
      (store.allocate added).frames[frame]? = some held := by
    rw [Store.allocate,
      Array.getElem?_push_lt (Array.getElem?_eq_some_iff.mp present).1]
    rwa [Array.getElem?_eq_getElem (Array.getElem?_eq_some_iff.mp present).1]
      at present
  refine ⟨?_, ?_, ?_, ?_⟩
  · rw [nextFrame_allocate]
    exact Nat.le_succ _
  · exact fun frame present => parent?_allocate_of_lt present added
  · exact fun frame held _ present => stays present
  · rintro frame ⟨held, present, isOpen⟩
    exact ⟨held, stays present, isOpen⟩

/-- A name of an open frame gets a value. -/
theorem define
    {name : String}
    (opens : store.Opens frame)
    (permitted : store.parent? frame = none ∨ ¬ Reserved name)
    (value : Value) :
    Upholds store (store.define frame name value) := by
  refine ⟨?_, ?_, ?_, ?_⟩
  · simp
  · exact fun other _ => parent?_define ..
  · intro other held isSealed present
    have different : frame ≠ other := by
      rintro rfl
      obtain ⟨opened, isThere, isOpen⟩ := opens
      cases present.symm.trans isThere
      exact isOpen isSealed
    simp only [Store.define, Array.getElem?_modify, different, if_false]
    exact present
  · intro other opensOther
    by_cases same : frame = other
    · subst same
      obtain ⟨held, present, -⟩ := opens
      refine ⟨{ held with bindings := held.bindings.insert name value }, ?_,
        fun isSealed => ?_⟩
      · simp only [Store.define, Array.getElem?_modify, if_true, present,
          Option.map_some]
      · -- Either it has no parent, or it holds a name that sealed frames do
        -- not.
        rcases permitted with isTop | isOwn
        · obtain ⟨parent, isParent⟩ := isSealed.parent
          rw [parent?_eq present] at isTop
          cases isTop.symm.trans isParent
        · have isHeld : (held.bindings.insert name value).find? name =
              some value := by
            rw [NameMap.find?_insert, if_pos rfl]
          exact isOwn (isSealed.reserved isHeld)
    · obtain ⟨held, present, isOpen⟩ := opensOther
      refine ⟨held, ?_, isOpen⟩
      simp only [Store.define, Array.getElem?_modify, same, if_false]
      exact present

/-- The frame that is so many parents up stays the same. -/
theorem ancestor
    {distance : Nat}
    {found : FrameId}
    (upholds : Upholds before after)
    (isFound : before.ancestor? frame distance = some found) :
    after.ancestor? frame distance = some found := by
  induction distance generalizing frame with
  | zero => exact isFound
  | succ distance inductionHypothesis =>
      unfold ancestor? at isFound ⊢
      cases isParent : before.parent? frame with
      | none =>
          rw [isParent] at isFound
          cases isFound
      | some parent =>
          rw [isParent] at isFound
          rw [upholds.parents frame (lt_nextFrame_of_parent? isParent),
            isParent]
          exact inductionHypothesis isFound

/-- A frame that is sealed has been so since it was there. -/
theorem since
    {held : Frame}
    (upholds : Upholds before after)
    (isThere : frame < before.nextFrame)
    (isSealed : held.Sealed)
    (present : after.frames[frame]? = some held) :
    before.frames[frame]? = some held := by
  obtain ⟨was, wasThere⟩ : ∃ was, before.frames[frame]? = some was :=
    ⟨_, Array.getElem?_eq_getElem isThere⟩
  by_cases wasSealed : was.Sealed
  · rw [wasThere, ← upholds.seals _ _ wasSealed wasThere, present]
  · obtain ⟨other, presentOther, isOpen⟩ :=
      upholds.opens _ ⟨was, wasThere, wasSealed⟩
    cases presentOther.symm.trans present
    exact absurd isSealed isOpen

/-- The global frame stays where it is. -/
theorem rooted
    (upholds : Upholds before after)
    (isRooted : before.Rooted) :
    after.Rooted where
  present := Nat.lt_of_lt_of_le isRooted.present upholds.size
  top := (upholds.parents globalFrame isRooted.present).trans isRooted.top

end Upholds

end Store

namespace Machine

/-- Sealed frames stay as they are, and so do the distances of the nodes that
were handed out. -/
structure Upholds (before after : Machine) : Prop where
  store : before.store.Upholds after.store
  recalls : before.Recalls after

variable {before middle after machine : Machine}

namespace Upholds

/-- A change of the store alone. -/
theorem ofStore
    {store : Store}
    (upholds : machine.store.Upholds store) :
    machine.Upholds { machine with store := store } :=
  ⟨upholds, .ofSame rfl rfl⟩

/-- A change that leaves the frames and the nodes alone. -/
theorem aside
    (frames : after.store.frames = before.store.frames)
    (distances : after.distances = before.distances)
    (nextNode : after.nextNode = before.nextNode) :
    before.Upholds after :=
  ⟨.ofFrames frames, .ofSame nextNode distances⟩

theorem refl
    (machine : Machine) :
    machine.Upholds machine :=
  .aside rfl rfl rfl

/-- One change after the other. -/
theorem trans
    (upholds : before.Upholds middle)
    (upholdsNext : middle.Upholds after) :
    before.Upholds after :=
  ⟨upholds.store.trans upholdsNext.store,
    upholds.recalls.trans upholdsNext.recalls⟩

end Upholds

/-- What is known of a program stays known. -/
theorem Knows.recalled
    {offered : ByteArray → Prop}
    {program : Program}
    (knows : before.Knows offered program)
    (recalls : before.Recalls after) :
    after.Knows offered program := by
  obtain ⟨source, first, next, isOffered, compiled, below, table⟩ := knows
  refine ⟨source, first, next, isOffered, compiled,
    Nat.le_trans below recalls.nodes, ?_⟩
  intro id above under
  rw [recalls.distances id (Nat.lt_of_lt_of_le under below)]
  exact table id above under

end Machine

end LoxScript
