import LoxScript.Proofs.Likeness
import LoxScript.Proofs.Renaming.Code

namespace LoxScript

/-!
# Machines with other names

Two machines are twins if they hold the same under other names.  Every frame is
flagged if it belongs to a marked scope; in a flagged frame the two names are
exchanged, and a function is the twin of another if their codes are twins under
the marks that the flags of the frames around the function give.  As frames are
added the flags of earlier frames stay, and so does what is a twin of what.
-/

/-- Which frames belong to marked scopes. -/
abbrev Flags := FrameId → Bool

namespace Store

/-- The frame and all frames above it are there. -/
def Anchored (store : Store) (frame : FrameId) : Prop :=
  ∀ distance found, store.ancestor? frame distance = some found →
    found < store.nextFrame

/-- The frame and all frames above it are there, and are flagged as the scopes
are marked. -/
def Carries (store : Store) (flags : Flags) (frame : FrameId) (marks : Marks) :
    Prop :=
  ∀ distance found, store.ancestor? frame distance = some found →
    found < store.nextFrame ∧ flags found = marks.marked distance

/-- Frames keep their places, parents and flags. -/
structure Extends (flags : Flags) (before : Store) (grown : Flags)
    (after : Store) : Prop where
  size : before.nextFrame ≤ after.nextFrame
  parents : ∀ frame, frame < before.nextFrame →
    after.parent? frame = before.parent? frame
  flags : ∀ frame, frame < before.nextFrame → grown frame = flags frame

variable {before middle after store : Store} {flags midway grown : Flags}
  {frame : FrameId}
variable {marks : Marks}

theorem Extends.refl
    (flags : Flags)
    (store : Store) :
    Extends flags store flags store :=
  ⟨Nat.le_refl _, fun _ _ => rfl, fun _ _ => rfl⟩

/-- One change after the other. -/
theorem Extends.trans
    (extend : Extends flags before midway middle)
    (extendNext : Extends midway middle grown after) :
    Extends flags before grown after where
  size := Nat.le_trans extend.size extendNext.size
  parents frame present :=
    (extendNext.parents frame (Nat.lt_of_lt_of_le present extend.size)).trans
      (extend.parents frame present)
  flags frame present :=
    (extendNext.flags frame (Nat.lt_of_lt_of_le present extend.size)).trans
      (extend.flags frame present)

/-- A change that leaves the frames alone. -/
theorem Extends.ofFrames
    (same : after.frames = before.frames)
    (flags : Flags) :
    Extends flags before flags after := by
  refine ⟨?_, ?_, fun _ _ => rfl⟩
  · simp [nextFrame, same]
  · intro frame _
    simp [parent?, same]

/-- Giving a name a value. -/
theorem Extends.define
    (flags : Flags)
    (store : Store)
    (frame : FrameId)
    (name : String)
    (value : Value) :
    Extends flags store flags (store.define frame name value) :=
  ⟨by simp, fun _ _ => by simp, fun _ _ => rfl⟩

/-- A new frame, flagged or not. -/
theorem Extends.allocate
    (flags : Flags)
    (store : Store)
    (added : Frame)
    (marked : Bool) :
    Extends flags store (Function.update flags store.nextFrame marked)
      (store.allocate added) := by
  refine ⟨by simp [nextFrame_allocate], ?_, ?_⟩
  · intro frame present
    exact parent?_allocate_of_lt present added
  · intro frame present
    exact Function.update_of_ne (Nat.ne_of_lt present) _ _

/-- A frame that is carried is anchored. -/
theorem Carries.anchored
    (carries : store.Carries flags frame marks) :
    store.Anchored frame :=
  fun distance found isFound => (carries distance found isFound).1

/-- A frame that is carried is there. -/
theorem Anchored.present
    (anchored : store.Anchored frame) :
    frame < store.nextFrame :=
  anchored 0 frame rfl

/-- The parent of an anchored frame is anchored. -/
theorem Anchored.parent
    {parent : FrameId}
    (anchored : store.Anchored frame)
    (isParent : store.parent? frame = some parent) :
    store.Anchored parent := by
  intro distance found isFound
  refine anchored (distance + 1) found ?_
  simpa [ancestor?, isParent] using isFound

/-- The frames above an anchored frame stay what they are. -/
theorem Extends.ancestor?
    (extend : Extends flags before grown after)
    (anchored : before.Anchored frame)
    (distance : Nat) :
    after.ancestor? frame distance = before.ancestor? frame distance := by
  induction distance generalizing frame with
  | zero =>
      rfl
  | succ further inductionHypothesis =>
      have same := extend.parents frame anchored.present
      cases isParent : before.parent? frame with
      | none =>
          simp [Store.ancestor?, same, isParent]
      | some parent =>
          simpa [Store.ancestor?, same, isParent] using
            inductionHypothesis (anchored.parent isParent)

/-- The global frame is anchored. -/
theorem Rooted.anchored
    (rooted : store.Rooted) :
    store.Anchored globalFrame := by
  intro distance found isFound
  cases distance with
  | zero =>
      cases isFound
      exact rooted.present
  | succ further =>
      simp [ancestor?, rooted.top] at isFound

/-- What a frame is carried with stays. -/
theorem Carries.later
    (carries : before.Carries flags frame marks)
    (extend : Extends flags before grown after) :
    after.Carries grown frame marks := by
  intro distance found isFound
  rw [extend.ancestor? carries.anchored] at isFound
  obtain ⟨present, flagged⟩ := carries distance found isFound
  exact ⟨Nat.lt_of_lt_of_le present extend.size,
    (extend.flags found present).trans flagged⟩

/-- An anchored frame of a store without flags is carried with no marks. -/
theorem Anchored.carries
    (anchored : before.Anchored frame)
    (extend : Extends (fun _ => false) before grown after) :
    after.Carries grown frame [] := by
  have carries : before.Carries (fun _ => false) frame [] :=
    fun distance found isFound => ⟨anchored distance found isFound, rfl⟩
  exact carries.later extend

/-- A new frame above one that is carried. -/
theorem Carries.allocate
    {bindings : NameMap Value}
    (carries : store.Carries flags frame marks)
    (marked : Bool) :
    (store.allocate ⟨bindings, some frame⟩).Carries
      (Function.update flags store.nextFrame marked) store.nextFrame
      (marked :: marks) := by
  have extend := Extends.allocate flags store ⟨bindings, some frame⟩ marked
  intro distance found isFound
  cases distance with
  | zero =>
      cases isFound
      refine ⟨by simp [nextFrame_allocate], ?_⟩
      rw [Function.update_self]
      rfl
  | succ further =>
      rw [Store.ancestor?, parent?_allocate_nextFrame] at isFound
      exact (carries.later extend) further found isFound

end Store

/-- Functions whose codes are twins under the marks of the frames around them
and of further scopes inside of these. -/
structure Function.Twin
    (r : Relabelling)
    (flags : Flags)
    (store : Store)
    (inner : Marks)
    (function image : Function) : Prop where
  identity : image.identity = function.identity
  closure : image.closure = function.closure
  isInitializer : image.isInitializer = function.isInitializer
  code :
    ∃ marks, store.Carries flags function.closure marks ∧
      FunctionDecl.Twin r (inner ++ marks) function.declaration
        image.declaration

/-- Which functions of a store are twins: a method gets one more frame when it
is bound. -/
def Store.likeness (r : Relabelling) (flags : Flags) (store : Store) :
    Likeness where
  functions := Function.Twin r flags store []
  methods := Function.Twin r flags store [false]

/-- Stores that hold the same under other names. -/
structure Store.Twin (r : Relabelling) (flags : Flags) (store image : Store) :
    Prop where
  size : image.nextFrame = store.nextFrame
  parents : ∀ frame, image.parent? frame = store.parent? frame
  bindings :
    ∀ frame name, Option.Rel (Value.Twin (store.likeness r flags))
      (store.lookup? frame name)
      (image.lookup? frame (r.spelled (flags frame) name))
  instances : image.nextInstance = store.nextInstance
  fields :
    ∀ object name, Option.Rel (Value.Twin (store.likeness r flags))
      (store.field? object name) (image.field? object name)
  identities : image.nextIdentity = store.nextIdentity
  /-- The frames from before the program are not flagged. -/
  earlier : Store.Extends (fun _ => false) r.start flags store

/-- Machines that hold the same under other names. -/
structure Machine.Twin (r : Relabelling) (flags : Flags)
    (machine image : Machine) : Prop where
  store : machine.store.Twin r flags image.store
  active : image.active = machine.active
  distances : image.distances = machine.distances
  output : image.output = machine.output
  world : image.world = machine.world
  requiring : image.requiring = machine.requiring
  nextNode : image.nextNode = machine.nextNode
  /-- The distances of the program's nodes stay what they are. -/
  table : ∀ id, r.first ≤ id → id < r.bound →
    machine.distances[id]? = r.table[id]?
  handed : r.bound ≤ machine.nextNode

section Later

variable {r : Relabelling} {flags grown : Flags} {before after : Store}

/-- Functions that are twins stay twins. -/
theorem Function.Twin.later
    {inner : Marks}
    {function image : Function}
    (twin : Function.Twin r flags before inner function image)
    (extend : Store.Extends flags before grown after) :
    Function.Twin r grown after inner function image := by
  obtain ⟨marks, carries, code⟩ := twin.code
  exact ⟨twin.identity, twin.closure, twin.isInitializer, marks,
    carries.later extend, code⟩

/-- What is a twin of what stays. -/
theorem Store.Extends.within
    (extend : Store.Extends flags before grown after) :
    (before.likeness r flags).Within (after.likeness r grown) :=
  ⟨fun _ _ twin => Function.Twin.later twin extend,
    fun _ _ twin => Function.Twin.later twin extend⟩

end Later

/-- Twins look the same. -/
theorem Function.Twin.looksLike
    {r : Relabelling}
    {flags : Flags}
    {store : Store}
    {inner : Marks}
    {function image : Function}
    (twin : Function.Twin r flags store inner function image) :
    function.LooksLike image := by
  obtain ⟨marks, -, code⟩ := twin.code
  exact ⟨twin.identity, congrArg Token.lexeme code.name, code.arity⟩

/-- Twins of a store look the same. -/
theorem Store.faithful_likeness
    (r : Relabelling)
    (flags : Flags)
    (store : Store) :
    (store.likeness r flags).Faithful :=
  ⟨fun _ _ twin => Function.Twin.looksLike twin, fun _ _ twin =>
    Function.Twin.looksLike twin⟩

namespace Store

variable {r : Relabelling} {flags grown : Flags} {store image after : Store}

namespace Twin

/-- The variables of twins stay twins. -/
theorem bindings_later
    (twin : store.Twin r flags image)
    (extend : Extends flags store grown after)
    (frame : FrameId)
    (name : String) :
    Option.Rel (Value.Twin (after.likeness r grown)) (store.lookup? frame name)
      (image.lookup? frame (r.spelled (flags frame) name)) :=
  relWiden (twin.bindings frame name) fun _ _ alike => alike.widen extend.within

/-- The fields of twins stay twins. -/
theorem fields_later
    (twin : store.Twin r flags image)
    (extend : Extends flags store grown after)
    (object : InstanceId)
    (name : String) :
    Option.Rel (Value.Twin (after.likeness r grown)) (store.field? object name)
      (image.field? object name) :=
  relWiden (twin.fields object name) fun _ _ alike => alike.widen extend.within

/-- Twins have the same frames above each frame. -/
theorem ancestor?_eq
    (twin : store.Twin r flags image)
    (frame : FrameId)
    (distance : Nat) :
    image.ancestor? frame distance = store.ancestor? frame distance := by
  induction distance generalizing frame with
  | zero =>
      rfl
  | succ further inductionHypothesis =>
      simp only [ancestor?, twin.parents, inductionHypothesis]

/-- A name gets values that are twins. -/
theorem define
    {value valueImage : Value}
    (twin : store.Twin r flags image)
    (alike : Value.Twin (store.likeness r flags) value valueImage)
    (frame : FrameId)
    (name : String) :
    (store.define frame name value).Twin r flags
      (image.define frame (r.spelled (flags frame) name) valueImage) := by
  have extend := Extends.define flags store frame name value
  refine ⟨by simpa using twin.size, by
    simpa using twin.parents, ?_, twin.instances, ?_,
    twin.identities, twin.earlier.trans extend⟩
  · intro other wanted
    have sizes : image.frames.size = store.frames.size := twin.size
    rw [lookup?_define, lookup?_define, sizes]
    by_cases here : frame = other ∧ name = wanted ∧ frame < store.frames.size
    · obtain ⟨rfl, rfl, present⟩ := here
      rw [if_pos ⟨rfl, rfl, present⟩, if_pos ⟨rfl, rfl, present⟩]
      exact .some (alike.widen extend.within)
    · have elsewhere : ¬ (frame = other ∧
          r.spelled (flags frame) name = r.spelled (flags other) wanted ∧
          frame < store.frames.size) := by
        rintro ⟨rfl, sameName, present⟩
        exact here ⟨rfl, Relabelling.spelled_inj.mp sameName, present⟩
      rw [if_neg here, if_neg elsewhere]
      exact twin.bindings_later extend other wanted
  · intro object wanted
    exact twin.fields_later extend object wanted

/-- New frames that hold twins under other names. -/
theorem allocate
    {bindings bindingsImage : NameMap Value}
    (twin : store.Twin r flags image)
    (marked : Bool)
    (alike :
      ∀ name, Option.Rel (Value.Twin (store.likeness r flags))
        (bindings.find? name) (bindingsImage.find? (r.spelled marked name)))
    (parent : Option FrameId) :
    (store.allocate ⟨bindings, parent⟩).Twin r
      (Function.update flags store.nextFrame marked)
      (image.allocate ⟨bindingsImage, parent⟩) := by
  have extend := Extends.allocate flags store ⟨bindings, parent⟩ marked
  refine ⟨by
    simpa [nextFrame_allocate] using twin.size, ?_, ?_, twin.instances, ?_,
    twin.identities, twin.earlier.trans extend⟩
  · intro frame
    rcases Nat.lt_trichotomy frame store.nextFrame with present | rfl | absent
    · rw [parent?_allocate_of_lt present,
        parent?_allocate_of_lt (twin.size ▸ present)]
      exact twin.parents frame
    · rw [parent?_allocate_nextFrame, ← twin.size, parent?_allocate_nextFrame]
    · rw [parent?_eq_none (by rw [nextFrame_allocate, twin.size]; exact absent),
        parent?_eq_none (by rw [nextFrame_allocate]; exact absent)]
  · intro frame name
    rcases Nat.lt_trichotomy frame store.nextFrame with present | rfl | absent
    · rw [lookup?_allocate_of_lt present,
        lookup?_allocate_of_lt (twin.size ▸ present),
        Function.update_of_ne (Nat.ne_of_lt present)]
      exact twin.bindings_later extend frame name
    · have placed : ∀ wanted,
          (image.allocate ⟨bindingsImage, parent⟩).lookup? store.nextFrame
          wanted = bindingsImage.find? wanted := by
        intro wanted
        rw [← twin.size]
        exact lookup?_allocate_nextFrame image ⟨bindingsImage, parent⟩ wanted
      rw [lookup?_allocate_nextFrame, Function.update_self, placed]
      exact relWiden (alike name) fun _ _ alike => alike.widen extend.within
    · rw [lookup?_eq_none (by rw [nextFrame_allocate]; exact absent),
        lookup?_eq_none (by rw [nextFrame_allocate, twin.size]; exact absent)]
      exact .none
  · intro object name
    exact twin.fields_later extend object name

/-- New instances without fields. -/
theorem allocateInstance
    (twin : store.Twin r flags image) :
    store.allocateInstance.Twin r flags image.allocateInstance := by
  have same : store.allocateInstance.frames = store.frames := rfl
  have extend := Extends.ofFrames same flags
  refine ⟨twin.size, twin.parents, ?_, ?_, ?_, twin.identities,
    twin.earlier.trans extend⟩
  · intro frame name
    exact twin.bindings_later extend frame name
  · simpa [nextInstance, Store.allocateInstance] using twin.instances
  · intro object name
    have sameSize : image.fields.size = store.fields.size := twin.instances
    have related := twin.fields_later extend object name
    simp only [field?, Store.allocateInstance, Array.getElem?_push,
      sameSize] at related ⊢
    by_cases isNew : object = store.fields.size
    · simp only [isNew, if_true]
      exact .none
    · simpa only [isNew, if_false] using related

/-- A field gets values that are twins. -/
theorem setField
    {value valueImage : Value}
    (twin : store.Twin r flags image)
    (alike : Value.Twin (store.likeness r flags) value valueImage)
    (object : InstanceId)
    (name : String) :
    (store.setField object name value).Twin r flags
      (image.setField object name valueImage) := by
  have same : (store.setField object name value).frames = store.frames := rfl
  have extend := Extends.ofFrames same flags
  refine ⟨twin.size, twin.parents, ?_, ?_, ?_, twin.identities,
    twin.earlier.trans extend⟩
  · intro frame wanted
    exact twin.bindings_later extend frame wanted
  · simpa [nextInstance, Store.setField] using twin.instances
  · intro other wanted
    have related := twin.fields_later extend other wanted
    have sizes : image.fields.size = store.fields.size := twin.instances
    by_cases here : object = other
    · subst here
      by_cases present : object < store.fields.size
      · by_cases sameName : name = wanted
        · have stored := Option.Rel.some (alike.widen extend.within)
          simpa [field?, Store.setField, Array.getElem_modify,
            NameMap.find?_insert, sizes, present, sameName] using stored
        · simpa [field?, Store.setField, Array.getElem_modify,
            NameMap.find?_insert, sizes, present, sameName] using related
      · simp [field?, Store.setField, sizes, present]
    · simpa [field?, Store.setField, Array.getElem?_modify, here] using related

/-- One more identity is handed out. -/
theorem skipIdentity
    (twin : store.Twin r flags image) :
    store.skipIdentity.Twin r flags image.skipIdentity := by
  have same : store.skipIdentity.frames = store.frames := rfl
  have extend := Extends.ofFrames same flags
  refine ⟨twin.size, twin.parents, ?_, twin.instances, ?_, ?_,
    twin.earlier.trans extend⟩
  · intro frame name
    exact twin.bindings_later extend frame name
  · intro object name
    exact twin.fields_later extend object name
  · exact congrArg (· + 1) twin.identities

end Twin

end Store

end LoxScript
