import Mathlib.Logic.Relation
import LoxScript.Proofs.Machine.Governed

namespace LoxScript

/-!
# Writes stay within reach

From a frame one gets to its parent and to what its values show, from an
instance to what its fields show.  Whatever a run changes can be got to in this
way from the active frame or from the globals, or did not exist before the run.
-/

open Relation Run

/-- What can be referred to. -/
inductive Place where
  | frame (frame : FrameId)
  | object (object : InstanceId)
  | function (identity : Nat)
  | blueprint (identity : Nat)

/-- A function shows itself and the frame that it sees. -/
inductive Function.Shows (function : Function) : Place → Prop where
  | itself : Shows function (.function function.identity)
  | closure : Shows function (.frame function.closure)

/-- A class shows itself, all that its methods show and all that its superclass
shows. -/
inductive Class.Shows : Class → Place → Prop where
  | itself {blueprint} : Shows blueprint (.blueprint blueprint.identity)
  | method {blueprint name method place} :
      blueprint.methods.find? name = some method → method.Shows place →
        Shows blueprint place
  | superclass {blueprint parent place} :
      blueprint.superclass = some parent → Shows parent place →
        Shows blueprint place

/-- What a value shows: an instance shows its fields and its class. -/
inductive Value.Shows : Value → Place → Prop where
  | function {called place} : called.Shows place →
    Shows (.function called) place
  | blueprint {called place} : called.Shows place →
    Shows (.blueprint called) place
  | object {held} : Shows (.object held) (.object held.identity)
  | classOf {held place} : held.blueprint.Shows place →
    Shows (.object held) place

/-- From one place in the store one gets to another. -/
inductive Store.Links (store : Store) : Place → Place → Prop where
  | parent {frame parent} :
      store.parent? frame = some parent →
        Links store (.frame frame) (.frame parent)
  | held {frame name value place} :
      store.lookup? frame name = some value → value.Shows place →
        Links store (.frame frame) place
  | field {object name value place} :
      store.field? object name = some value → value.Shows place →
        Links store (.object object) place

/-- From what the value shows one gets to the place. -/
def Value.Reaches (store : Store) (value : Value) (place : Place) : Prop :=
  ∃ shown, value.Shows shown ∧ ReflTransGen store.Links shown place

/-- Nothing is at the place yet. -/
def Store.Lacks (store : Store) : Place → Prop
  | .frame frame => store.nextFrame ≤ frame
  | .object object => store.nextInstance ≤ object
  | .function identity => store.nextIdentity ≤ identity
  | .blueprint identity => store.nextIdentity ≤ identity

namespace Machine

/-- From the active frame or the globals one gets to the place. -/
def InReach (machine : Machine) (place : Place) : Prop :=
  ReflTransGen machine.store.Links (.frame machine.active) place ∨
    ReflTransGen machine.store.Links (.frame globalFrame) place

/-- The place is in reach, or nothing is there yet. -/
def Affords (machine : Machine) (place : Place) : Prop :=
  machine.InReach place ∨ machine.store.Lacks place

/-- Frames and instances that were there and out of reach are as they were. -/
structure Spares (before after : Machine) : Prop where
  frames :
    ∀ frame, frame < before.store.nextFrame → ¬ before.InReach (.frame frame) →
      after.store.frames[frame]? = before.store.frames[frame]?
  fields :
    ∀ object, object < before.store.nextInstance →
      ¬ before.InReach (.object object) →
      after.store.fields[object]? = before.store.fields[object]?

end Machine

/-- In the run that starts so, natives yield what shows nothing or what one gets
to from their arguments. -/
def Context.LendsWithinReach (context : Context) (start : Task)
    (initial : Machine) : Prop :=
  ∀ native arguments machine value world,
    Reaches context start initial (.apply (.native native) arguments) machine →
    performNative context.natives native.slot arguments machine.world =
      (.ok value, world) →
      ∀ place, value.Shows place → ∃ argument ∈ arguments,
        argument.Reaches machine.store place

section Confined

variable (inside : Place → Prop)

/-- The value shows nothing but what is inside. -/
def Value.Within (value : Value) : Prop :=
  ∀ place, value.Shows place → inside place

/-- From inside one gets nowhere else. -/
def Store.Confined (store : Store) : Prop :=
  ∀ place other, inside place → store.Links place other → inside other

variable {inside} {store : Store} {place other : Place} {frame holder : FrameId}
  {value : Value}

namespace Store.Confined

variable (confined : store.Confined inside)

include confined

/-- However far one goes. -/
theorem reached
    (isInside : inside place)
    (reaches : ReflTransGen store.Links place other) :
    inside other := by
  induction reaches with
  | refl => exact isInside
  | tail _ links inductionHypothesis =>
      exact confined _ _ inductionHypothesis links

/-- Frames above a frame inside are inside. -/
theorem ancestor
    {distance : Nat}
    (isInside : inside (.frame frame))
    (isFound : store.ancestor? frame distance = some holder) :
    inside (.frame holder) := by
  induction distance generalizing frame with
  | zero =>
      cases isFound
      exact isInside
  | succ distance inductionHypothesis =>
      unfold Store.ancestor? at isFound
      split at isFound
      · rename_i parent isParent
        exact inductionHypothesis
          (confined _ _ isInside (.parent isParent)) isFound
      · cases isFound

/-- What is read at a distance from a frame inside is inside. -/
theorem lookupAt
    {distance : Nat}
    {name : String}
    (isInside : inside (.frame frame))
    (isFound : store.lookupAt? frame distance name = some value) :
    value.Within inside := by
  unfold Store.lookupAt? at isFound
  split at isFound
  · rename_i found isHolder
    exact fun place shows =>
      confined _ _ (confined.ancestor isInside isHolder) (.held isFound shows)
  · cases isFound

/-- A frame that has a name at a distance from a frame inside is inside. -/
theorem holderAt
    {distance : Nat}
    {name : String}
    (isInside : inside (.frame frame))
    (isFound : store.holderAt? frame distance name = some holder) :
    inside (.frame holder) := by
  unfold Store.holderAt? at isFound
  split at isFound
  · rename_i found isHolder
    split at isFound
    · cases isFound
      exact confined.ancestor isInside isHolder
    · cases isFound
  · cases isFound

/-- A name gets a value that is inside. -/
theorem define
    (isWithin : value.Within inside)
    (frame : FrameId)
    (name : String) :
    (store.define frame name value).Confined inside := by
  intro place other isInside links
  cases links with
  | parent isParent =>
      rw [Store.parent?_define] at isParent
      exact confined _ _ isInside (.parent isParent)
  | held isFound shows =>
      rw [Store.lookup?_define] at isFound
      split at isFound
      · cases isFound
        exact isWithin _ shows
      · exact confined _ _ isInside (.held isFound shows)
  | field isFound shows => exact confined _ _ isInside (.field isFound shows)

/-- A new frame of which the parent and the values are inside. -/
theorem allocate
    {added : Frame}
    (parent : ∀ frame ∈ added.parent, inside (.frame frame))
    (contents : ∀ name value, added.bindings.find? name = some value →
      value.Within inside) :
    (store.allocate added).Confined inside := by
  intro place other isInside links
  cases links with
  | @parent frame _ isParent =>
      have present := Store.lt_nextFrame_of_parent? isParent
      rw [Store.nextFrame_allocate] at present
      rcases Nat.lt_succ_iff_lt_or_eq.mp present with earlier | rfl
      · rw [Store.parent?_allocate_of_lt earlier] at isParent
        exact confined _ _ isInside (.parent isParent)
      · rw [Store.parent?_allocate_nextFrame] at isParent
        exact parent _ isParent
  | @held frame _ _ _ isFound shows =>
      have present := Store.lt_nextFrame_of_lookup? isFound
      rw [Store.nextFrame_allocate] at present
      rcases Nat.lt_succ_iff_lt_or_eq.mp present with earlier | rfl
      · rw [Store.lookup?_allocate_of_lt earlier] at isFound
        exact confined _ _ isInside (.held isFound shows)
      · rw [Store.lookup?_allocate_nextFrame] at isFound
        exact contents _ _ isFound _ shows
  | field isFound shows => exact confined _ _ isInside (.field isFound shows)

/-- A new instance, without fields. -/
theorem allocateInstance :
    store.allocateInstance.Confined inside := by
  intro place other isInside links
  cases links with
  | parent isParent => exact confined _ _ isInside (.parent isParent)
  | held isFound shows => exact confined _ _ isInside (.held isFound shows)
  | field isFound shows =>
      exact confined _ _ isInside
        (.field (Store.field?_of_allocateInstance isFound) shows)

/-- An identity is handed out. -/
theorem skipIdentity :
    store.skipIdentity.Confined inside := by
  intro place other isInside links
  cases links with
  | parent isParent => exact confined _ _ isInside (.parent isParent)
  | held isFound shows => exact confined _ _ isInside (.held isFound shows)
  | field isFound shows => exact confined _ _ isInside (.field isFound shows)

/-- A field gets a value that is inside. -/
theorem setField
    (isWithin : value.Within inside)
    (object : InstanceId)
    (name : String) :
    (store.setField object name value).Confined inside := by
  intro place other isInside links
  cases links with
  | parent isParent => exact confined _ _ isInside (.parent isParent)
  | held isFound shows => exact confined _ _ isInside (.held isFound shows)
  | field isFound shows =>
      rcases Store.field?_of_setField isFound with same | earlier
      · exact isWithin _ (same ▸ shows)
      · exact confined _ _ isInside (.field earlier shows)

end Store.Confined

/-- What a method of a class shows, the class shows. -/
theorem Class.Shows.found
    {blueprint : Class}
    {name : String}
    {method : Function}
    (isFound : blueprint.findMethod? name = some method)
    (shows : method.Shows place) :
    blueprint.Shows place := by
  fun_induction Class.findMethod? name blueprint with
  | case1 => exact .method isFound shows
  | case2 _ _ _ _ _ own =>
      cases isFound
      exact .method own shows
  | case3 _ _ _ _ _ inductionHypothesis =>
      exact .superclass rfl (inductionHypothesis isFound)

end Confined

/-- What is not inside is in the later store as it is in the earlier one. -/
structure Store.Leaves (inside : Place → Prop) (before after : Store) :
    Prop where
  frames : ∀ frame, ¬ inside (.frame frame) →
    after.frames[frame]? = before.frames[frame]?
  fields : ∀ object, ¬ inside (.object object) →
    after.fields[object]? = before.fields[object]?

section Regime

variable (initial : Machine)

/-- The store has grown from the initial one, and from what the initial machine
affords one gets nowhere else. -/
structure Machine.Stays (machine : Machine) : Prop where
  frames : initial.store.nextFrame ≤ machine.store.nextFrame
  instances : initial.store.nextInstance ≤ machine.store.nextInstance
  identities : initial.store.nextIdentity ≤ machine.store.nextIdentity
  confined : machine.store.Confined initial.Affords

/-- Code is executed in frames that the initial machine affords, and values show
nothing else. -/
def Machine.reaching : Regime where
  keeps before after := before.store.Leaves initial.Affords after.store
  intact machine := initial.Stays machine
  function _ called := ∀ place, called.Shows place → initial.Affords place
  method _ _ called := ∀ place, called.Shows place → initial.Affords place
  blueprint _ called := ∀ place, called.Shows place → initial.Affords place
  object _ held := ∀ place, (Value.object held).Shows place →
    initial.Affords place
  fresh _ identity := initial.store.nextIdentity ≤ identity
  hosts _ frame _ := initial.Affords (.frame frame)

variable {initial} {context : Context} {machine : Machine} {value : Value}
  {frame : FrameId}

/-- A value is as asked if it shows nothing but what the initial machine
affords. -/
theorem Machine.reaching_value_iff :
    initial.reaching.value machine value ↔ value.Within initial.Affords := by
  constructor
  · intro isValue place shows
    cases shows with
    | function shown => exact isValue place shown
    | blueprint shown => exact isValue place shown
    | object => exact isValue _ .object
    | classOf shown => exact isValue _ (.classOf shown)
  · intro within
    cases value with
    | function called => exact fun place shown => within place (.function shown)
    | blueprint called =>
        exact fun place shown => within place (.blueprint shown)
    | object held => exact within
    | _ => trivial

namespace Machine.Stays

variable (stays : initial.Stays machine)

include stays

/-- Nothing but the store counts. -/
theorem aside
    {after : Machine}
    (same : after.store = machine.store) :
    initial.Stays after := by
  obtain ⟨frames, instances, identities, confined⟩ := stays
  rw [← same] at frames instances identities confined
  exact ⟨frames, instances, identities, confined⟩

/-- What nothing is at yet was not there initially. -/
theorem affords_nextFrame :
    initial.Affords (.frame machine.store.nextFrame) :=
  .inr stays.frames

/-- A new frame that is afforded. -/
theorem allocate
    {added : Frame}
    (parent : ∀ frame ∈ added.parent, initial.Affords (.frame frame))
    (contents :
      ∀ name value, added.bindings.find? name = some value →
        value.Within initial.Affords) :
    initial.reaching.Moves machine
      { machine with store := machine.store.allocate added } where
  keeps := by
    refine ⟨fun frame outside => ?_, fun _ _ => rfl⟩
    have different : frame ≠ machine.store.frames.size :=
      fun same => outside (same ▸ stays.affords_nextFrame)
    simp only [Store.allocate, Array.getElem?_push, different, if_false]
  intact :=
    { frames := by
        rw [Store.nextFrame_allocate]
        exact Nat.le_succ_of_le stays.frames
      instances := stays.instances
      identities := stays.identities
      confined := stays.confined.allocate parent contents }

/-- A name of a frame that is afforded. -/
theorem define
    (affords : initial.Affords (.frame frame))
    (isWithin : value.Within initial.Affords)
    (name : String) :
    initial.reaching.Moves machine
      { machine with store := machine.store.define frame name value } where
  keeps := by
    refine ⟨fun other outside => ?_, fun _ _ => rfl⟩
    have different : frame ≠ other := fun same => outside (same ▸ affords)
    simp only [Store.define, Array.getElem?_modify, different, if_false]
  intact :=
    { frames := by
        rw [Store.nextFrame_define]
        exact stays.frames
      instances := stays.instances
      identities := stays.identities
      confined := stays.confined.define isWithin frame name }

/-- A field of an instance that is afforded. -/
theorem setField
    {object : InstanceId}
    (affords : initial.Affords (.object object))
    (isWithin : value.Within initial.Affords)
    (name : String) :
    initial.reaching.Moves machine
      { machine with store := machine.store.setField object name value } where
  keeps := by
    refine ⟨fun _ _ => rfl, fun other outside => ?_⟩
    have different : object ≠ other := fun same => outside (same ▸ affords)
    simp only [Store.setField, Array.getElem?_modify, different, if_false]
  intact :=
    { frames := stays.frames
      instances := by
        simpa only [Store.nextInstance, Store.setField,
          Array.size_modify] using stays.instances
      identities := stays.identities
      confined := stays.confined.setField isWithin object name }

/-- A new instance. -/
theorem allocateInstance :
    initial.reaching.Moves machine
      { machine with store := machine.store.allocateInstance } where
  keeps := by
    refine ⟨fun _ _ => rfl, fun object outside => ?_⟩
    have different : object ≠ machine.store.fields.size :=
      fun same => outside (.inr (same ▸ stays.instances))
    simp only [Store.allocateInstance, Array.getElem?_push, different, if_false]
  intact :=
    { frames := stays.frames
      instances := by
        simpa only [Store.nextInstance, Store.allocateInstance,
            Array.size_push] using
          Nat.le_succ_of_le stays.instances
      identities := stays.identities
      confined := stays.confined.allocateInstance }

/-- An identity is handed out. -/
theorem skipIdentity :
    initial.reaching.Moves machine
      { machine with store := machine.store.skipIdentity } :=
  ⟨⟨fun _ _ => rfl, fun _ _ => rfl⟩, stays.frames, stays.instances,
    Nat.le_succ_of_le stays.identities, stays.confined.skipIdentity⟩

/-- A method that is bound to an instance shows nothing else. -/
theorem bind
    {name : String}
    {method bound : Function}
    {object : Instance}
    {after : Machine}
    (isMethod : initial.reaching.method machine name method)
    (isObject : initial.reaching.object machine object)
    (binds : Run.bind method object machine = .ok bound after) :
    initial.reaching.Moves machine after ∧
      initial.reaching.function after bound := by
  have allocates : initial.reaching.Moves machine
      { machine with
        store := machine.store.allocate (.ofThis object method.closure) } := by
    refine stays.allocate ?_ ?_
    · rintro _ ⟨⟩
      exact isMethod _ .closure
    · exact fun name value isHeld => (Frame.held_single isHeld).2 ▸ isObject
  have skips := allocates.intact.skipIdentity
  cases binds
  refine ⟨⟨⟨allocates.keeps.frames, fun _ _ => rfl⟩, skips.intact⟩,
    fun place shows => ?_⟩
  cases shows with
  | itself => exact .inr stays.identities
  | closure => exact stays.affords_nextFrame

/-- The frame that the methods of a class see is afforded. -/
theorem methodFrame
    {parent : Option Class}
    {closure : FrameId}
    {framed : Machine}
    (affords : initial.Affords (.frame machine.active))
    (isParent : ∀ found ∈ parent, initial.reaching.blueprint machine found)
    (frames : Run.methodFrame parent machine = .ok closure framed) :
    initial.reaching.Moves machine framed ∧
      initial.Affords (.frame closure) := by
  cases parent with
  | none =>
      cases frames
      exact ⟨⟨⟨fun _ _ => rfl, fun _ _ => rfl⟩, stays⟩, affords⟩
  | some found =>
      cases frames
      refine ⟨stays.allocate ?_ ?_, stays.affords_nextFrame⟩
      · rintro _ ⟨⟩
        exact affords
      · exact fun name value isHeld =>
          (Frame.held_single isHeld).2 ▸ reaching_value_iff.mp
            (isParent found rfl)

end Machine.Stays

/-- A stage that is a task is one that the evaluator comes to. -/
def Stage.Reached (context : Context) (start : Task) (initial : Machine) :
    Stage → Prop
  | .task other machine => Reaches context start initial other machine
  | _ => True

/-- The laws hold, if natives yield nothing but what their arguments show. -/
theorem Machine.lawful_reaching
    {start : Task}
    (lends : context.LendsWithinReach start initial) :
    initial.reaching.Lawful context (Stage.Reached context start initial) where
  refl _ := ⟨fun _ _ => rfl, fun _ _ => rfl⟩
  trans earlier later :=
    ⟨fun frame outside => (later.frames frame outside).trans
      (earlier.frames frame outside),
      fun object outside =>
        (later.fields object outside).trans (earlier.fields object outside)⟩
  aside same _ _ := by
    show Store.Leaves _ _ _
    rw [same]
    exact ⟨fun _ _ => rfl, fun _ _ => rfl⟩
  intactAside same _ _ stays := stays.aside same
  laterFunction _ within := within
  laterMethod _ within := within
  laterBlueprint _ within := within
  laterObject _ within := within
  laterCode _ affords := affords
  laterFresh _ isFresh := isFresh
  covered affords _ := affords
  readLocal stays affords isFound :=
    Machine.reaching_value_iff.mpr (stays.confined.lookupAt affords isFound)
  readGlobal stays isFound :=
    Machine.reaching_value_iff.mpr fun place shows =>
      stays.confined _ _ (.inl (.inr .refl)) (.held isFound shows)
  readField stays within isFound :=
    Machine.reaching_value_iff.mpr fun place shows =>
      stays.confined _ _ (within _ .object) (.field isFound shows)
  readThis stays within isFound :=
    Machine.reaching_value_iff.mpr fun place shows =>
      stays.confined _ _ (within _ .closure) (.held isFound shows)
  classOf within place shows := within place (.classOf shows)
  methodOf within isFound place shows := within place (.found isFound shows)
  native reaches stays areValues performed := by
    refine Machine.reaching_value_iff.mpr fun place shows => ?_
    obtain ⟨argument, isArgument, shown, shows, links⟩ :=
      lends _ _ _ _ _ reaches performed place shows
    have within := Machine.reaching_value_iff.mp (areValues argument isArgument)
    exact stays.confined.reached (within shown shows) links
  define stays affords _ isValue :=
    stays.define affords (Machine.reaching_value_iff.mp isValue) _
  assign stays affords isValue isHolder := by
    refine stays.define ?_ (Machine.reaching_value_iff.mp isValue) _
    rcases isHolder with ⟨distance, isFound⟩ | ⟨rfl, -⟩
    · exact stays.confined.holderAt affords isFound
    · exact .inl (.inr .refl)
  setField stays within isValue :=
    stays.setField (within _ .object) (Machine.reaching_value_iff.mp isValue) _
  skipIdentity stays := ⟨stays.skipIdentity, stays.identities⟩
  allocateInstance stays within := by
    refine ⟨stays.allocateInstance, fun place shows => ?_⟩
    cases shows with
    | object => exact .inr stays.instances
    | classOf shows => exact within place shows
  block stays affords := by
    refine ⟨stays.allocate ?_ ?_, stays.affords_nextFrame⟩
    · rintro _ ⟨⟩
      exact affords
    · exact fun _ _ absent => by cases absent
  call stays within areValues := by
    refine ⟨stays.allocate ?_ ?_, stays.affords_nextFrame⟩
    · rintro _ ⟨⟩
      exact within _ .closure
    · exact fun name value isHeld =>
        Machine.reaching_value_iff.mp
          (areValues value (mem_of_find?_callFrame isHeld))
  bind stays isMethod isObject binds _ := stays.bind isMethod isObject binds
  closure _ affords identity isFresh place shows := by
    cases shows with
    | itself => exact .inr isFresh
    | closure => exact affords
  methods stays affords _ _ isParent moves frames _ := by
    obtain ⟨movesOn, isClosure⟩ :=
      moves.intact.methodFrame affords isParent frames
    refine ⟨movesOn, fun declaration _ _ _ identity isFresh place shows => ?_⟩
    cases shows with
    | itself => exact .inr isFresh
    | closure => exact isClosure
  assemble isFresh isParent isTable place shows := by
    cases shows with
    | itself => exact .inr isFresh
    | method isFound shows => exact isTable _ _ isFound place shows
    | superclass isSuper shows => exact isParent _ isSuper place shows
  rejected stays _ := ⟨⟨fun _ _ => rfl, fun _ _ => rfl⟩, stays.aside rfl⟩
  loaded stays _ :=
    ⟨⟨⟨fun _ _ => rfl, fun _ _ => rfl⟩, stays.aside rfl⟩, .inl (.inr .refl)⟩

/-- Initially, from what is afforded one gets nowhere else. -/
theorem Machine.stays_initial (initial : Machine) :
    initial.Stays initial where
  frames := Nat.le_refl _
  instances := Nat.le_refl _
  identities := Nat.le_refl _
  confined := by
    rintro place other (inReach | lacks) links
    · exact .inl (inReach.imp (.tail · links) (.tail · links))
    · -- Where nothing is yet, one gets nowhere.
      cases links with
      | parent isParent =>
          exact absurd (Store.lt_nextFrame_of_parent? isParent)
            (Nat.not_lt.mpr lacks)
      | held isFound _ =>
          exact absurd (Store.lt_nextFrame_of_lookup? isFound)
            (Nat.not_lt.mpr lacks)
      | field isFound _ =>
          exact absurd (Store.lt_nextInstance_of_field? isFound)
            (Nat.not_lt.mpr lacks)

/-- Frames and instances that are not afforded were there and are out of
reach. -/
theorem Store.Leaves.spares
    {after : Machine}
    (leaves : machine.store.Leaves machine.Affords after.store) :
    machine.Spares after where
  frames frame there outside :=
    leaves.frames frame fun affords =>
      affords.elim outside fun lacks => Nat.not_lt.mpr lacks there
  fields object there outside :=
    leaves.fields object fun affords =>
      affords.elim outside fun lacks => Nat.not_lt.mpr lacks there

/-- **Writes stay within reach.**  Whatever an expression or a statement does
and however it ends, frames and instances that could not be got to from the
active frame or the globals are as they were, and from what it yields one gets
to nothing else that was there. -/
theorem writes_stay_within_reach
    (context : Context)
    (steps : Nat)
    (machine : Machine) :
    (∀ expr, context.LendsWithinReach (.eval expr) machine →
      Leads (eval context steps expr) machine
        (fun value after =>
          machine.Spares after ∧
            ∀ place, value.Reaches after.store place → machine.Affords place)
        (fun _ after => machine.Spares after)) ∧
    (∀ statement, context.LendsWithinReach (.exec statement) machine →
      Leads (exec context steps statement) machine
        (fun flow after =>
          machine.Spares after ∧
            ∀ value place, flow = .returned value →
              value.Reaches after.store place →
              machine.Affords place)
        (fun _ after => machine.Spares after)) := by
  have reached {value : Value} {after : Machine} {place : Place}
      (stays : machine.Stays after)
      (isValue : machine.reaching.value after value)
      (reaches : value.Reaches after.store place) : machine.Affords place := by
    obtain ⟨shown, shows, links⟩ := reaches
    exact stays.confined.reached
      (Machine.reaching_value_iff.mp isValue shown shows) links
  have obeys (task : Task) (lends : context.LendsWithinReach task machine)
      (admits : machine.reaching.admits machine task) :=
    (Machine.lawful_reaching lends).rules steps task machine
      ⟨machine.stays_initial, admits, fun stage member => by
        cases stage with
        | task other after => exact Task.reaches_of_mem_stages .here member
        | _ => trivial⟩
  constructor
  · intro expr lends
    refine Leads.weaken (obeys (.eval expr) lends (.inl (.inl .refl))) ?_ ?_
    · exact fun value after ⟨passes, isValue⟩ =>
        ⟨passes.moves.keeps.spares, fun place =>
          reached passes.moves.intact isValue⟩
    · exact fun _ after passes => passes.moves.keeps.spares
  · intro statement lends
    refine Leads.weaken
      (obeys (.exec statement) lends (.inl (.inl .refl))) ?_ ?_
    · rintro flow after ⟨passes, isFlow⟩
      refine ⟨passes.moves.keeps.spares, ?_⟩
      rintro value place rfl reaches
      exact reached passes.moves.intact isFlow reaches
    · exact fun _ after passes => passes.moves.keeps.spares

end Regime

/-- A native that yields its argument. -/
def echo : HostNative where
  name := "echo"
  arity := 1
  body arguments world := (.ok (arguments.headD .nil), world)

/-- The globals are `a` and the native. -/
def echoGlobals : NameMap Value :=
  (NameMap.empty.insert "a" .nil).insert "echo" (.native (echo.value 0))

/-- A machine with the native as a global, and with a frame and an instance out
of reach. -/
def stowed : Machine :=
  { Machine.initial {} { clock := 0, entropy := fun _ => 0 } with
    store :=
      { frames :=
          #[⟨echoGlobals, none⟩,
            ⟨NameMap.empty.insert "a" (.boolean true), some globalFrame⟩]
        fields := #[NameMap.empty.insert "a" (.boolean true)]
        nextIdentity := 0 } }

/-- The statement that assigns what the native yields to the global `a`. -/
def storesEcho : Stmt :=
  .expression (.assign 1 ⟨.identifier "a", "a", 1⟩
    (.call (.reference 0 ⟨.identifier "echo", "echo", 1⟩)
      ⟨.symbol .rightParen, ")", 1⟩ [.literal (.boolean true)]))

/-- From the globals one gets nowhere else. -/
theorem stowed_confined : stowed.store.Confined (· = .frame globalFrame) := by
  rintro _ other rfl links
  cases links with
  | parent isParent => cases isParent
  | held isFound shows =>
      change echoGlobals.find? _ = some _ at isFound
      rw [echoGlobals, NameMap.find?_insert, NameMap.find?_insert] at isFound
      split at isFound
      · cases isFound
        cases shows
      · split at isFound
        · cases isFound
          cases shows
        · cases isFound

/-- A native is called and a global is written, and what is out of reach stays
as it is. -/
theorem writes_stay_within_reach_of_echo :
    (∃ after,
      exec ⟨[echo], Library.nowhere⟩ 9 storesEcho stowed = .ok .normal after ∧
        after.store.lookup? globalFrame "a" = some (.boolean true) ∧
        after.store.frames[1]? = stowed.store.frames[1]? ∧
        after.store.fields[0]? = stowed.store.fields[0]?) := by
  have lends : Context.LendsWithinReach ⟨[echo], Library.nowhere⟩
      (.exec storesEcho) stowed := by
    intro native arguments machine value world _ performed place shows
    cases slot : native.slot with
    | zero =>
        rw [slot] at performed
        cases arguments with
        | nil =>
            cases performed
            cases shows
        | cons first rest =>
            cases performed
            exact ⟨first, List.mem_cons_self, place, shows, .refl⟩
    | succ further =>
        rw [slot] at performed
        cases performed
  have outside {place : Place} (inReach : stowed.InReach place) :
      place = .frame globalFrame :=
    inReach.elim (stowed_confined.reached rfl) (stowed_confined.reached rfl)
  have yields : ∃ after, exec ⟨[echo], Library.nowhere⟩ 9 storesEcho stowed =
      .ok .normal after ∧
      after.store.lookup? globalFrame "a" = some (.boolean true) :=
        ⟨_, rfl, rfl⟩
  obtain ⟨after, yields, isWritten⟩ := yields
  obtain ⟨spares, -⟩ :=
    ((writes_stay_within_reach ⟨[echo], Library.nowhere⟩ 9 stowed).2 storesEcho
      lends).ok yields
  refine ⟨after, yields, isWritten, spares.frames 1 (by decide) ?_,
    spares.fields 0 (by decide) ?_⟩
  · exact fun inReach => by cases outside inReach
  · exact fun inReach => by cases outside inReach

end LoxScript
