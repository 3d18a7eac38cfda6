import LoxScript.Proofs.Machine.Deeds
import LoxScript.Proofs.Machine.WithinReach
import LoxScript.Proofs.Seclusion.State

namespace LoxScript

/-!
# What values show is there

Frames, instances, functions and classes are numbered in the order in which they
are made.  Whatever a value shows has been made before: its number is below the
next one.  So what is made next is none of the things that values show.
-/

open Run

/-- All that the value shows is there. -/
def Value.Present (store : Store) (value : Value) : Prop :=
  ∀ place, value.Shows place → ¬ store.Lacks place

/-- All that the machine holds is there, and so is what natives may give it. -/
structure Machine.Furnished (natives : List HostNative) (machine : Machine) :
    Prop where
  rooted : globalFrame < machine.store.nextFrame
  holds : machine.store.Holds (Value.Present machine.store)
  natives :
    ∀ native ∈ natives, ∀ arguments world value after,
      native.body arguments world = (.ok value, after) →
        value.IsAtom ∨ value ∈ arguments ∨ value.Present machine.store

/-- Nothing that is there goes away, and values show nothing else. -/
def Machine.furnishing (natives : List HostNative) : Regime where
  keeps before after := before.store.Retains after.store
  intact := Machine.Furnished natives
  function machine called := (Value.function called).Present machine.store
  method machine _ called := (Value.function called).Present machine.store
  blueprint machine called := (Value.blueprint called).Present machine.store
  object machine held := (Value.object held).Present machine.store
  fresh machine identity := identity < machine.store.nextIdentity
  hosts machine frame _ := frame < machine.store.nextFrame

variable {natives : List HostNative} {before after machine : Machine}
  {store : Store}
variable {frame : FrameId} {value : Value} {place : Place}

/-- What is there is so later. -/
theorem Store.Retains.lacks
    {later : Store}
    (retains : store.Retains later)
    (lacks : later.Lacks place) :
    store.Lacks place := by
  cases place with
  | frame frame => exact Nat.le_trans retains.frames lacks
  | object object => exact Nat.le_trans retains.instances lacks
  | function identity => exact Nat.le_trans retains.identities lacks
  | blueprint identity => exact Nat.le_trans retains.identities lacks

namespace Value.Present

/-- All that a value shows stays there. -/
theorem later
    {later : Store}
    (present : value.Present store)
    (retains : store.Retains later) :
    value.Present later :=
  fun place shows lacks => present place shows (retains.lacks lacks)

/-- A function is there with the frame that it sees. -/
theorem function
    {called : Function}
    (made : called.identity < store.nextIdentity)
    (sees : called.closure < store.nextFrame) :
    (Value.function called).Present store := by
  rintro place (shows | _ | _ | _)
  cases shows with
  | itself => exact Nat.not_le.mpr made
  | closure => exact Nat.not_le.mpr sees

/-- A method of a class that is there. -/
theorem method
    {blueprint : Class}
    {name : String}
    {called : Function}
    (present : (Value.blueprint blueprint).Present store)
    (isFound : blueprint.findMethod? name = some called) :
    (Value.function called).Present store := by
  rintro place (shows | _ | _ | _)
  exact present place (.blueprint (.found isFound shows))

/-- A class is there if its methods and its superclass are. -/
theorem blueprint
    {identity : Nat}
    {name : String}
    {parent : Option Class}
    {table : NameMap Function}
    (made : identity < store.nextIdentity)
    (isParent : ∀ found ∈ parent, (Value.blueprint found).Present store)
    (areMethods :
      ∀ wanted method, table.find? wanted = some method →
        (Value.function method).Present store) :
    (Value.blueprint ⟨identity, name, parent, table⟩).Present store := by
  rintro place (_ | shows | _ | _)
  cases shows with
  | itself => exact Nat.not_le.mpr made
  | method isFound shows => exact areMethods _ _ isFound place (.function shows)
  | superclass isSuper shows =>
      exact isParent _ isSuper place (.blueprint shows)

/-- An instance is there if its class is. -/
theorem object
    {held : Instance}
    (made : held.identity < store.nextInstance)
    (isClass : (Value.blueprint held.blueprint).Present store) :
    (Value.object held).Present store := by
  rintro place (_ | _ | _ | shows)
  · exact Nat.not_le.mpr made
  · exact isClass place (.blueprint shows)

/-- A value that refers to nothing shows nothing. -/
theorem ofAtom
    (isAtom : value.IsAtom) :
    value.Present store := by
  intro place shows
  cases shows <;> cases isAtom

end Value.Present

/-- A new frame is there. -/
theorem Store.nextFrame_lt_allocate
    (store : Store)
    (added : Frame) :
    store.nextFrame < (store.allocate added).nextFrame := by
  rw [Store.nextFrame_allocate]
  exact Nat.lt_succ_self _

/-- The regime asks of values what is asked here. -/
theorem Machine.furnishing_value_iff :
    (Machine.furnishing natives).value machine value ↔
      value.Present machine.store := by
  cases value with
  | function _ | blueprint _ | object _ => exact Iff.rfl
  | _ => exact ⟨fun _ => .ofAtom trivial, fun _ => trivial⟩

namespace Machine.Furnished

variable (furnished : machine.Furnished natives)

include furnished

/-- Nothing else gets into the machine. -/
theorem grow
    (retains : machine.store.Retains after.store)
    (holds : after.store.Holds (Value.Present machine.store)) :
    (Machine.furnishing natives).Moves machine after where
  keeps := retains
  intact :=
    { rooted := Nat.lt_of_lt_of_le furnished.rooted retains.frames
      holds := holds.weaken fun _ present => present.later retains
      natives := fun native member arguments world value next yields =>
        (furnished.natives native member arguments world value
          next yields).imp_right
          fun known => known.imp_right fun present => present.later retains }

/-- Nothing but the store counts. -/
theorem aside
    (same : after.store = machine.store) :
    (Machine.furnishing natives).Moves machine after := by
  refine furnished.grow ?_ ?_
  · rw [same]
    exact .refl _
  · rw [same]
    exact furnished.holds

/-- A new frame with values that are there. -/
theorem allocate
    {added : Frame}
    (contents :
      ∀ name value, added.bindings.find? name = some value →
        value.Present machine.store) :
    (Machine.furnishing natives).Moves machine
      { machine with store := machine.store.allocate added } :=
  furnished.grow (Store.Still.allocate machine.store added).retains
    (furnished.holds.allocate contents)

/-- A name gets a value that is there. -/
theorem define
    (present : value.Present machine.store)
    (frame : FrameId)
    (name : String) :
    (Machine.furnishing natives).Moves machine
      { machine with store := machine.store.define frame name value } :=
  furnished.grow (Store.Gains.retains (.define machine.store frame name value))
    (furnished.holds.define present frame name)

/-- An identity is handed out. -/
theorem skipIdentity :
    (Machine.furnishing natives).Moves machine
      { machine with store := machine.store.skipIdentity } :=
  furnished.grow ⟨Nat.le_refl _, Nat.le_refl _, Nat.le_succ _⟩
    ⟨furnished.holds.values, furnished.holds.fields⟩

/-- What natives may yield is there. -/
theorem ofNative
    {slot : Nat}
    {arguments : List Value}
    {world next : World}
    (arePresent : ∀ argument ∈ arguments, argument.Present machine.store)
    (performed :
      performNative natives slot arguments world = (.ok value, next)) :
    value.Present machine.store := by
  obtain ⟨native, member, body⟩ := performNative_eq_ok performed
  rcases furnished.natives native member _ _ _ _ body with
    isAtom | passed | present
  · exact .ofAtom isAtom
  · exact arePresent value passed
  · exact present

/-- A method that is bound to an instance is there. -/
theorem bind
    {method bound : Function}
    {object : Instance}
    (isObject : (Value.object object).Present machine.store)
    (binds : Run.bind method object machine = .ok bound after) :
    (Machine.furnishing natives).Moves machine after ∧
      (Value.function bound).Present after.store := by
  have allocates : (Machine.furnishing natives).Moves machine
      { machine with
        store := machine.store.allocate (.ofThis object method.closure) } :=
    furnished.allocate fun _ _ isHeld => (Frame.held_single isHeld).2 ▸ isObject
  have skips := allocates.intact.skipIdentity
  cases binds
  exact ⟨⟨allocates.keeps.trans skips.keeps, skips.intact⟩,
    .function (Nat.lt_succ_self _) (Store.nextFrame_lt_allocate _ _)⟩

/-- The frame that the methods of a class see is there. -/
theorem methodFrame
    {parent : Option Class}
    {closure : FrameId}
    {framed : Machine}
    (isActive : machine.active < machine.store.nextFrame)
    (isParent : ∀ found ∈ parent, (Value.blueprint found).Present machine.store)
    (frames : Run.methodFrame parent machine = .ok closure framed) :
    (Machine.furnishing natives).Moves machine framed ∧
      closure < framed.store.nextFrame := by
  cases parent with
  | none =>
      cases frames
      exact ⟨furnished.aside rfl, isActive⟩
  | some found =>
      cases frames
      refine ⟨furnished.allocate fun name value isHeld => ?_,
        Store.nextFrame_lt_allocate _ _⟩
      exact (Frame.held_single isHeld).2 ▸ isParent found rfl

end Machine.Furnished

/-- The laws hold, whatever stages are passed. -/
theorem Machine.lawful_furnishing
    (context : Context) :
    (Machine.furnishing context.natives).Lawful context fun _ => True where
  refl machine := .refl machine.store
  trans retains retainsThen := retains.trans retainsThen
  aside same _ _ := by
    show Store.Retains _ _
    rw [same]
    exact .refl _
  intactAside same _ _ furnished := (furnished.aside same).intact
  laterFunction retains present := present.later retains
  laterMethod retains present := present.later retains
  laterBlueprint retains present := present.later retains
  laterObject retains present := present.later retains
  laterCode retains isThere := Nat.lt_of_lt_of_le isThere retains.frames
  laterFresh retains isFresh := Nat.lt_of_lt_of_le isFresh retains.identities
  covered isThere _ := isThere
  readLocal furnished _ isFound := by
    unfold Store.lookupAt? at isFound
    split at isFound
    · exact Machine.furnishing_value_iff.mpr
        (furnished.holds.values _ _ _ isFound)
    · cases isFound
  readGlobal furnished isFound :=
    Machine.furnishing_value_iff.mpr (furnished.holds.values _ _ _ isFound)
  readField furnished _ isFound :=
    Machine.furnishing_value_iff.mpr (furnished.holds.fields _ _ _ isFound)
  readThis furnished _ isFound :=
    Machine.furnishing_value_iff.mpr (furnished.holds.values _ _ _ isFound)
  classOf present := by
    rintro place (_ | shows | _ | _)
    exact present place (.classOf shows)
  methodOf present isFound := present.method isFound
  native _ furnished areValues performed :=
    Machine.furnishing_value_iff.mpr (furnished.ofNative
      (fun argument member => Machine.furnishing_value_iff.mp
        (areValues argument member))
      performed)
  define furnished _ _ isValue :=
    furnished.define (Machine.furnishing_value_iff.mp isValue) _ _
  assign furnished _ isValue _ :=
    furnished.define (Machine.furnishing_value_iff.mp isValue) _ _
  setField furnished _ isValue :=
    furnished.grow (.setField _ _ _ _)
      (furnished.holds.setField (Machine.furnishing_value_iff.mp isValue) _ _)
  skipIdentity furnished := ⟨furnished.skipIdentity, Nat.lt_succ_self _⟩
  allocateInstance := fun {machine _} furnished isClass => by
    have retains := (Store.Still.allocateInstance machine.store).retains
    refine ⟨furnished.grow retains furnished.holds.allocateInstance,
      .object ?_ (isClass.later retains)⟩
    simp [Store.nextInstance, Store.allocateInstance]
  block furnished _ := by
    refine ⟨furnished.allocate ?_, Store.nextFrame_lt_allocate _ _⟩
    exact fun _ _ absent => by cases absent
  call furnished _ areValues := by
    refine ⟨furnished.allocate ?_, Store.nextFrame_lt_allocate _ _⟩
    exact fun name value isHeld =>
      Machine.furnishing_value_iff.mp
        (areValues value (mem_of_find?_callFrame isHeld))
  bind furnished _ isObject binds _ := furnished.bind isObject binds
  closure _ isActive identity isFresh := .function isFresh isActive
  methods furnished isActive _ _ isParent moves frames _ := by
    have isParentThen := fun found member =>
      (isParent found member).later moves.keeps
    obtain ⟨movesOn, isClosure⟩ := moves.intact.methodFrame
      (Nat.lt_of_lt_of_le isActive moves.keeps.frames) isParentThen frames
    exact ⟨movesOn, fun declaration _ _ retains identity isFresh =>
      .function isFresh (Nat.lt_of_lt_of_le isClosure retains.frames)⟩
  assemble isFresh isParent areMethods := .blueprint isFresh isParent areMethods
  rejected furnished _ := furnished.aside rfl
  loaded furnished _ := ⟨furnished.aside rfl, furnished.rooted⟩

/-- What a regime asks of a deed: the machine is intact, and the values at hand
are as asked. -/
def Regime.permits (regime : Regime) : Deed → Prop
  | .task _ machine => regime.intact machine
  | .included _ machine => regime.intact machine
  | .set held _ value machine =>
      regime.intact machine ∧ regime.object machine held ∧
        regime.value machine value
  | .declared _ _ machine => regime.intact machine
  | .yielded _ value machine =>
      regime.intact machine ∧ regime.value machine value
  | .merged _ machine => regime.intact machine

section Permits

variable {regime : Regime} {context : Context} {allowed : Stage → Prop}
  {steps : Nat} {task : Task}
variable {deed : Deed} {machine : Machine}

/-- What a task does itself is as its regime asks. -/
theorem Task.Does.permitted
    (does : task.Does context steps machine deed)
    (lawful : regime.Lawful context allowed)
    (starts : regime.Starts context allowed (steps + 1) task machine) :
    regime.permits deed := by
  have rules := lawful.rules steps
  have seats {expr : Expr}
      (admits : regime.hosts machine machine.active (.expr expr)) :
      regime.Seats machine (.expr expr) := ⟨starts.intact, admits⟩
  cases does with
  | comes => exact starts.intact
  | includes loads =>
      exact (Leads.ok (obeys_loadRequired lawful starts.intact _ _)
        loads).1.moves.intact
  | sets holds evaluates =>
      obtain ⟨seatsThen, -, isObject⟩ :=
        (seats starts.admits).afterEval lawful rules
        (.included .holder) (starts.allows .holder) holds
      obtain ⟨seatsLast, moves, isValue⟩ := seatsThen.afterEval lawful rules
        (.included .stored) (starts.allows (.stored holds)) evaluates
      exact ⟨seatsLast.intact, lawful.laterObject moves.keeps isObject, isValue⟩
  | yields evaluates =>
      obtain ⟨passes, isValue⟩ :=
        Leads.ok (lawful.rules (steps + 1) _ _ starts) evaluates
      exact ⟨passes.moves.intact, isValue⟩
  | declares _ executes =>
      obtain ⟨passes, -⟩ :=
        Leads.ok (lawful.rules (steps + 1) _ _ starts) executes
      exact passes.moves.intact

/-- All that is done while a task is done is as the regime asks that allows the
task. -/
theorem Regime.Starts.permits
    (starts : regime.Starts context allowed steps task machine)
    (lawful : regime.Lawful context allowed)
    (member : deed ∈ task.deeds context steps machine) :
    regime.permits deed := by
  induction steps generalizing task machine with
  | zero =>
      cases List.mem_singleton.mp member
      exact starts.intact
  | succ steps inductionHypothesis =>
      rcases Task.mem_deeds_succ_iff.mp member with
        does | ⟨other, after, calls, inner⟩
      · exact does.permitted lawful starts
      · exact inductionHypothesis
          (calls.starts lawful (lawful.rules steps) starts) inner

end Permits

end LoxScript
