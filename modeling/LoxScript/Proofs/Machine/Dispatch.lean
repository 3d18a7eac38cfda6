import LoxScript.Proofs.Machine.Lineage
import LoxScript.Proofs.Machine.Nodes

namespace LoxScript

/-!
# What `this` and `super` mean

In a call of a bound method, `this` is the instance that the method was bound
to, and `super` looks for methods in the superclass that the method's class had
when it was declared.
-/

open Run

/-- The part stands so many scopes deep in the function, with no class in
between, and is executed in a call of it: as many frames up is the frame that
the function sees. -/
structure Function.Encloses
    (bound : Function)
    (machine : Machine)
    (part : Part)
    (depth : Nat) : Prop where
  inside : (Part.function bound.declaration).Inside part depth
  frame : machine.store.ancestor? machine.active depth = some bound.closure

/-- The class is the one that the declaration makes when it is executed in the
machine: it has the superclass that the name stands for then, and its own
methods see the frame that is added. -/
structure Class.ComesFrom
    (blueprint : Class)
    (name : Token)
    (named : SuperclassRef)
    (methods : List FunctionDecl)
    (superclass : Class)
    (declaring : Machine) : Prop where
  reads : readVariable named.id named.name declaring =
    .ok (.blueprint superclass) declaring
  declares :
    ∃ declared, declareClass name (some named) methods declaring =
      .ok () declared ∧
      declared.store.lookup? declaring.active name.lexeme =
        some (.blueprint blueprint)
  parent : blueprint.superclass = some superclass
  own :
    ∀ wanted method, blueprint.methods.find? wanted = some method →
      method.declaration ∈ methods ∧ method.closure = declaring.store.nextFrame

/-- What `super` yields for a method: the method of the superclass, bound to the
instance anew. -/
def Class.readFor (superclass : Class) (object : Instance) (wanted : Token) :
    Run Value :=
  match superclass.findMethod? wanted.lexeme with
  | some found => Value.function <$> bind found object
  | none => fail (.undefinedProperty wanted.lexeme wanted.line)

/-- Frames for `this` are equal only if the instances and the parents are. -/
theorem Frame.ofThis_inj
    {object other : Instance}
    {parent otherParent : FrameId}
    (same : Frame.ofThis object parent = .ofThis other otherParent) :
    object = other ∧ parent = otherParent := by
  have held := congrArg (fun frame => frame.bindings.find? "this") same
  have above := congrArg Frame.parent same
  cases held
  cases above
  exact ⟨rfl, rfl⟩

/-- Frames for `super` are equal only if the superclasses are. -/
theorem Frame.ofSuper_inj
    {superclass other : Class}
    {parent otherParent : FrameId}
    (same : Frame.ofSuper superclass parent = .ofSuper other otherParent) :
    superclass = other := by
  have held := congrArg (fun frame => frame.bindings.find? "super") same
  cases held
  rfl

variable {noted : Stage → Prop} {machine : Machine} {method bound : Function}
  {wanted : String}
variable {object : Instance} {before after : Machine} {id : NodeId}
  {keyword property : Token}
variable {depth : Nat}

namespace Function.IsMethod

variable (isMethod : method.IsMethod noted machine wanted)

include isMethod

/-- In a method, `this` has the distance of the method's own frame. -/
theorem distance_this
    (inside : (Part.function method.declaration).Inside
      (.expr (.thisRef id keyword)) depth) :
    keyword.lexeme = "this" ∧ machine.distances[id]? = some depth := by
  obtain ⟨-, name, superclass, methods, declaring, madeBy⟩ := isMethod
  obtain ⟨program, around, knows, visits⟩ := madeBy.visits
  obtain ⟨first, next, compiled, table⟩ := knows.compiled
  obtain ⟨⟨above, below⟩, spelled, distance⟩ :=
    compiled.distance_this visits madeBy.member inside
  exact ⟨spelled, (table id above below).trans distance⟩

/-- In a method, `super` has the distance of the frame above, and the class has
a superclass. -/
theorem distance_super
    (inside :
      (Part.function method.declaration).Inside
        (.expr (.superRef id keyword property)) depth) :
    machine.distances[id]? = some (depth + 1) ∧
      ∃ name named methods declaring,
        method.MadeBy noted name (some named) methods declaring machine := by
  obtain ⟨-, name, superclass, methods, declaring, madeBy⟩ := isMethod
  obtain ⟨program, around, knows, visits⟩ := madeBy.visits
  obtain ⟨first, next, compiled, table⟩ := knows.compiled
  obtain ⟨⟨above, below⟩, ⟨named, rfl⟩, distance⟩ :=
    compiled.distance_super visits madeBy.member inside
  exact ⟨(table id above below).trans distance, name, named, methods, declaring,
    madeBy⟩

end Function.IsMethod

namespace Machine.Houses

/-- Where `this` is used, a method was bound to an instance, and its call
encloses the use. -/
theorem binds_of_this
    (houses :
      machine.Houses noted machine.active (.expr (.thisRef id keyword))) :
    ∃ wanted method object bound before after depth,
      machine.Binds noted wanted method object bound before after ∧
        bound.Encloses machine (.expr (.thisRef id keyword)) depth := by
  cases houses with
  | outside knows inside =>
      obtain ⟨first, next, compiled, -⟩ := knows.compiled
      exact absurd inside compiled.this_not_outside
  | inside binds inside isSeat =>
      exact ⟨_, _, _, _, _, _, _, binds, inside, isSeat⟩

/-- So it is where `super` is used. -/
theorem binds_of_super
    (houses : machine.Houses noted machine.active
      (.expr (.superRef id keyword property))) :
    ∃ wanted method object bound before after depth,
      machine.Binds noted wanted method object bound before after ∧
        bound.Encloses machine (.expr (.superRef id keyword property))
          depth := by
  cases houses with
  | outside knows inside =>
      obtain ⟨first, next, compiled, -⟩ := knows.compiled
      exact absurd inside compiled.super_not_outside
  | inside binds inside isSeat =>
      exact ⟨_, _, _, _, _, _, _, binds, inside, isSeat⟩

end Machine.Houses

namespace Machine.Binds

variable (binds : machine.Binds noted wanted method object bound before after)

include binds

/-- In the call of a bound method, the instance is found as many frames up as
the part is deep. -/
theorem lookupAt?_this
    {part : Part}
    (encloses : bound.Encloses machine part depth) :
    machine.store.lookupAt? machine.active depth "this" =
      some (.object object) := by
  rw [Store.lookupAt?_eq encloses.frame, Store.lookup?_eq binds.frame]
  rfl

/-- The superclass is found one frame further up. -/
theorem lookupAt?_super
    {part : Part}
    {superclass : Class}
    {parent : FrameId}
    (encloses : bound.Encloses machine part depth)
    (isSuper : machine.store.frames[method.closure]? =
      some (.ofSuper superclass parent)) :
    machine.store.lookupAt? machine.active (depth + 1) "super" =
      some (.blueprint superclass) := by
  have above : machine.store.ancestor? machine.active (depth + 1) =
      some method.closure := by
    rw [Store.ancestor?_add, encloses.frame]
    simp only [Option.bind_some, Store.ancestor?, Store.parent?_eq binds.frame,
      Frame.ofThis]
  rw [Store.lookupAt?_eq above, Store.lookup?_eq isSuper]
  rfl

/-- In the call of a bound method, `this` is the instance. -/
theorem readVariable_this
    (encloses : bound.Encloses machine (.expr (.thisRef id keyword)) depth) :
    readVariable id keyword machine = .ok (.object object) machine := by
  have inside := encloses.inside
  rw [binds.declaration] at inside
  obtain ⟨spelled, distance⟩ := binds.isMethod.distance_this inside
  rw [readVariable, bind_get]
  simp only [distance, spelled, binds.lookupAt?_this encloses]
  rfl

/-- A method that uses `super` sees a superclass. -/
theorem sees
    (encloses :
      bound.Encloses machine (.expr (.superRef id keyword property)) depth) :
    ∃ superclass parent,
      machine.store.frames[method.closure]? =
        some (.ofSuper superclass parent) := by
  have inside := encloses.inside
  rw [binds.declaration] at inside
  obtain ⟨-, name, named, methods, declaring, madeBy⟩ :=
    binds.isMethod.distance_super inside
  obtain ⟨superclass, framed, -, -, isFrame⟩ := madeBy.inherits named rfl
  exact ⟨superclass, declaring.active, isFrame⟩

/-- In the call of a bound method, `super` looks in the superclass that the
method sees. -/
theorem readSuper_eq
    {superclass : Class}
    {parent : FrameId}
    (encloses :
      bound.Encloses machine (.expr (.superRef id keyword property)) depth)
    (isSuper : machine.store.frames[method.closure]? =
      some (.ofSuper superclass parent)) :
    readSuper id keyword property machine =
      superclass.readFor object property machine := by
  have inside := encloses.inside
  rw [binds.declaration] at inside
  obtain ⟨distance, -⟩ := binds.isMethod.distance_super inside
  have parts : superParts id keyword machine =
      .ok (superclass, object) machine := by
    rw [superParts, bind_get]
    simp only [distance, binds.lookupAt?_super encloses isSuper,
      binds.lookupAt?_this encloses]
    rfl
  rw [readSuper, bind_of_ok parts]
  simp only [Class.readFor]
  cases superclass.findMethod? property.lexeme <;> rfl

end Machine.Binds

/-- Once its superclass is found, a class declaration makes a class. -/
theorem Class.comesFrom_of_readVariable
    {named : SuperclassRef}
    {superclass : Class}
    (present : machine.active < machine.store.nextFrame)
    (reads : readVariable named.id named.name machine =
      .ok (.blueprint superclass) machine)
    (name : Token)
    (methods : List FunctionDecl) :
    ∃ blueprint,
      Class.ComesFrom blueprint name named methods superclass machine := by
  have finds : findSuperclass name (some named) machine =
      .ok (some superclass) machine :=
    map_of_ok some (bind_of_ok reads)
  have place : (machine.defining name .nil).store.nextFrame =
      machine.store.nextFrame :=
    Store.nextFrame_define ..
  obtain ⟨table, after, closes, active, frames, own⟩ :=
    closeOverMethods_eq_ok (machine.defining name .nil).store.nextFrame
      NameMap.empty methods { machine.defining name .nil with
        store :=
          (machine.defining name .nil).store.allocate
            (.ofSuper superclass machine.active) }
  let blueprint : Class :=
    ⟨after.store.nextIdentity, name.lexeme, some superclass, table⟩
  let last : Machine := { after with store := after.store.skipIdentity }
  refine ⟨blueprint, reads, ⟨last.defining name (.blueprint blueprint), ?_, ?_⟩,
    rfl, ?_⟩
  · rw [declareClass_eq, bind_of_ok finds]
    exact bind_of_ok closes
  · have there : after.active = machine.active := active
    have isThere : machine.active < last.store.frames.size := by
      show machine.active < after.store.frames.size
      rw [frames]
      show machine.active <
        ((machine.defining name .nil).store.allocate _).nextFrame
      rw [Store.nextFrame_allocate, place]
      exact Nat.lt_succ_of_lt present
    show (last.store.define after.active name.lexeme _).lookup? _ _ = _
    rw [Store.lookup?_define, there, if_pos ⟨rfl, rfl, isThere⟩]
  · intro wanted method isFound
    rcases own wanted method isFound with absent | ⟨member, sees⟩
    · cases absent
    · exact ⟨member, sees.trans place⟩

end LoxScript
