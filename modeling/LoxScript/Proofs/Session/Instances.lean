import LoxScript.Proofs.Machine.Dispatch
import LoxScript.Proofs.Session.Course
import LoxScript.Proofs.Session.Locals

namespace LoxScript

/-!
# Bound methods keep their instance

The frame in which a method was bound to an instance is the same at every later
stage of a session and at its end, and so is the frame that a class declaration
added for `super`.  Therefore `this` is the instance wherever a bound method is
called, and what an initializer returns does not count.
-/

open Run

section Passes

variable {stages : List Stage} {first last machine : Machine} {part : Part}
  {depth deep : Nat}
variable {wanted : String} {method bound : Function} {object : Instance}
  {before after : Machine}

/-- A method was bound before the stages at which it is bound. -/
theorem Machine.Binds.isBefore
    {stage : Stage}
    (binds : machine.Binds (· ∈ stages) wanted method object bound before after)
    (passes : (Machine.lineage (· ∈ stages) []).Passes first stages last)
    (member : stage ∈ stages)
    (isHere : stage.machine = machine)
    (isOther : stage ≠ .bound wanted method object bound before after) :
    (Stage.bound wanted method object bound before after).Before
      stages stage := by
  refine passes.isBefore binds.notes member isOther.symm ?_
  have present := (Array.getElem?_eq_some_iff.mp binds.frame).1
  rw [binds.closure] at present
  rw [isHere]
  exact present

variable (passes : (Machine.lineage (· ∈ stages) []).Passes first stages last)

include passes

/-- Where a task is come to, its code is housed. -/
theorem Regime.Passes.houses
    {expr : Expr}
    (member : .task (.eval expr) machine ∈ stages) :
    machine.Houses (· ∈ stages) machine.active (.expr expr) :=
  (passes.meets _ member).1

/-- If two bound methods enclose a part that is always as far from the frame of
its method, they are bound to the same instance and see the same frame. -/
theorem Machine.Binds.unique
    {name : String}
    {other otherBound : Function}
    {otherObject : Instance}
    {otherBefore otherAfter : Machine}
    {id : NodeId}
    (further : Nat)
    (binds : machine.Binds (· ∈ stages) wanted method object bound before after)
    (upholds : machine.Upholds last)
    (encloses : bound.Encloses machine part depth)
    (member : .bound name other otherObject otherBound otherBefore otherAfter ∈
      stages)
    (enclosesToo : otherBound.Encloses machine part deep)
    (distance :
      ∀ {method : Function} {wanted depth},
        method.IsMethod (· ∈ stages) last wanted →
        (Part.function method.declaration).Inside part depth →
          last.distances[id]? = some (depth + further)) :
    otherObject = object ∧ other.closure = method.closure ∧ deep = depth := by
  obtain ⟨isMethod, -, isFrame, declaration, -⟩ := passes.meets _ member
  have upholdsToo := passes.kept _ member
  have inside := encloses.inside
  have insideToo := enclosesToo.inside
  rw [binds.declaration] at inside
  rw [declaration] at insideToo
  have sameDistance :=
    (distance (isMethod.later upholdsToo) insideToo).symm.trans
    (distance (binds.isMethod.later upholds) inside)
  have same : deep = depth :=
    Nat.add_right_cancel (Option.some.inj sameDistance)
  have seat : otherBound.closure = bound.closure :=
    Option.some.inj (enclosesToo.frame.symm.trans (same ▸ encloses.frame))
  have frame := (binds.later upholds).frame
  have frameToo := upholdsToo.store.seals _ _ .this isFrame
  rw [seat] at frameToo
  obtain ⟨sameObject, sameClosure⟩ :=
    Frame.ofThis_inj (Option.some.inj (frameToo.symm.trans frame))
  exact ⟨sameObject, sameClosure, same⟩

end Passes

/-- A call of a class that yields a value yields the new instance. -/
theorem Run.apply_blueprint_eq_ok
    {context : Context}
    {steps : Nat}
    {blueprint : Class}
    {arguments : List Value}
    {machine after : Machine}
    {value : Value}
    (yields : apply context steps (.blueprint blueprint) arguments machine =
      .ok value after) :
    value = .object ⟨machine.store.nextInstance, blueprint⟩ := by
  cases steps with
  | zero => cases yields
  | succ steps =>
      rw [apply] at yields
      obtain ⟨object, allocated, allocates, yieldsObject⟩ :=
        bind_eq_ok_iff.mp yields
      cases allocates
      cases initializer : blueprint.initializer? with
      | none =>
          rw [initializer] at yieldsObject
          cases yieldsObject
          rfl
      | some found =>
          rw [initializer] at yieldsObject
          obtain ⟨bound, _, -, yieldsCall⟩ := bind_eq_ok_iff.mp yieldsObject
          obtain ⟨result, _, -, same⟩ := bind_eq_ok_iff.mp yieldsCall
          cases same
          rfl

/-- A function that was found under the name of initializers is one. -/
theorem Function.IsMethod.isInitializer
    {noted : Stage → Prop}
    {method : Function}
    {machine : Machine}
    (isMethod : method.IsMethod noted machine initializerName) :
    method.isInitializer = true := by
  obtain ⟨isNamed, _, _, _, _, madeBy⟩ := isMethod
  rw [madeBy.initializer, FunctionDecl.isInitializer, isNamed]
  rfl

namespace Session

/-- In every session, the frame in which a method was bound to an instance holds
`this` and nothing else, and the frame that a class declaration added holds
`super` and nothing else, from then on and for ever; `super` is the class that
the name of the superclass stood for.  So wherever `this` is used, it is used in
a call of a method that was bound before, and it is the instance that this
method was bound to.  A call of a class yields the new instance, and a call of
an initializer that was bound to an instance yields that instance, whatever its
body returns. -/
theorem bound_methods_keep_their_instance
    (disk : Disk)
    (output : Sink)
    (world : World)
    (actions : List HostAction)
    (lends : (bare disk output world).Lends actions) :
    let stages := (bare disk output world).stages actions
    let last := ((bare disk output world).performAll actions).machine
    (∀ {name method object bound before after},
      Stage.bound name method object bound before after ∈ stages →
        (Stage.bound name method object bound before after).Seals stages last
          bound.closure (.ofThis object method.closure)) ∧
    (∀ {named superclass declaring framed},
      Stage.inherited named superclass declaring framed ∈ stages →
        readVariable named.id named.name declaring =
          .ok (.blueprint superclass) declaring ∧
          (Stage.inherited named superclass declaring framed).Seals stages last
            declaring.store.nextFrame (.ofSuper superclass declaring.active)) ∧
    (∀ {id keyword machine},
      Stage.task (.eval (.thisRef id keyword)) machine ∈ stages →
        (∃ name method object bound before after depth,
          (Stage.bound name method object bound before after).Before stages
              (.task (.eval (.thisRef id keyword)) machine) ∧
            bound.Encloses machine (.expr (.thisRef id keyword)) depth) ∧
        ∀ {name method object bound before after depth},
          Stage.bound name method object bound before after ∈ stages →
          bound.Encloses machine (.expr (.thisRef id keyword)) depth →
            ∀ context steps,
              eval context (steps + 1) (.thisRef id keyword) machine =
                .ok (.object object) machine) ∧
    (∀ {context steps blueprint arguments machine value after},
      apply context steps (.blueprint blueprint) arguments machine =
        .ok value after →
        value = .object ⟨machine.store.nextInstance, blueprint⟩) ∧
    ∀ {method object bound before after arguments value machine},
      Stage.bound initializerName method object bound before after ∈ stages →
      Stage.called bound arguments value machine ∈ stages →
      value = .object object := by
  intro stages last
  have passes :=
    (lineal_bare (· ∈ stages) disk output world).passes_performAll lends
    fun _ member => member
  refine ⟨?_, ?_, ?_, apply_blueprint_eq_ok, ?_⟩
  · intro name method object bound before after member
    obtain ⟨-, -, isFrame, -⟩ := passes.meets _ member
    exact passes.seals member .this isFrame
  · intro named superclass declaring framed member
    obtain ⟨reads, isFrame⟩ := passes.meets _ member
    exact ⟨reads, passes.seals member .super isFrame⟩
  · intro id keyword machine member
    obtain ⟨wanted, method, object, bound, before, after, depth, binds,
        encloses⟩ :=
      (passes.houses member).binds_of_this
    refine ⟨⟨wanted, method, object, bound, before, after, depth,
      binds.isBefore passes member rfl nofun, encloses⟩, ?_⟩
    intro name other otherObject otherBound otherBefore otherAfter deep
      memberBound enclosesToo context steps
    obtain ⟨rfl, -⟩ := binds.unique passes 0 (passes.kept _ member) encloses
      memberBound enclosesToo fun isMethod inside =>
        (isMethod.distance_this inside).2
    exact binds.readVariable_this encloses
  · intro method object bound before after arguments value machine memberBound
      memberCalled
    obtain ⟨isMethod, -, isFrame, -, isInitializer⟩ :=
      passes.meets _ memberBound
    obtain ⟨-, holdsThis⟩ := passes.meets _ memberCalled
    have isHeld := holdsThis (isInitializer.trans isMethod.isInitializer)
    have isFrameLast :=
      (passes.kept _ memberBound).store.seals _ _ .this isFrame
    have isFrameHere := (passes.kept _ memberCalled).store.since
      (Store.lt_nextFrame_of_lookup? isHeld) .this isFrameLast
    cases isHeld.symm.trans (Store.lookup?_eq isFrameHere "this")
    rfl

/-- The evaluator comes to a use of `this`. -/
def isThis : Stage → Bool
  | .task (.eval (.thisRef _ _)) _ => true
  | _ => false

/-- A source in which a method of a subclass calls the method of the superclass,
and that one yields the instance. -/
def inheriting : List HostAction :=
  [.run .heeding 12
    "class A \x7b m() \x7b return this; \x7d \x7d
    class B < A \x7b m() \x7b return super.m(); \x7d \x7d
    B().m();".toUTF8]

/-- In the method of the superclass, `this` is an instance that the method was
bound to. -/
theorem bound_methods_keep_their_instance_in_superclass :
    ∃ id keyword machine name method object bound before after,
      Stage.task (.eval (.thisRef id keyword)) machine ∈
        quiet.stages inheriting ∧
      (Stage.bound name method object bound before after).Before
        (quiet.stages inheriting)
        (.task (.eval (.thisRef id keyword)) machine) ∧
      ∀ context steps,
        eval context (steps + 1) (.thisRef id keyword) machine =
          .ok (.object object) machine := by
  have comes : (quiet.stages inheriting).any isThis = true := by
    decide +kernel
  obtain ⟨stage, member, isUse⟩ := List.any_eq_true.mp comes
  unfold isThis at isUse
  split at isUse
  · rename_i id keyword machine
    obtain ⟨-, -, uses, -, -⟩ :=
      bound_methods_keep_their_instance _ _ _ inheriting
        ⟨fun _ _ => nofun, trivial⟩
    obtain ⟨⟨name, method, object, bound, before, after, depth, isBefore,
        encloses⟩, yields⟩ :=
      uses member
    have memberBound := isBefore.mem List.mem_cons_self
    exact ⟨id, keyword, machine, name, method, object, bound, before, after,
      member, isBefore, yields memberBound encloses⟩
  · cases isUse

end Session

end LoxScript
