import LoxScript.Proofs.Machine.Trace

namespace LoxScript

/-!
# Stages of a run

Where a trace tells which tasks the evaluator comes to, stages also tell when a
method is bound to an instance, when a subclass gets the frame that its methods
find `super` in, and what calls yield.
-/

open Run

/-- The frame of a bound method: `this` in it is the instance. -/
def Frame.ofThis (object : Instance) (parent : FrameId) : Frame :=
  ⟨NameMap.empty.insert "this" (.object object), some parent⟩

/-- The frame around the methods of a subclass: `super` in it is the
superclass. -/
def Frame.ofSuper (superclass : Class) (parent : FrameId) : Frame :=
  ⟨NameMap.empty.insert "super" (.blueprint superclass), some parent⟩

/-- What a frame with one name holds. -/
theorem Frame.held_single
    {name wanted : String}
    {value held : Value}
    (isHeld : (NameMap.empty.insert name value).find? wanted = some held) :
    wanted = name ∧ value = held := by
  rw [NameMap.find?_insert] at isHeld
  split at isHeld
  · rename_i same
    cases isHeld
    exact ⟨same.symm, rfl⟩
  · cases isHeld

/-- Something that happens in a run, with the machine when it has happened. -/
inductive Stage where
  /-- The evaluator comes to a task. -/
  | task (task : Task) (machine : Machine)
  /-- A method that was found under a name is bound to an instance. -/
  | bound
      (name : String) (method : Function) (object : Instance) (bound : Function)
      (before : Machine) (machine : Machine)
  /-- A class, of which the declaration started in the first machine, has got
  the frame for `super`. -/
  | inherited (named : SuperclassRef) (superclass : Class) (declaring : Machine)
    (machine : Machine)
  /-- A call of a function has yielded a value. -/
  | called (function : Function) (arguments : List Value) (value : Value)
    (machine : Machine)

namespace Stage

/-- The machine when it has happened. -/
def machine : Stage → Machine
  | .task _ machine => machine
  | .bound _ _ _ _ _ machine => machine
  | .inherited _ _ _ machine => machine
  | .called _ _ _ machine => machine

/-- The machine before it happens; of what is noted afterwards, that machine. -/
def start : Stage → Machine
  | .task _ machine => machine
  | .bound _ _ _ _ before _ => before
  | .inherited _ _ _ machine => machine
  | .called _ _ _ machine => machine

/-- The method is bound to the instance. -/
def binding (name : String) (method : Function) (object : Instance)
    (machine : Machine) : List Stage :=
  (Run.bind method object).onwards machine fun bound after =>
    [.bound name method object bound machine after]

end Stage

/-- The method that a property of the instance is, if it is no field. -/
def Machine.property? (machine : Machine) (object : Instance) (name : String) :
    Option Function :=
  match machine.store.field? object.identity name with
  | some _ => none
  | none => object.blueprint.findMethod? name

namespace Task

/-- What a task does itself before it asks for other tasks. -/
def opening : Task → Machine → List Stage
  | .apply (.blueprint blueprint) _, machine =>
      (allocateInstance blueprint).onwards machine fun object after =>
        match blueprint.initializer? with
        | none => []
        | some initializer =>
            Stage.binding initializerName initializer object after
  | _, _ => []

/-- What a task does itself after the tasks that it asks for. -/
def closing (context : Context) (steps : Nat) : Task → Machine → List Stage
  | .eval (.get object name), machine =>
      (LoxScript.eval context steps object).onwards machine fun held after =>
        match held with
        | .object found =>
            match after.property? found name.lexeme with
            | none => []
            | some method => Stage.binding name.lexeme method found after
        | _ => []
  | .eval (.superRef id keyword method), machine =>
      (superParts id keyword).onwards machine fun parts after =>
        match parts.1.findMethod? method.lexeme with
        | none => []
        | some found => Stage.binding method.lexeme found parts.2 after
  | .exec (.classDecl name (some named) _), machine =>
      (readSuperclass name named).onwards machine fun superclass after =>
        (methodFrame (some superclass)).onwards (after.defining name .nil)
          fun _ framed =>
            [.inherited named superclass machine framed]
  | .call function arguments, machine =>
      (LoxScript.call context (steps + 1) function arguments).onwards machine
        fun value after =>
          [.called function arguments value after]
  | _, _ => []

/-- What happens while a task is done in a number of steps. -/
def stages (context : Context) : Nat → Task → Machine → List Stage
  | 0, task, machine => [.task task machine]
  | steps + 1, task, machine =>
      .task task machine ::
        (task.opening machine ++
          ((task.calls context steps machine).flatMap fun call =>
            stages context steps call.1 call.2) ++
          task.closing context steps machine)

/-- What happens in the tasks that a task asks for. -/
def inner (context : Context) (steps : Nat) (task : Task) (machine : Machine) :
    List Stage :=
  (task.calls context steps machine).flatMap fun call =>
    call.1.stages context steps call.2

/-- What happens in a task that is asked for happens in the task that asks for
it. -/
theorem mem_stages_of_calls
    {context : Context}
    {steps : Nat}
    {task other : Task}
    {machine after : Machine}
    (calls : Calls context steps task machine other after)
    {stage : Stage}
    (member : stage ∈ other.stages context steps after) :
    stage ∈ task.stages context (steps + 1) machine := by
  have within : stage ∈ task.inner context steps machine :=
    List.mem_flatMap.mpr ⟨(other, after), mem_calls_iff.mpr calls, member⟩
  exact .tail _ (List.mem_append_left _ (List.mem_append_right _ within))

/-- The first thing to happen is that the evaluator comes to the task. -/
theorem mem_stages_self
    (context : Context)
    (steps : Nat)
    (task : Task)
    (machine : Machine) :
    .task task machine ∈ task.stages context steps machine := by
  cases steps <;> exact List.mem_cons_self

/-- No other task is among what a task does itself. -/
theorem not_mem_own_stages
    (context : Context)
    (steps : Nat)
    (task other : Task)
    (machine after : Machine) :
    .task other after ∉ task.opening machine ∧
      .task other after ∉ task.closing context steps machine := by
  have notBinding {name : String} {method : Function} {object : Instance}
      {start : Machine} :
      .task other after ∉ Stage.binding name method object start := by
    simp [Stage.binding, mem_onwards_iff]
  constructor
  · unfold opening
    split
    · rw [mem_onwards_iff]
      rintro ⟨object, allocated, -, member⟩
      split at member
      · cases member
      · exact notBinding member
    · exact List.not_mem_nil
  · unfold closing
    split
    · rw [mem_onwards_iff]
      rintro ⟨held, evaluated, -, member⟩
      split at member
      · split at member
        · cases member
        · exact notBinding member
      · cases member
    · rw [mem_onwards_iff]
      rintro ⟨parts, looked, -, member⟩
      split at member
      · cases member
      · exact notBinding member
    · simp [mem_onwards_iff]
    · simp [mem_onwards_iff]
    · exact List.not_mem_nil

/-- Tasks among the stages are tasks that the evaluator comes to. -/
theorem reaches_of_mem_stages
    {context : Context}
    {steps : Nat}
    {start task other : Task}
    {initial machine after : Machine}
    (reaches : Reaches context start initial task machine)
    (member : .task other after ∈ task.stages context steps machine) :
    Reaches context start initial other after := by
  induction steps generalizing task machine with
  | zero =>
      cases List.mem_singleton.mp member
      exact reaches
  | succ steps inductionHypothesis =>
      rcases List.mem_cons.mp member with same | further
      · cases same
        exact reaches
      · obtain ⟨notOpening, notClosing⟩ :=
          not_mem_own_stages context steps task other machine after
        have within := ((List.mem_append.mp further).resolve_right notClosing)
        obtain ⟨⟨asked, middle⟩, isCall, isStage⟩ :=
          List.mem_flatMap.mp
            ((List.mem_append.mp within).resolve_left notOpening)
        exact inductionHypothesis
          (.call steps reaches (mem_calls_iff.mp isCall)) isStage

end Task

end LoxScript
