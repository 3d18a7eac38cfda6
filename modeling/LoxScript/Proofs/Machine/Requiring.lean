import LoxScript.Proofs.Machine.Composition

namespace LoxScript

/-!
# What the stack of required sources is looked at for

A machine looks at the stack of required sources for nothing but refusing to
require one of them again.  So a task that never requires a path does the same
whether that path is on the stack or not.
-/

open Run

/-- From a task that another one asks for, the evaluator comes to what it comes
to from that other one. -/
theorem Reaches.before
    {context : Context}
    {steps : Nat}
    {start task other : Task}
    {initial machine after : Machine}
    (calls : Calls context steps start initial task machine)
    (reaches : Reaches context task machine other after) :
    Reaches context start initial other after := by
  induction reaches with
  | here => exact .call steps .here calls
  | call steps _ callsNext inductionHypothesis =>
      exact .call steps inductionHypothesis callsNext

/-- Nothing that a task comes to requires the path. -/
def Task.Avoids (context : Context) (path : String) (task : Task)
    (machine : Machine) : Prop :=
  ∀ keyword after,
    ¬ Reaches context task machine (.exec (.require keyword path)) after

/-- What a task asks for avoids what the task avoids. -/
theorem Task.Avoids.asked
    {context : Context}
    {path : String}
    {steps : Nat}
    {task other : Task}
    {machine after : Machine}
    (avoids : task.Avoids context path machine)
    (calls : Calls context steps task machine other after) :
    other.Avoids context path after :=
  fun keyword last reaches => avoids keyword last (reaches.before calls)

/-- The stacks hold the same paths, this one apart. -/
def SameBut (path : String) (stack other : List String) : Prop :=
  ∀ entry, entry ≠ path → (entry ∈ stack ↔ entry ∈ other)

/-- The machine with another stack of required sources. -/
def Machine.within (stack : List String) (machine : Machine) : Machine :=
  { machine with requiring := stack }

/-- The outcome of a step with another stack of required sources. -/
def Run.outcomeWithin
    (stack : List String) :
    EStateM.Result Halt Machine α → EStateM.Result Halt Machine α
  | .ok value after => .ok value (after.within stack)
  | .error halt after => .error halt (after.within stack)

/-- The step does the same, and leaves the stack as it is, whether the path is
on it or not. -/
def Run.Overlooks (path : String) (step : Run α) (machine : Machine) : Prop :=
  ∀ stack, SameBut path stack machine.requiring →
    step (machine.within stack) = outcomeWithin stack (step machine)

variable {path : String} {machine : Machine}

namespace Run.Overlooks

/-- A step that does not look at what is being executed. -/
theorem ofSilent
    {step : Run α}
    (silent : Silent step) :
    Overlooks path step machine := by
  intro stack _
  have same := silent machine stack machine.output machine.world
  have unchanged :=
    silent machine machine.requiring machine.output machine.world
  have isHere : machine.aside machine.requiring machine.output machine.world =
      machine := rfl
  have isThere : machine.aside stack machine.output machine.world =
      machine.within stack := rfl
  rw [isThere] at same
  rw [isHere] at unchanged
  rw [same, unchanged]
  cases step machine <;> rfl

/-- The stack is afterwards as it was. -/
theorem requiring_eq
    {step : Run α}
    {value : α}
    {after : Machine}
    (overlooks : Overlooks path step machine)
    (yields : step machine = .ok value after) :
    after.requiring = machine.requiring := by
  have same := overlooks machine.requiring fun _ _ => Iff.rfl
  have unchanged : machine.within machine.requiring = machine := rfl
  rw [unchanged, yields] at same
  injection same with _ sameMachine
  rw [sameMachine]
  rfl

/-- One step after the other. -/
theorem andThen
    {step : Run α}
    {next : α → Run β}
    (overlooks : Overlooks path step machine)
    (overlooksNext :
      ∀ value after, step machine = .ok value after →
        Overlooks path (next value) after) :
    Overlooks path (step >>= next) machine := by
  intro stack same
  have first := overlooks stack same
  cases outcome : step machine with
  | ok value after =>
      rw [outcome] at first
      rw [bind_of_ok outcome, bind_of_ok first]
      refine overlooksNext value after outcome stack ?_
      rw [overlooks.requiring_eq outcome]
      exact same
  | error halt after =>
      rw [outcome] at first
      rw [bind_of_error outcome, bind_of_error first]
      rfl

/-- A step that looks at the machine first, but not at whether the path is on
the stack. -/
theorem look
    {next : Machine → Run α}
    (overlooks : Overlooks path (next machine) machine)
    (alike :
      ∀ stack, SameBut path stack machine.requiring →
        next (machine.within stack) = next machine) :
    Overlooks path (get >>= next) machine := by
  intro stack same
  rw [bind_get, bind_get, alike stack same]
  exact overlooks stack same

/-- A step in another frame. -/
theorem inFrame
    {step : Run α}
    {frame : FrameId}
    (overlooks : Overlooks path step { machine with active := frame }) :
    Overlooks path (Run.inFrame frame step) machine := by
  intro stack same
  have inside : step { machine.within stack with active := frame } =
      outcomeWithin stack (step { machine with active := frame }) :=
        overlooks stack same
  simp only [Run.inFrame, inside]
  cases step { machine with active := frame } <;> rfl

/-- A step of a further required source. -/
theorem whileRequiring
    {step : Run α}
    {other : String}
    (overlooks :
      Overlooks path step
        { machine with requiring := other :: machine.requiring }) :
    Overlooks path (Run.whileRequiring other step) machine := by
  intro stack same
  have inside : step { machine.within stack with requiring := other :: stack } =
      outcomeWithin (other :: stack)
        (step { machine with requiring := other :: machine.requiring }) := by
    apply overlooks
    intro entry different
    simp only [List.mem_cons, same entry different]
  simp only [Run.whileRequiring]
  rw [show (machine.within stack).requiring = stack from rfl, inside]
  cases step { machine with requiring := other :: machine.requiring } <;> rfl

end Run.Overlooks

section Steps

/-- Writing to the output. -/
theorem overlooks_write
    (text : String) :
    Overlooks path (write text) machine := by
  apply Overlooks.look _ fun _ _ => rfl
  apply Overlooks.andThen
  · exact fun _ _ => rfl
  · intro _ after _
    split <;> exact fun _ _ => rfl

/-- Loading another required source. -/
theorem overlooks_loadRequired
    {other : String}
    (different : other ≠ path)
    (context : Context)
    (keyword : Token) :
    Overlooks path (loadRequired context keyword other) machine := by
  unfold loadRequired
  extract_lets failWith goOn
  apply Overlooks.look
  · split
    · exact fun _ _ => rfl
    · unfold goOn
      split
      · exact fun _ _ => rfl
      · rename_i source _
        apply Overlooks.andThen
        · exact fun _ _ => rfl
        · intro verdict after _
          cases verdict <;> exact fun _ _ => rfl
  · intro stack same
    have seen : (machine.within stack).requiring.contains other =
        machine.requiring.contains other := by
      rw [Bool.eq_iff_iff, List.contains_iff_mem, List.contains_iff_mem]
      exact same other different
    rw [seen]

/-- Calling a native. -/
theorem overlooks_callNative
    (context : Context)
    (native : Native)
    (arguments : List Value) :
    Overlooks path (callNative context native arguments) machine := by
  apply Overlooks.andThen
  · exact fun _ _ => rfl
  · intro outcome after _
    cases outcome <;> exact fun _ _ => rfl

/-- Whether a path is on the stack is overlooked by what is composed of steps
that overlook it. -/
theorem composes_overlooks
    (path : String) :
    Composes (Overlooks path) where
  silent := .ofSilent
  andThen := .andThen
  look alike overlooks := .look overlooks fun stack _ => alike stack _ _
  inFrame := .inFrame
  whileRequiring := .whileRequiring

end Steps

/-- Tasks that avoid the path overlook it in so many steps. -/
def Overlooking (context : Context) (path : String) (steps : Nat) : Prop :=
  ∀ (task : Task) (machine : Machine),
    task.Avoids context path machine →
      Overlooks path (task.run context steps) machine

/-- Tasks that avoid the path overlook it, however many steps there are. -/
theorem overlooking_always
    (context : Context)
    (path : String)
    (steps : Nat) :
    Overlooking context path steps := by
  induction steps with
  | zero =>
      exact fun task machine _ =>
        (composes_overlooks path).task_zero task machine
  | succ steps inductionHypothesis =>
      intro task machine avoids
      refine (composes_overlooks path).task_succ ?_ ?_ ?_ ?_
      · exact fun other after calls =>
          inductionHypothesis other after (avoids.asked calls)
      · exact fun value shown after _ _ => overlooks_write _
      · rintro keyword other rfl
        refine overlooks_loadRequired ?_ context keyword
        rintro rfl
        exact avoids keyword machine .here
      · exact fun native arguments _ =>
          overlooks_callNative context native arguments

/-- However many steps there are, a task that never requires a path overlooks
it. -/
theorem Task.Avoids.overlooks
    {context : Context}
    {task : Task}
    (avoids : task.Avoids context path machine)
    (steps : Nat) :
    Overlooks path (task.run context steps) machine :=
  overlooking_always context path steps task machine avoids

end LoxScript
