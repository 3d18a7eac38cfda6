import LoxScript.Proofs.Machine.Endurance
import LoxScript.Proofs.Machine.Trace

namespace LoxScript

/-!
# A trace lists what the evaluator comes to

With enough steps, everything that happens while a task is done is in the task's
trace, and nothing else is: the tasks that the evaluator comes to, and what they
parse.
-/

open Run

/-- A value that a step yields is yielded with more steps as well. -/
theorem Run.Prolongs.ok
    {longer shorter : Run α}
    {machine after : Machine}
    {value : α}
    (prolongs : Prolongs longer shorter)
    (yields : shorter machine = .ok value after) :
    longer machine = .ok value after :=
  (prolongs.eq (by simp [yields])).trans yields

section Enough

variable {context : Context} {steps more : Nat} {task other : Task}
  {m n : Machine}

/-- A task is asked for with more steps as well. -/
theorem Calls.of_le
    (calls : Calls context steps task m other n)
    (enough : steps ≤ more) :
    Calls context more task m other n := by
  have prolongs (task : Task) := task.prolongs context enough
  cases calls with
  | binaryRight left => exact .binaryRight ((prolongs (.eval _)).ok left)
  | logicalRight left unsettled =>
      exact .logicalRight ((prolongs (.eval _)).ok left) unsettled
  | arguments callee => exact .arguments ((prolongs (.eval _)).ok callee)
  | applied callee arguments isCallable fits =>
      exact .applied ((prolongs (.eval _)).ok callee)
        ((prolongs (.evalAll _)).ok arguments) isCallable fits
  | stored object => exact .stored ((prolongs (.eval _)).ok object)
  | restExprs first => exact .restExprs ((prolongs (.eval _)).ok first)
  | result frame flow =>
      exact .result frame (((prolongs (.execAll _)).inFrame _).ok flow)
  | thenBranch condition holds =>
      exact .thenBranch ((prolongs (.eval _)).ok condition) holds
  | elseBranch condition fails =>
      exact .elseBranch ((prolongs (.eval _)).ok condition) fails
  | restStmts first => exact .restStmts ((prolongs (.exec _)).ok first)
  | repeated condition holds =>
      exact .repeated ((prolongs (.eval _)).ok condition) holds
  | again condition holds body =>
      exact .again ((prolongs (.eval _)).ok condition) holds
        ((prolongs (.exec _)).ok body)
  | initializer allocates isInitializer binds =>
      exact .initializer allocates isInitializer binds
  | body allocates => exact .body allocates
  | block allocates => exact .block allocates
  | required loads => exact .required loads
  | _ => constructor

namespace Task

/-- What happens within some steps happens within more. -/
theorem mem_trace_of_le
    {event : Event}
    (member : event ∈ task.trace context steps m)
    (enough : steps ≤ more) :
    event ∈ task.trace context more m := by
  induction steps generalizing task m more with
  | zero =>
      cases List.mem_singleton.mp member
      cases more <;> exact List.mem_cons_self
  | succ steps inductionHypothesis =>
      obtain ⟨more, rfl⟩ :=
        Nat.exists_eq_succ_of_ne_zero (Nat.ne_zero_of_lt enough)
      have enough := Nat.le_of_succ_le_succ enough
      rcases List.mem_cons.mp member with here | further
      · exact List.mem_cons.mpr (.inl here)
      · refine List.mem_cons_of_mem _ (List.mem_append.mpr ?_)
        rcases List.mem_append.mp further with isParsed | isLater
        · exact .inl isParsed
        · obtain ⟨⟨called, start⟩, isCall, isThere⟩ :=
            List.mem_flatMap.mp isLater
          have isCall :=
            mem_calls_iff.mpr ((mem_calls_iff.mp isCall).of_le enough)
          exact .inr (List.mem_flatMap.mpr
            ⟨_, isCall, inductionHypothesis isThere enough⟩)

/-- What happens while one task asks for another happens while the first is
done. -/
theorem mem_trace_of_calls
    {event : Event}
    (calls : Calls context steps task m other n)
    (member : event ∈ other.trace context more n) :
    event ∈ task.trace context (max steps more + 1) m := by
  have isCall := mem_calls_iff.mpr (calls.of_le (Nat.le_max_left steps more))
  have isThere := mem_trace_of_le member (Nat.le_max_right steps more)
  exact List.mem_cons_of_mem _
    (List.mem_append_right _ (List.mem_flatMap.mpr ⟨_, isCall, isThere⟩))

/-- What happens while the evaluator does a task that it comes to happens while
it does the task that it started with. -/
theorem mem_trace_of_reaches
    {event : Event}
    (reaches : Reaches context task m other n)
    (member : event ∈ other.trace context steps n) :
    ∃ more, event ∈ task.trace context more m := by
  induction reaches generalizing steps with
  | here => exact ⟨steps, member⟩
  | call _ _ calls inductionHypothesis =>
      exact inductionHypothesis (mem_trace_of_calls calls member)

/-- Whatever happens, happens at a task that the evaluator comes to. -/
theorem reaches_of_mem_trace
    {start : Task}
    {initial : Machine}
    {event : Event}
    (reaches : Reaches context start initial task m)
    (member : event ∈ task.trace context steps m) :
    ∃ other n, Reaches context start initial other n ∧
      (event = .task other n ∨ event ∈ other.parsing context n) := by
  induction steps generalizing task m with
  | zero => exact ⟨task, m, reaches, .inl (List.mem_singleton.mp member)⟩
  | succ steps inductionHypothesis =>
      rcases List.mem_cons.mp member with here | further
      · exact ⟨task, m, reaches, .inl here⟩
      · rcases List.mem_append.mp further with isParsed | isLater
        · exact ⟨task, m, reaches, .inr isParsed⟩
        · obtain ⟨⟨called, start⟩, isCall, isThere⟩ :=
            List.mem_flatMap.mp isLater
          exact inductionHypothesis
            (.call steps reaches (mem_calls_iff.mp isCall)) isThere

/-- The trace of a task lists the tasks that the evaluator comes to, and what
they parse. -/
theorem mem_trace_iff
    {event : Event} :
    (∃ steps, event ∈ task.trace context steps m) ↔
      ∃ other n, Reaches context task m other n ∧
        (event = .task other n ∨ event ∈ other.parsing context n) := by
  constructor
  · rintro ⟨steps, member⟩
    exact reaches_of_mem_trace .here member
  · rintro ⟨other, n, reaches, happens⟩
    refine mem_trace_of_reaches reaches (?_ : event ∈ other.trace context 1 n)
    rcases happens with isTask | isParsed
    · exact List.mem_cons.mpr (.inl isTask)
    · exact List.mem_cons_of_mem _ (List.mem_append_left _ isParsed)

end Task

end Enough

end LoxScript
