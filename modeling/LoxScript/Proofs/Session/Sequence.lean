import LoxScript.Proofs.Machine.Endurance
import LoxScript.Proofs.Machine.Requiring
import LoxScript.Proofs.Session.Life

namespace LoxScript

/-!
# Statements of a run and statements of a body

The statements of a source are run one by one, with a look at whether to stop
before each; the statements of a body are executed as one task.  Where nothing
asks to stop, both come to the same, and a path that is never required may be on
the stack of required sources or not.
-/

open Run

variable {context : Context} {stopping : Stopping} {steps more : Nat}
  {path : String}
variable {statements rest : List Stmt} {first statement : Stmt}
  {machine start after : Machine}

/-- The outcome of statements that ended in this way. -/
def Outcome.ofResult : EStateM.Result Halt Machine Flow → Outcome × Machine
  | .ok _ after => (.finished, after)
  | .error (.failed error) after => (.failed (.runtime error), after)
  | .error .exhausted after => (.exhausted, after)

/-- A statement that ends normally is followed by the others. -/
theorem runStatements_cons_of_ok
    (goesOn : stopping.stops machine.world = false)
    (yields : exec context steps first machine = .ok .normal after) :
    runStatements context stopping steps (first :: rest) machine =
      runStatements context stopping steps rest after := by
  rw [runStatements, goesOn, if_neg Bool.false_ne_true, yields]

/-- A statement that does not end normally is the last one. -/
theorem runStatements_cons_of_last
    (goesOn : stopping.stops machine.world = false)
    (isLast : ∀ after, exec context steps first machine ≠ .ok .normal after) :
    runStatements context stopping steps (first :: rest) machine =
      Outcome.ofResult (exec context steps first machine) := by
  rw [runStatements, goesOn, if_neg Bool.false_ne_true]
  split
  · rename_i after yields
    exact absurd yields (isLast after)
  all_goals
    rename_i ends
    rw [ends]
    rfl

/-- A single statement is run by executing it. -/
theorem runStatements_singleton
    (goesOn : stopping.stops machine.world = false) :
    runStatements context stopping steps [statement] machine =
      Outcome.ofResult (exec context steps statement machine) := by
  by_cases isLast : ∀ after,
    exec context steps statement machine ≠ .ok .normal after
  · exact runStatements_cons_of_last goesOn isLast
  · obtain ⟨after, yields⟩ : ∃ after,
        exec context steps statement machine = .ok .normal after := by
      simpa using isLast
    rw [runStatements_cons_of_ok goesOn yields, yields]
    rfl

/-- A statement that ends normally and the others are executed as one task. -/
theorem execAll_cons_of_ok
    (yields : exec context steps first machine = .ok .normal after) :
    execAll context (steps + 1) (first :: rest) machine =
      execAll context steps rest after := by
  rw [execAll, bind_of_ok yields]

/-- A statement that does not end normally ends the whole task in the same
way. -/
theorem execAll_cons_of_last
    (isLast : ∀ after, exec context steps first machine ≠ .ok .normal after) :
    execAll context (steps + 1) (first :: rest) machine =
      exec context steps first machine := by
  rw [execAll]
  cases outcome : exec context steps first machine with
  | ok flow after =>
      rw [bind_of_ok outcome]
      cases flow with
      | normal => exact absurd outcome (isLast after)
      | returned value => rfl
  | error halt after => rw [bind_of_error outcome]

/-- Statements that do not run out of steps end in the same way with more of
them. -/
theorem runStatements_of_le
    (enough : steps ≤ more)
    (ends : (runStatements context stopping steps statements machine).1 ≠
      .exhausted) :
    runStatements context stopping more statements machine =
      runStatements context stopping steps statements machine := by
  induction statements generalizing machine with
  | nil => rfl
  | cons first rest inductionHypothesis =>
      cases stops : stopping.stops machine.world with
      | true => simp only [runStatements, stops, if_true]
      | false =>
          have same : exec context more first machine =
              exec context steps first machine := by
            apply exec_of_le enough
            intro after exhausted
            have isLast : ∀ last,
                exec context steps first machine ≠ .ok .normal last := by
              simp [exhausted]
            rw [runStatements_cons_of_last stops isLast, exhausted] at ends
            exact ends rfl
          by_cases isLast : ∀ after,
            exec context steps first machine ≠ .ok .normal after
          · rw [runStatements_cons_of_last stops (same ▸ isLast),
              runStatements_cons_of_last stops isLast, same]
          · obtain ⟨after, yields⟩ : ∃ after,
                exec context steps first machine = .ok .normal after := by
              simpa using isLast
            rw [runStatements_cons_of_ok stops yields] at ends ⊢
            rw [runStatements_cons_of_ok stops (same.trans yields)]
            exact inductionHypothesis ends

/-- What a run comes to, it comes to with more steps. -/
theorem Proceeds.of_le
    (proceeds :
      Proceeds context stopping steps statements machine statement start)
    (enough : steps ≤ more) :
    Proceeds context stopping more statements machine statement start := by
  induction proceeds with
  | here goesOn => exact .here goesOn
  | next goesOn yields _ inductionHypothesis =>
      refine .next goesOn ?_ inductionHypothesis
      rw [exec_of_le enough (by simp [yields])]
      exact yields

/-- Run from the machine on, the statements are never stopped, and nothing that
they come to requires the path. -/
structure Undisturbed
    (context : Context)
    (stopping : Stopping)
    (path : String)
    (statements : List Stmt)
    (machine : Machine) : Prop where
  avoids :
    ∀ steps statement start,
      Proceeds context stopping steps statements machine statement start →
        (Task.exec statement).Avoids context path start
  goesOn :
    ∀ steps, (runStatements context stopping steps statements machine).1 ≠
      .failed .cancelled

/-- Nothing asks statements to stop that do not heed it. -/
theorem runStatements_unheeding
    (context : Context)
    (steps : Nat)
    (statements : List Stmt)
    (machine : Machine) :
    (runStatements context .unheeding steps statements machine).1 ≠
      .failed .cancelled := by
  induction statements generalizing machine with
  | nil => exact nofun
  | cons first rest inductionHypothesis =>
      have goesOn : Stopping.unheeding.stops machine.world = false := rfl
      by_cases isLast : ∀ after,
        exec context steps first machine ≠ .ok .normal after
      · rw [runStatements_cons_of_last goesOn isLast]
        rcases exec context steps first machine with
          ⟨_, _⟩ | ⟨_ | _, _⟩ <;> exact nofun
      · obtain ⟨after, yields⟩ : ∃ after,
            exec context steps first machine = .ok .normal after := by
          simpa using isLast
        rw [runStatements_cons_of_ok goesOn yields]
        exact inductionHypothesis after

namespace Undisturbed

variable {stack : List String}
variable (undisturbed : Undisturbed context stopping path
  (first :: rest) machine)

section First

include undisturbed

/-- The first statement is executed. -/
theorem starts :
    stopping.stops machine.world = false := by
  have goesOn := undisturbed.goesOn 0
  unfold runStatements at goesOn
  split at goesOn
  · exact absurd rfl goesOn
  · rename_i notStopped
    simpa using notStopped

/-- The first statement does the same whether the path is on the stack or
not. -/
theorem overlooks
    (steps : Nat) :
    Overlooks path (exec context steps first) machine :=
  (undisturbed.avoids steps first machine (.here undisturbed.starts)).overlooks
    steps

/-- So are the statements after one that ends normally. -/
theorem others
    (yields : exec context steps first machine = .ok .normal after) :
    Undisturbed context stopping path rest after := by
  have yieldsWith (further : Nat) :
      exec context (steps + further) first machine = .ok .normal after := by
    rw [exec_of_le (Nat.le_add_right steps further) (by simp [yields])]
    exact yields
  refine ⟨?_, ?_⟩
  · intro further statement start proceeds
    exact undisturbed.avoids (steps + further) statement start
      (.next undisturbed.starts (yieldsWith further)
        (proceeds.of_le (Nat.le_add_left further steps)))
  · intro further cancelled
    apply undisturbed.goesOn (steps + further)
    rw [runStatements_cons_of_ok undisturbed.starts (yieldsWith further),
      runStatements_of_le (Nat.le_add_left further steps) (by simp [cancelled])]
    exact cancelled

end First

/-- The outcome and the machine, with another stack of required sources. -/
def resultWithin (stack : List String) (result : Outcome × Machine) :
    Outcome × Machine :=
  (result.1, result.2.within stack)

/-- How a task ended, with another stack of required sources. -/
theorem ofResult_outcomeWithin
    (result : EStateM.Result Halt Machine Flow) :
    Outcome.ofResult (outcomeWithin stack result) =
      resultWithin stack (Outcome.ofResult result) := by
  rcases result with ⟨_, _⟩ | ⟨_ | _, _⟩ <;> rfl

/-- With another stack of required sources, a statement ends normally exactly if
it does so. -/
theorem outcomeWithin_ne_normal
    {result : EStateM.Result Halt Machine Flow}
    (isLast : ∀ after, result ≠ .ok .normal after) :
    ∀ after, outcomeWithin stack result ≠ .ok .normal after := by
  intro after same
  cases result with
  | ok flow last =>
      cases same
      exact isLast last rfl
  | error halt last => cases same

/-- Statements that end when they are run end in the same way as one task. -/
theorem ofResult_execAll
    (undisturbed : Undisturbed context stopping path statements machine)
    (same : SameBut path stack machine.requiring)
    (ends : (runStatements context stopping steps statements machine).1 ≠
      .exhausted) :
    Outcome.ofResult
        (execAll context (steps + statements.length + 1) statements
          (machine.within stack)) =
      resultWithin stack
        (runStatements context stopping steps statements machine) := by
  induction statements generalizing machine with
  | nil => rfl
  | cons first rest inductionHypothesis =>
      have goesOn := undisturbed.starts
      have overlooks := undisturbed.overlooks (steps + rest.length + 1)
      have enough : steps ≤ steps + rest.length + 1 := by
        omega
      have prolonged : exec context (steps + rest.length + 1) first machine =
          exec context steps first machine := by
        apply exec_of_le enough
        intro after exhausted
        have isLast : ∀ last,
            exec context steps first machine ≠ .ok .normal last := by
          simp [exhausted]
        rw [runStatements_cons_of_last goesOn isLast, exhausted] at ends
        exact ends rfl
      have inside := overlooks stack same
      rw [prolonged] at inside
      by_cases isLast : ∀ after,
        exec context steps first machine ≠ .ok .normal after
      · rw [runStatements_cons_of_last goesOn isLast, ← ofResult_outcomeWithin,
          ← inside]
        exact congrArg Outcome.ofResult
          (execAll_cons_of_last (inside ▸ outcomeWithin_ne_normal isLast))
      · obtain ⟨after, yields⟩ : ∃ after,
            exec context steps first machine = .ok .normal after := by
          simpa using isLast
        rw [runStatements_cons_of_ok goesOn yields] at ends ⊢
        rw [yields] at inside
        rw [← inductionHypothesis (undisturbed.others yields)
          (overlooks.requiring_eq (prolonged.trans yields) ▸ same) ends]
        exact congrArg Outcome.ofResult (execAll_cons_of_ok inside)

/-- Statements that end as one task end in the same way when they are run. -/
theorem ofResult_execAll_of_ends
    (undisturbed : Undisturbed context stopping path statements machine)
    (same : SameBut path stack machine.requiring)
    (ends :
      (Outcome.ofResult
        (execAll context steps statements (machine.within stack))).1 ≠
        .exhausted) :
    Outcome.ofResult (execAll context steps statements (machine.within stack)) =
      resultWithin stack
        (runStatements context stopping steps statements machine) := by
  induction statements generalizing machine steps with
  | nil =>
      cases steps with
      | zero => exact absurd rfl ends
      | succ steps => rfl
  | cons first rest inductionHypothesis =>
      cases steps with
      | zero => exact absurd rfl ends
      | succ steps =>
          have goesOn := undisturbed.starts
          have overlooks := undisturbed.overlooks steps
          have inside := overlooks stack same
          have prolonged
              (halts : ∀ after, exec context steps first machine ≠
                .error .exhausted after) :
              exec context (steps + 1) first machine =
                exec context steps first machine :=
            exec_of_le (Nat.le_succ steps) halts
          by_cases isLast : ∀ after,
            exec context steps first machine ≠ .ok .normal after
          · have whole : execAll context (steps + 1) (first :: rest)
                (machine.within stack) =
                outcomeWithin stack (exec context steps first machine) :=
              (execAll_cons_of_last
                (inside ▸ outcomeWithin_ne_normal isLast)).trans inside
            rw [whole, ofResult_outcomeWithin] at ends ⊢
            have same := prolonged fun after exhausted =>
              ends (by rw [exhausted]; rfl)
            rw [runStatements_cons_of_last goesOn (same ▸ isLast), same]
          · obtain ⟨after, yields⟩ :
                ∃ after, exec context steps first machine =
                  .ok .normal after := by
              simpa using isLast
            rw [yields] at inside
            rw [execAll_cons_of_ok inside] at ends ⊢
            have found := inductionHypothesis (undisturbed.others yields)
              (overlooks.requiring_eq yields ▸ same) ends
            have ended : (runStatements context stopping steps rest after).1 ≠
                .exhausted := by
              rw [found] at ends
              exact ends
            rw [found, runStatements_cons_of_ok goesOn
              ((prolonged (by simp [yields])).trans yields),
              runStatements_of_le (Nat.le_succ steps) ended]

end Undisturbed

end LoxScript
