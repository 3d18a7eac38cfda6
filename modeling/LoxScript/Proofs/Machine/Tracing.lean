import LoxScript.Proofs.Machine.Chronicle

namespace LoxScript

/-!
# Every task is traced

Whatever the evaluator does and however it ends, the trace tells the machines at
its ends and in between.  The trace is a chronicle, which lists the tasks and
the sources that are parsed, and neither values, fields nor declarations.
-/

open Run

/-- The chronicle of the tasks that the evaluator comes to and of the sources
that it parses. -/
def tracing : Chronicle Event where
  comes task machine := [.task task machine]
  loads context keyword path machine :=
    (Task.exec (.require keyword path)).parsing context machine
  sets _ _ _ _ := []
  declares _ _ _ := []
  yields _ _ _ := []

/-- What a task parses, it parses before it asks for other tasks. -/
theorem opening_tracing
    (context : Context)
    (task : Task)
    (machine : Machine) :
    tracing.opening context task machine = task.parsing context machine := by
  cases task with
  | exec statement => cases statement <;> rfl
  | _ => rfl

/-- Nothing is listed after the tasks that a task asks for. -/
theorem closing_tracing
    (context : Context)
    (steps : Nat)
    (task : Task)
    (machine : Machine) :
    tracing.closing context steps task machine = [] := by
  have nothing {α : Type} (step : Run α) (machine : Machine) :
      step.onwards machine (fun _ _ => ([] : List Event)) = [] := by
    unfold onwards
    cases step machine <;> rfl
  unfold Chronicle.closing Chronicle.storing
  split
  · refine List.append_eq_nil_iff.mpr ⟨?_, nothing _ machine⟩
    split
    · unfold onwards
      cases eval context steps _ machine with
      | error halt after => rfl
      | ok held after =>
          cases held with
          | object found => exact nothing _ after
          | _ => rfl
    · rfl
  · split
    · exact nothing _ machine
    · rfl
  · rfl

/-- The trace of a task is what that chronicle lists. -/
theorem Task.trace_eq_list
    (context : Context)
    (steps : Nat)
    (task : Task)
    (machine : Machine) :
    task.trace context steps machine =
      tracing.list context steps task machine := by
  induction steps generalizing task machine with
  | zero => rfl
  | succ steps inductionHypothesis =>
      simp only [trace, Chronicle.list, opening_tracing, closing_tracing,
        List.append_nil, inductionHypothesis]
      rfl

/-- Loading a required source: it is parsed unless it is being executed or
cannot be found. -/
theorem traced_loadRequired
    (context : Context)
    (keyword : Token)
    (path : String)
    (machine : Machine) :
    Traced ((Task.exec (.require keyword path)).parsing context machine)
      (loadRequired context keyword path) machine := by
  intro unfiled
  have stays : machine.Traces [] machine :=
    .nil (.refl machine)
  unfold loadRequired
  refine Leads.look ?_
  simp only [Task.parsing]
  cases circular : machine.requiring.contains path with
  | true =>
      simp only [if_true]
      exact stays
  | false =>
      simp only [Bool.false_eq_true, if_false]
      cases context.library path with
      | error failure => exact stays
      | ok source =>
          cases outcome : Program.compile source machine.nextNode with
          | mk verdict next =>
              unfold Leads
              dsimp only
              rw [bind_of_ok (modifyGet_compile outcome)]
              cases verdict with
              | error error => exact Machine.traces_rejected unfiled outcome
              | ok program => exact Machine.traces_load unfiled outcome

/-- In a machine that has filed no distances for nodes to come, a trace tells
what there is to it. -/
theorem tells_traces :
    tracing.Tells fun before events after => before.Unfiled →
      before.Traces events after where
  stay machine _ := .nil (.refl machine)
  append first second unfiled :=
    (first unfiled).append (second ((first unfiled).recalls.unfiled unfiled))
  nothing changes _ := .nil (Machine.respected_recalls.quiet changes)
  inFrame frame traces unfiled := by
    have inner := traces unfiled
    exact inner.congr (Machine.respected_recalls.inFrame frame inner.recalls)
      rfl rfl rfl rfl
  whileRequiring path traces unfiled := by
    have inner := traces unfiled
    exact inner.congr
      (Machine.respected_recalls.whileRequiring path inner.recalls)
      rfl rfl rfl rfl
  comes task machine _ := .task task (.nil (.refl machine))
  loads context keyword path machine := by
    unfold Leads
    cases outcome : loadRequired context keyword path machine with
    | ok program after =>
        exact fun unfiled =>
          (traced_loadRequired context keyword path machine unfiled).ok outcome
    | error halt after =>
        exact fun unfiled =>
          (traced_loadRequired context keyword path machine unfiled).error
          outcome
  sets object name value machine _ :=
    .nil (Machine.respected_recalls.change
      (.setField machine object.identity name value))
  redefines _ first unfiled :=
    (first unfiled).append
      (.nil (Machine.respected_recalls.change (.define _ _ _)))
  declares _ _ rest unfiled :=
    Machine.Traces.append
      (.nil (Machine.respected_recalls.change (.define _ _ _))) (rest unfiled)
  yields _ _ machine _ := .nil (.refl machine)

/-- Every task is traced, done in any number of steps and with any outcome. -/
theorem traced_always
    (context : Context)
    (steps : Nat)
    (task : Task)
    (machine : Machine) :
    Traced (task.trace context steps machine) (task.run context steps)
      machine := by
  intro unfiled
  rw [task.trace_eq_list]
  exact Leads.weaken (tells_traces.told_task context steps task machine)
    (fun _ _ traces => traces unfiled) fun _ _ traces => traces unfiled

end LoxScript
