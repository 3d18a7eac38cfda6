import LoxScript.Proofs.Scope.Walk
import LoxScript.Session

namespace LoxScript

/-!
# Where statements return

A `return` ends the function that it stands in.  An analysis accepts none
outside of functions, so the statements of an accepted program never return,
however deep in blocks and loops they stand, and a run goes through all of them.
-/

open Analysis Resolve Run

mutual

/-- The statement has a `return` that is not part of another function. -/
def Stmt.returns : Stmt → Bool
  | .ret _ _ => true
  | .block body => Stmt.returnsAny body
  | .conditional _ thenBranch none => thenBranch.returns
  | .conditional _ thenBranch (some elseBranch) =>
      thenBranch.returns || elseBranch.returns
  | .loop _ body => body.returns
  | _ => false

/-- One of the statements has a `return` that is not part of another
function. -/
def Stmt.returnsAny : List Stmt → Bool
  | [] => false
  | first :: rest => first.returns || Stmt.returnsAny rest

end

section Analyses

variable {before middle after : Analysis}

/-- Analysing a part does not change whether the code at hand belongs to a
function. -/
theorem Part.inFunction_of_resolve
    (part : Part)
    (resolved : part.resolve before = .ok () after) :
    after.inFunction = before.inFunction :=
  ((part.keeps_resolve before).ok resolved).1.inFunction

mutual

/-- A statement that is accepted outside of functions does not return. -/
theorem Stmt.returns_of_resolve :
    (statement : Stmt) → {before after : Analysis} →
      statement.resolve before = .ok () after → before.inFunction = false →
      statement.returns = false
  | .print _, _, _, _, _ => rfl
  | .expression _, _, _, _, _ => rfl
  | .varDecl _ _, _, _, _, _ => rfl
  | .funDecl _, _, _, _, _ => rfl
  | .classDecl _ _ _, _, _, _, _ => rfl
  | .require _ _, _, _, _, _ => rfl
  | .block body, _, _, resolved, outside => by
      obtain ⟨inner, resolvedBody, -⟩ := within_eq_ok_iff.mp resolved
      exact Stmt.returns_of_resolveAll body resolvedBody outside
  | .conditional condition thenBranch none, _, _, resolved, outside => by
      obtain ⟨_, _, resolvedCondition, resolvedThen⟩ :=
        bind_eq_ok_iff.mp resolved
      have kept :=
        Part.inFunction_of_resolve (.expr condition) resolvedCondition
      exact thenBranch.returns_of_resolve resolvedThen (kept.trans outside)
  | .conditional condition thenBranch (some elseBranch), _, _, resolved,
    outside => by
      obtain ⟨_, _, resolvedCondition, resolvedNext⟩ :=
        bind_eq_ok_iff.mp resolved
      obtain ⟨_, _, resolvedThen, resolvedElse⟩ :=
        bind_eq_ok_iff.mp resolvedNext
      have kept :=
        Part.inFunction_of_resolve (.expr condition) resolvedCondition
      have keptThen :=
        Part.inFunction_of_resolve (.stmt thenBranch) resolvedThen
      rw [Stmt.returns,
        thenBranch.returns_of_resolve resolvedThen (kept.trans outside),
        elseBranch.returns_of_resolve resolvedElse
          (keptThen.trans (kept.trans outside))]
      rfl
  | .loop condition body, _, _, resolved, outside => by
      obtain ⟨_, _, resolvedCondition, resolvedBody⟩ :=
        bind_eq_ok_iff.mp resolved
      have kept :=
        Part.inFunction_of_resolve (.expr condition) resolvedCondition
      exact body.returns_of_resolve resolvedBody (kept.trans outside)
  | .ret keyword value, before, _, resolved, outside => by
      obtain ⟨_, _, allows, -⟩ := bind_eq_ok_iff.mp resolved
      unfold allowReturn at allows
      rw [bind_get, outside] at allows
      cases allows

/-- Statements that are accepted outside of functions do not return. -/
theorem Stmt.returns_of_resolveAll :
    (statements : List Stmt) → {before after : Analysis} →
      Stmt.resolveAll statements before = .ok () after →
      before.inFunction = false →
      Stmt.returnsAny statements = false
  | [], _, _, _, _ => rfl
  | first :: rest, _, _, resolved, outside => by
      obtain ⟨_, _, resolvedFirst, resolvedRest⟩ := bind_eq_ok_iff.mp resolved
      have kept := Part.inFunction_of_resolve (.stmt first) resolvedFirst
      rw [Stmt.returnsAny, first.returns_of_resolve resolvedFirst outside,
        Stmt.returns_of_resolveAll rest resolvedRest (kept.trans outside)]
      rfl

end

/-- The statements of an accepted program do not return. -/
theorem returnsAny_of_resolveProgram
    {statements : List Stmt}
    {distances : Distances}
    (accepted : resolveProgram statements = .ok distances) :
    Stmt.returnsAny statements = false := by
  unfold resolveProgram at accepted
  split at accepted
  · rename_i resolved
    exact Stmt.returns_of_resolveAll statements resolved rfl
  · cases accepted

end Analyses

/-- If the step yields something, that is the normal end of a statement. -/
def EndsNormally (step : Run Flow) : Prop :=
  ∀ machine, Leads step machine (fun flow _ => flow = .normal) (fun _ _ => True)

namespace EndsNormally

variable {step : Run Flow}

/-- Whatever comes first, the second step decides. -/
theorem after
    {first : Run α}
    {next : α → Run Flow}
    (ends : ∀ value, EndsNormally (next value)) :
    EndsNormally (first >>= next) := by
  intro machine
  refine Leads.bind ?_
  cases outcome : first machine with
  | ok value middle => simpa only [Leads, outcome] using ends value middle
  | error halt middle => simp only [Leads, outcome]

/-- Nothing but a normal end. -/
theorem normal :
    EndsNormally (pure .normal) :=
  fun _ => rfl

/-- A step that runs out of steps. -/
theorem exhausted :
    EndsNormally (throw .exhausted) :=
  fun _ => trivial

/-- A frame does not count. -/
theorem inFrame
    (ends : EndsNormally step)
    (frame : FrameId) :
    EndsNormally (Run.inFrame frame step) := by
  intro machine
  have inside := ends { machine with active := frame }
  unfold Leads at inside ⊢
  unfold Run.inFrame
  generalize step { machine with active := frame } = outcome at inside ⊢
  cases outcome with
  | ok flow after => exact inside
  | error halt after => trivial

end EndsNormally

/-- With this number of steps, what has no `return` of its own ends normally. -/
structure EndsWithoutReturn (context : Context) (steps : Nat) : Prop where
  exec :
    ∀ statement : Stmt, statement.returns = false →
      EndsNormally (exec context steps statement)
  execAll :
    ∀ statements, Stmt.returnsAny statements = false →
      EndsNormally (execAll context steps statements)
  execLoop :
    ∀ condition (body : Stmt), body.returns = false →
      EndsNormally (execLoop context steps condition body)

namespace EndsWithoutReturn

variable {context : Context} {steps : Nat}

/-- A statement without a `return`, with one step more. -/
theorem exec_succ
    (ends : EndsWithoutReturn context steps)
    (statement : Stmt)
    (returns : statement.returns = false) :
    EndsNormally (LoxScript.exec context (steps + 1) statement) := by
  unfold LoxScript.exec
  cases statement with
  | print value => exact .after fun _ => .after fun _ => .normal
  | expression value => exact .after fun _ => .normal
  | varDecl name initializer =>
      cases initializer with
      | none => exact .after fun _ => .normal
      | some value => exact .after fun _ => .after fun _ => .normal
  | block body =>
      exact .after fun _ => .after fun frame =>
        (ends.execAll body returns).inFrame frame
  | conditional condition thenBranch elseBranch =>
      refine .after fun value => ?_
      cases elseBranch with
      | none =>
          split
          · exact ends.exec thenBranch returns
          · exact .normal
      | some branch =>
          simp only [Stmt.returns, Bool.or_eq_false_iff] at returns
          split
          · exact ends.exec thenBranch returns.1
          · exact ends.exec branch returns.2
  | loop condition body => exact ends.execLoop condition body returns
  | funDecl declaration => exact .after fun _ => .normal
  | ret keyword value => cases returns
  | classDecl name superclass methods => exact .after fun _ => .normal
  | require keyword path => exact .after fun _ => .after fun _ => .normal

/-- Statements without a `return`, with one step more. -/
theorem execAll_succ
    (ends : EndsWithoutReturn context steps)
    (statements : List Stmt)
    (returns : Stmt.returnsAny statements = false) :
    EndsNormally (LoxScript.execAll context (steps + 1) statements) := by
  unfold LoxScript.execAll
  cases statements with
  | nil => exact .normal
  | cons first rest =>
      simp only [Stmt.returnsAny, Bool.or_eq_false_iff] at returns
      intro machine
      refine Leads.bind
        ((ends.exec first returns.1 machine).weaken ?_ fun _ _ holds => holds)
      rintro _ after rfl
      exact ends.execAll rest returns.2 after

/-- A loop without a `return`, with one step more. -/
theorem execLoop_succ
    (ends : EndsWithoutReturn context steps)
    (condition : Expr)
    (body : Stmt)
    (returns : body.returns = false) :
    EndsNormally (LoxScript.execLoop context (steps + 1) condition body) := by
  unfold LoxScript.execLoop
  refine .after fun value => ?_
  split
  · intro machine
    refine Leads.bind
      ((ends.exec body returns machine).weaken ?_ fun _ _ holds => holds)
    rintro _ after rfl
    exact ends.execLoop condition body returns after
  · exact .normal

end EndsWithoutReturn

/-- What has no `return` of its own ends normally, whatever the number of
steps. -/
theorem endsWithoutReturn_always
    (context : Context)
    (steps : Nat) :
    EndsWithoutReturn context steps := by
  induction steps with
  | zero =>
      exact
        { exec := fun _ _ => by
            unfold exec
            exact .exhausted
          execAll := fun _ _ => by
            unfold execAll
            exact .exhausted
          execLoop := fun _ _ _ => by
            unfold execLoop
            exact .exhausted }
  | succ steps inductionHypothesis =>
      exact
        { exec := inductionHypothesis.exec_succ
          execAll := inductionHypothesis.execAll_succ
          execLoop := inductionHypothesis.execLoop_succ }

/-- Statements of which the first ones do not return and finish are run by
running the others afterwards. -/
theorem runStatements_append
    {context : Context}
    {stopping : Stopping}
    {steps : Nat}
    {statements others : List Stmt}
    {machine : Machine}
    (returns : Stmt.returnsAny statements = false)
    (finishes : (runStatements context stopping steps statements machine).1 =
      .finished) :
    runStatements context stopping steps (statements ++ others) machine =
      runStatements context stopping steps others
        (runStatements context stopping steps statements machine).2 := by
  induction statements generalizing machine with
  | nil => rfl
  | cons first rest inductionHypothesis =>
      simp only [Stmt.returnsAny, Bool.or_eq_false_iff] at returns
      have ends :=
        (endsWithoutReturn_always context steps).exec first returns.1 machine
      simp only [List.cons_append, runStatements] at finishes ⊢
      split
      · rename_i stops
        rw [if_pos stops] at finishes
        cases finishes
      · rename_i goesOn
        rw [if_neg goesOn] at finishes
        cases outcome : exec context steps first machine with
        | ok flow after =>
            cases ends.ok outcome
            rw [outcome] at finishes
            exact inductionHypothesis returns.2 finishes
        | error halt after =>
            rw [outcome] at finishes
            cases halt <;> cases finishes

end LoxScript
