import LoxScript.Proofs.Direct.Sessions

namespace LoxScript

/-!
# What a `for` loop means

A `for` loop is a loop in terms of the other statements, of which the direct
evaluator reads some as iterations.  Where it reads them as they were written,
it executes the loop in the manner of a `for` loop: the initializer once, in a
scope of its own, and then, all in this scope, round after round the condition,
the body and the increment.
-/

open Run

/-- What the loop repeats is an iteration if it has an increment, and none
otherwise: it is read as it was written. -/
def Iterations.Reads (iterations : Iterations) (body : Stmt) :
    Option Expr → Prop
  | some increment => iterations.chooses [body, .expression increment] = true
  | none => ∀ inner, body = .block inner → iterations.chooses inner = false

/-- No block is an iteration. -/
def Iterations.never : Iterations :=
  ⟨fun _ => false, nofun⟩

/-- Every block that may be an iteration is one. -/
def Iterations.always : Iterations where
  chooses
    | [repeated, .expression _] => repeated.declared?.isNone
    | _ => false
  shape body isIteration := by
    split at isIteration
    · rename_i repeated increment
      exact ⟨repeated, increment, rfl, Option.isNone_iff_eq_none.mp isIteration⟩
    · cases isIteration

/-- Every `for` loop can be read as it was written. -/
theorem Iterations.exists_reads
    {body : Stmt}
    (plain : body.declared? = none)
    (increment : Option Expr) :
    ∃ iterations : Iterations, iterations.Reads body increment := by
  cases increment with
  | some increment => exact ⟨always, by simp [Reads, always, plain]⟩
  | none => exact ⟨never, fun _ _ => rfl⟩

/-- What a `for` loop repeats. -/
def Stmt.forRepeated (body : Stmt) : Option Expr → Stmt
  | some increment => .block [body, .expression increment]
  | none => body

/-- The condition of a `for` loop. -/
def Expr.forCondition (condition : Option Expr) : Expr :=
  condition.getD (.literal (.boolean true))

/-- Without an initializer, a `for` loop is a loop. -/
theorem Stmt.forLoop_none
    (condition increment : Option Expr)
    (body : Stmt) :
    Stmt.forLoop none condition increment body =
      .loop (Expr.forCondition condition) (body.forRepeated increment) := by
  cases increment <;> rfl

/-- With one, it is a block. -/
theorem Stmt.forLoop_some
    (first : Stmt)
    (condition increment : Option Expr)
    (body : Stmt) :
    Stmt.forLoop (some first) condition increment body =
      .block [first,
        .loop (Expr.forCondition condition) (body.forRepeated increment)] := by
  cases increment <;> rfl

namespace Evaluator

section Meaning

variable (evaluator : Evaluator)
variable (initializer : Option Stmt) (condition increment : Option Expr)
  (body : Stmt)

/-- The value of the condition of a `for` loop, which is true if it is
missing. -/
def guard : Run Value :=
  match condition with
  | some condition => evaluator.eval condition
  | none => return .boolean true

/-- One round of a `for` loop: the body and then, unless that returns, the
increment.  If there is an increment, the place of the frame that a round would
have is left out. -/
def round : Run Flow :=
  match increment with
  | some increment => do
      skipFrame
      match ← evaluator.exec body with
      | .returned value => return .returned value
      | .normal => do
          let _ ← evaluator.eval increment
          return .normal
  | none => evaluator.exec body

/-- The rounds of a `for` loop, so many at most: as long as the condition holds
and none returns. -/
def rounds : Nat → Run Flow
  | 0 => throw .exhausted
  | more + 1 => do
      if (← evaluator.guard condition).isTruthy then
        match ← evaluator.round increment body with
        | .returned value => return .returned value
        | .normal => rounds more
      else return .normal

/-- A `for` loop with so many rounds at most: the initializer, if there is one,
is executed once in a new frame, and all rounds are executed in the same one. -/
def forDirectly (limit : Nat) : Run Flow :=
  match initializer with
  | some first => do
      let frame ← allocate ⟨NameMap.empty, some (← get).active⟩
      inFrame frame do
        match ← evaluator.exec first with
        | .returned value => return .returned value
        | .normal => evaluator.rounds condition increment body limit
  | none => evaluator.rounds condition increment body limit

end Meaning

section Steps

variable (iterations : Iterations) (context : Context)

/-- Two statements are executed one after the other, the second unless the first
returns. -/
theorem direct_execAll_pair
    (first last : Stmt)
    (steps : Nat) :
    (direct iterations context (steps + 3)).execAll [first, last] = (do
      match ← (direct iterations context (steps + 2)).exec first with
      | .returned value => return .returned value
      | .normal => (direct iterations context (steps + 1)).exec last) := by
  rw [direct_succ iterations context (steps + 2)]
  refine bind_congr fun flow => ?_
  cases flow with
  | returned value => rfl
  | normal =>
      -- Nothing follows the last statement.
      rw [direct_succ iterations context (steps + 1)]
      refine (bind_congr fun flow => ?_).trans (bind_pure _)
      cases flow <;> rfl

variable {iterations} {context} {body : Stmt} {step : Expr}
  {increment : Option Expr}

/-- With enough steps, an iteration is its statement and then, unless that
returns, its expression. -/
theorem direct_iterate
    (isIteration : iterations.chooses [body, .expression step] = true)
    (steps : Nat) :
    (direct iterations context (steps + 4)).iterate
        (.block [body, .expression step]) =
      (do
        skipFrame
        match ← (direct iterations context (steps + 2)).exec body with
        | .returned value => return .returned value
        | .normal => do
            let _ ← (direct iterations context steps).eval step
            return .normal) := by
  rw [direct_succ]
  simp only [iterateDirectly, isIteration, if_true, direct_execAll_pair]
  rfl

/-- What is no iteration is executed. -/
theorem direct_iterate_plain
    (isNone : ∀ inner, body = .block inner → iterations.chooses inner = false)
    (steps : Nat) :
    (direct iterations context steps).iterate body =
      (direct iterations context steps).exec body := by
  cases steps with
  | zero => rfl
  | succ steps =>
      rw [direct_succ]
      cases body with
      | block inner =>
          simp only [iterateDirectly, isNone inner rfl]
          rfl
      | _ => rfl

/-- A round does what the loop repeats, with a few steps more. -/
theorem round_prolongs
    (reads : iterations.Reads body increment)
    {steps more : Nat}
    (enough : steps + 4 ≤ more) :
    ((direct iterations context more).round increment body).Prolongs
      ((direct iterations context steps).iterate
        (body.forRepeated increment)) := by
  cases increment with
  | none =>
      rw [Stmt.forRepeated, direct_iterate_plain reads]
      exact (direct_prolongs iterations context
        (Nat.le_of_add_right_le enough)).exec body
  | some step =>
      refine Run.Prolongs.trans ?_
        ((direct_prolongs iterations context
          (Nat.le_add_right steps 4)).iterate _)
      rw [Stmt.forRepeated, direct_iterate reads]
      refine Run.Prolongs.andThen (.refl _) fun _ => ?_
      refine Run.Prolongs.andThen
        ((direct_prolongs iterations context (by omega)).exec body) ?_
      intro flow
      cases flow with
      | returned value => exact .refl _
      | normal =>
          have grows :=
            direct_prolongs iterations context (Nat.le_of_add_right_le enough)
          exact Run.Prolongs.andThen (grows.eval step) fun _ => .refl _

/-- What the loop repeats does a round, with a few steps more. -/
theorem prolongs_round
    (reads : iterations.Reads body increment)
    {steps more : Nat}
    (enough : steps + 4 ≤ more) :
    ((direct iterations context more).iterate
      (body.forRepeated increment)).Prolongs
      ((direct iterations context steps).round increment body) := by
  cases increment with
  | none =>
      rw [Stmt.forRepeated, direct_iterate_plain reads]
      exact (direct_prolongs iterations context
        (Nat.le_of_add_right_le enough)).exec body
  | some step =>
      refine Run.Prolongs.trans
        ((direct_prolongs iterations context enough).iterate _) ?_
      rw [Stmt.forRepeated, direct_iterate reads]
      refine Run.Prolongs.andThen (.refl _) fun _ => ?_
      refine Run.Prolongs.andThen
        ((direct_prolongs iterations context (Nat.le_add_right steps 2)).exec
          body) ?_
      intro flow
      exact .refl _

/-- The condition has its value in one step more. -/
theorem guard_prolongs
    (condition : Option Expr)
    {steps more : Nat}
    (enough : steps ≤ more) :
    ((direct iterations context more).guard condition).Prolongs
      ((direct iterations context steps).eval
        (Expr.forCondition condition)) := by
  cases condition with
  | some condition =>
      exact (direct_prolongs iterations context enough).eval condition
  | none =>
      cases steps with
      | zero => exact .ofExhausted _
      | succ steps => exact .refl _

/-- The expression for the condition has the same value, in one step more. -/
theorem prolongs_guard
    (condition : Option Expr)
    {steps more : Nat}
    (enough : steps + 1 ≤ more) :
    ((direct iterations context more).eval
      (Expr.forCondition condition)).Prolongs
      ((direct iterations context steps).guard condition) := by
  cases condition with
  | some condition =>
      exact (direct_prolongs iterations context (Nat.le_of_succ_le enough)).eval
        condition
  | none =>
      cases more with
      | zero => exact absurd enough (Nat.not_succ_le_zero steps)
      | succ more => exact .refl _

/-- The rounds do what the loop does. -/
theorem rounds_prolongs
    (context : Context)
    (reads : iterations.Reads body increment)
    (condition : Option Expr)
    {steps more : Nat}
    (enough : steps + 4 ≤ more) :
    ((direct iterations context more).rounds condition increment body
      steps).Prolongs
      ((direct iterations context steps).execLoop (Expr.forCondition condition)
        (body.forRepeated increment)) := by
  induction steps with
  | zero => exact .ofExhausted _
  | succ steps inductionHypothesis =>
      refine Run.Prolongs.andThen (guard_prolongs condition (by omega))
        fun value => ?_
      split
      · refine Run.Prolongs.andThen (round_prolongs reads (by omega))
          fun flow => ?_
        cases flow with
        | returned value => exact .refl _
        | normal => exact inductionHypothesis (by omega)
      · exact .refl _

/-- The loop does what so many rounds do. -/
theorem prolongs_rounds
    (context : Context)
    (reads : iterations.Reads body increment)
    (condition : Option Expr)
    (steps limit : Nat) :
    ((direct iterations context (steps + 4 + limit)).execLoop
      (Expr.forCondition condition)
        (body.forRepeated increment)).Prolongs
      ((direct iterations context steps).rounds condition increment
        body limit) := by
  induction limit with
  | zero => exact .ofExhausted _
  | succ limit inductionHypothesis =>
      have enough : steps + 4 ≤ steps + 4 + limit := Nat.le_add_right _ _
      refine Run.Prolongs.andThen
        (prolongs_guard condition (Nat.le_trans (by omega) enough))
        fun value => ?_
      split
      · refine Run.Prolongs.andThen (prolongs_round reads enough) fun flow => ?_
        cases flow with
        | returned value => exact .refl _
        | normal => exact inductionHypothesis
      · exact .refl _

/-- The block of an initializer and a loop, with enough steps. -/
theorem direct_exec_initialized
    (first loop : Stmt)
    (steps : Nat) :
    (direct iterations context (steps + 4)).exec (.block [first, loop]) = (do
      let frame ← allocate ⟨NameMap.empty, some (← get).active⟩
      inFrame frame do
        match ← (direct iterations context (steps + 2)).exec first with
        | .returned value => return .returned value
        | .normal => (direct iterations context (steps + 1)).exec loop) := by
  rw [direct_succ]
  simp only [next, execNext, direct_execAll_pair]

/-- Executed directly, a `for` loop does what it does in terms of other
statements. -/
theorem forDirectly_prolongs
    (reads : iterations.Reads body increment)
    (initializer : Option Stmt)
    (condition : Option Expr)
    (steps : Nat) :
    ((direct iterations context (steps + 4)).forDirectly initializer condition
      increment body
        steps).Prolongs
      ((direct iterations context steps).exec
        (Stmt.forLoop initializer condition increment body)) := by
  have loops :=
    rounds_prolongs context reads condition (Nat.le_refl (steps + 4))
  cases initializer with
  | none =>
      rw [Stmt.forLoop_none]
      exact loops.trans
        ((direct_prolongs iterations context (Nat.le_succ steps)).exec _)
  | some first =>
      refine Run.Prolongs.trans ?_
        ((direct_prolongs iterations context (Nat.le_add_right steps 4)).exec _)
      rw [Stmt.forLoop_some, direct_exec_initialized]
      refine Run.Prolongs.andThen (.refl _) fun machine => ?_
      refine Run.Prolongs.andThen (.refl _) fun frame => ?_
      refine Run.Prolongs.inFrame (Run.Prolongs.andThen ?_ fun flow => ?_) frame
      · exact (direct_prolongs iterations context (by omega)).exec first
      · cases flow with
        | returned value => exact .refl _
        | normal => exact loops

/-- In terms of other statements, a `for` loop does what it does executed
directly. -/
theorem prolongs_forDirectly
    (reads : iterations.Reads body increment)
    (initializer : Option Stmt)
    (condition : Option Expr)
    (steps limit : Nat) :
    ((direct iterations context (steps + 4 + limit + 4)).exec
        (Stmt.forLoop initializer condition increment body)).Prolongs
      ((direct iterations context steps).forDirectly initializer condition
        increment body limit) := by
  have loops := prolongs_rounds context reads condition steps limit
  cases initializer with
  | none =>
      rw [Stmt.forLoop_none]
      exact ((direct_prolongs iterations context
        (Nat.le_add_right _ 3)).execLoop _ _).trans loops
  | some first =>
      rw [Stmt.forLoop_some, direct_exec_initialized]
      refine Run.Prolongs.andThen (.refl _) fun machine => ?_
      refine Run.Prolongs.andThen (.refl _) fun frame => ?_
      refine Run.Prolongs.inFrame (Run.Prolongs.andThen ?_ fun flow => ?_) frame
      · exact (direct_prolongs iterations context (by omega)).exec first
      · cases flow with
        | returned value => exact .refl _
        | normal => exact loops

/-- A `for` loop that ends, in terms of other statements or executed directly,
ends alike both ways. -/
theorem exec_forLoop_iff
    (reads : iterations.Reads body increment)
    (initializer : Option Stmt)
    (condition : Option Expr)
    {machine : Machine}
    {result : EStateM.Result Halt Machine Flow}
    (finished : ∀ after, result ≠ .error .exhausted after) :
    (∃ steps, (direct iterations context steps).exec
        (Stmt.forLoop initializer condition increment body) machine = result) ↔
      ∃ steps limit,
        (direct iterations context steps).forDirectly initializer
        condition increment body limit machine = result := by
  constructor
  · rintro ⟨steps, rfl⟩
    exact ⟨_, _, (forDirectly_prolongs reads initializer condition steps).eq
      finished⟩
  · rintro ⟨steps, limit, rfl⟩
    exact ⟨_, (prolongs_forDirectly reads initializer condition steps limit).eq
      finished⟩

end Steps

end Evaluator

end LoxScript
