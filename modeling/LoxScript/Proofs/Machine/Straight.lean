import Mathlib
import LoxScript.Proofs.Compilation.Elsewhere
import LoxScript.Proofs.Session.Restoration

namespace LoxScript

/-!
# Straight code ends

Code without calls and loops does one thing after another, so it can only run
for ever by requiring source after source.  A source that is being executed is
not required again: where a library serves finitely many paths, fewer of them
are left with every source that is entered.
-/

open Run

/-- The expression calls nothing. -/
def Expr.isStraight : Expr → Bool
  | .literal _ | .reference _ _ | .thisRef _ _ | .superRef _ _ _ => true
  | .grouping inner => inner.isStraight
  | .unary _ operand => operand.isStraight
  | .binary left _ right => left.isStraight && right.isStraight
  | .logical left _ right => left.isStraight && right.isStraight
  | .assign _ _ value => value.isStraight
  | .get object _ => object.isStraight
  | .set object _ value => object.isStraight && value.isStraight
  | .call _ _ _ => false

mutual

/-- The statement calls nothing and repeats nothing; bodies of functions do not
count. -/
def Stmt.isStraight : Stmt → Bool
  | .print value => value.isStraight
  | .expression value => value.isStraight
  | .varDecl _ none => true
  | .varDecl _ (some initializer) => initializer.isStraight
  | .block body => Stmt.areStraight body
  | .conditional condition thenBranch none =>
      condition.isStraight && thenBranch.isStraight
  | .conditional condition thenBranch (some elseBranch) =>
      condition.isStraight && (thenBranch.isStraight && elseBranch.isStraight)
  | .loop _ _ => false
  | .funDecl _ => true
  | .ret _ none => true
  | .ret _ (some value) => value.isStraight
  | .classDecl _ _ _ => true
  | .require _ _ => true

/-- The statements call nothing and repeat nothing. -/
def Stmt.areStraight : List Stmt → Bool
  | [] => true
  | first :: rest => first.isStraight && Stmt.areStraight rest

end

/-- The source, if it is accepted, calls nothing and repeats nothing. -/
def Program.IsStraight (source : ByteArray) : Prop :=
  ∀ program next, Program.compile source 0 = (.ok program, next) →
    Stmt.areStraight program.statements = true

section Alike

variable {related : Correspondence}

/-- Expressions that are alike call something alike. -/
theorem Expr.isStraight_of_alike
    (expr : Expr)
    {other : Expr}
    (alike : Expr.Alike related expr other) :
    other.isStraight = expr.isStraight := by
  cases expr with
  | grouping inner =>
      cases alike with
      | grouping alike =>
          simp only [Expr.isStraight, inner.isStraight_of_alike alike]
  | unary operator operand =>
      cases alike with
      | unary _ alike =>
          simp only [Expr.isStraight, operand.isStraight_of_alike alike]
  | binary left operator right =>
      cases alike with
      | binary alikeLeft _ alikeRight =>
          simp only [Expr.isStraight, left.isStraight_of_alike alikeLeft,
            right.isStraight_of_alike alikeRight]
  | logical left operator right =>
      cases alike with
      | logical alikeLeft _ alikeRight =>
          simp only [Expr.isStraight, left.isStraight_of_alike alikeLeft,
            right.isStraight_of_alike alikeRight]
  | assign id name value =>
      cases alike with
      | assign _ _ alike =>
          simp only [Expr.isStraight, value.isStraight_of_alike alike]
  | get object name =>
      cases alike with
      | get alike _ =>
          simp only [Expr.isStraight, object.isStraight_of_alike alike]
  | set object name value =>
      cases alike with
      | set alikeObject _ alikeValue =>
          simp only [Expr.isStraight, object.isStraight_of_alike alikeObject,
            value.isStraight_of_alike alikeValue]
  | _ =>
      cases alike
      rfl

mutual

/-- Statements that are alike call or repeat something alike. -/
theorem Stmt.isStraight_of_alike :
    (statement : Stmt) → {other : Stmt} → Stmt.Alike related statement other →
      other.isStraight = statement.isStraight
  | .print value, _, .print alike => value.isStraight_of_alike alike
  | .expression value, _, .expression alike => value.isStraight_of_alike alike
  | .varDecl _ none, _, .varDecl _ .none => rfl
  | .varDecl _ (some initializer), _, .varDecl _ (.some alike) =>
      initializer.isStraight_of_alike alike
  | .block body, _, .block statements =>
      Stmt.areStraight_of_alike body statements
  | .conditional condition thenBranch none, _,
    .conditional alike branch .none => by
      simp only [Stmt.isStraight, condition.isStraight_of_alike alike,
        thenBranch.isStraight_of_alike branch]
  | .conditional condition thenBranch (some elseBranch), _,
      .conditional alike branch (.some other) => by
      simp only [Stmt.isStraight, condition.isStraight_of_alike alike,
        thenBranch.isStraight_of_alike branch,
          elseBranch.isStraight_of_alike other]
  | .loop _ _, _, .loop _ _ => rfl
  | .funDecl _, _, .funDecl _ => rfl
  | .ret _ none, _, .ret _ .none => rfl
  | .ret _ (some value), _, .ret _ (.some alike) =>
      value.isStraight_of_alike alike
  | .classDecl _ _ _, _, .classDecl _ _ _ => rfl
  | .require _ _, _, .require _ => rfl

/-- Statements in a row that are alike call or repeat something alike. -/
theorem Stmt.areStraight_of_alike :
    (statements : List Stmt) → {others : List Stmt} →
      List.Forall₂ (Stmt.Alike related) statements others →
      Stmt.areStraight others = Stmt.areStraight statements
  | [], _, .nil => rfl
  | first :: rest, _, .cons alike others => by
      simp only [Stmt.areStraight, first.isStraight_of_alike alike,
        Stmt.areStraight_of_alike rest others]

end

end Alike

/-- A straight source is straight whatever identities are handed out for its
nodes. -/
theorem Program.IsStraight.areStraight
    {source : ByteArray}
    {first next : NodeId}
    {program : Program}
    (straight : Program.IsStraight source)
    (accepted : Program.compile source first = (.ok program, next)) :
    Stmt.areStraight program.statements = true := by
  have alike := Program.compile_alike source 0 first
  rw [accepted] at alike
  generalize outcome : Program.compile source 0 = result at alike
  cases alike with
  | accepted programs =>
      rw [Stmt.areStraight_of_alike _ programs.statements]
      exact straight _ _ outcome

/-- However it ends, the step does not run out of steps. -/
def Run.Definite (step : Run α) : Prop :=
  ∀ machine, Leads step machine (fun _ _ => True)
    (fun halt _ => halt ≠ .exhausted)

namespace Run.Definite

variable {step : Run α}

theorem ofPure
    (value : α) :
    Definite (pure value : Run α) :=
  fun _ => trivial

theorem ofFail
    (error : RuntimeError) :
    Definite (fail error : Run α) :=
  fun _ => nofun

theorem ofModifyGet
    (change : Machine → α × Machine) :
    Definite (modifyGet change : Run α) :=
  fun _ => trivial

/-- One step after the other. -/
theorem andThen
    {next : α → Run β}
    (definite : Definite step)
    (definiteNext : ∀ value, Definite (next value)) :
    Definite (step >>= next) := by
  intro machine
  refine Leads.bind ((definite machine).weaken ?_ fun _ _ holds => holds)
  intro value middle _
  exact definiteNext value middle

/-- A step that looks at the machine first. -/
theorem look
    {next : Machine → Run β}
    (definiteNext : ∀ machine, Definite (next machine)) :
    Definite (get >>= next) :=
  fun machine => definiteNext machine machine

/-- A step whose value is changed. -/
theorem map
    {change : α → β}
    (definite : Definite step) :
    Definite (change <$> step) :=
  fun machine => Leads.map (definite machine)

/-- A step that is refused in some cases. -/
theorem guarded
    {refused : Bool}
    {error : RuntimeError}
    (definite : Definite step) :
    Definite (do
      if refused then fail error
      step) := by
  cases refused with
  | true => exact .andThen (.ofFail error) fun _ => definite
  | false => exact definite

end Run.Definite

section Steps

theorem definite_ofExcept
    (result : Except RuntimeError Value) :
    Definite (Run.ofExcept result) := by
  cases result with
  | ok value => exact .ofPure value
  | error error => exact .ofFail error

theorem definite_readVariable
    (id : NodeId)
    (name : Token) :
    Definite (readVariable id name) := by
  refine .look fun machine => ?_
  split
  · split
    · exact .ofPure _
    · exact .ofFail _
  · split
    · exact .ofPure _
    · exact .ofFail _

theorem definite_assignVariable
    (id : NodeId)
    (name : Token)
    (value : Value) :
    Definite (assignVariable id name value) := by
  refine .andThen (.look fun machine => ?_) fun frame => .ofModifyGet _
  split
  · split
    · exact .ofPure _
    · exact .ofFail _
  · split
    · exact .ofPure _
    · exact .ofFail _

theorem definite_closeOver
    (declaration : FunctionDecl)
    (closure : FrameId)
    (isInitializer : Bool) :
    Definite (closeOver declaration closure isInitializer) :=
  .andThen (.ofModifyGet _) fun _ => .ofPure _

theorem definite_bind
    (method : Function)
    (object : Instance) :
    Definite (Run.bind method object) :=
  .andThen (.ofModifyGet _) fun _ => definite_closeOver _ _ _

theorem definite_getProperty
    (object : Instance)
    (name : Token) :
    Definite (getProperty object name) := by
  refine .look fun machine => ?_
  split
  · exact .ofPure _
  · split
    · exact .andThen (definite_bind _ object) fun _ => .ofPure _
    · exact .ofFail _

theorem definite_readSuper
    (id : NodeId)
    (keyword method : Token) :
    Definite (readSuper id keyword method) := by
  have parts : Definite (superParts id keyword) := by
    refine .look fun machine => ?_
    dsimp only
    split
    · exact .ofFail _
    · split
      · split
        · exact .ofFail _
        · split
          · exact .ofPure _
          · exact .ofFail _
      · exact .ofFail _
  refine parts.andThen fun found => ?_
  dsimp only
  split
  · exact .andThen (definite_bind _ _) fun _ => .ofPure _
  · exact .ofFail _

theorem definite_write
    (text : String) :
    Definite (write text) := by
  refine .look fun machine => .andThen (.ofModifyGet _) fun _ => ?_
  split
  · exact .ofFail _
  · exact .ofPure _

theorem definite_closeOverMethods
    (closure : FrameId)
    (table : NameMap Function)
    (methods : List FunctionDecl) :
    Definite (closeOverMethods closure table methods) := by
  induction methods generalizing table with
  | nil => exact .ofPure table
  | cons declaration rest inductionHypothesis =>
      exact .andThen (definite_closeOver _ _ _) fun _ => inductionHypothesis _

theorem definite_declareClass
    (name : Token)
    (superclass : Option SuperclassRef)
    (methods : List FunctionDecl) :
    Definite (declareClass name superclass methods) := by
  rw [declareClass_eq]
  refine .andThen ?_ fun parent => .andThen (.ofModifyGet _) fun _ =>
      .andThen ?_ fun closure =>
    .andThen (definite_closeOverMethods _ _ _) fun table =>
        .andThen (.ofModifyGet _) fun _ =>
      .ofModifyGet _
  · cases superclass with
    | none => exact .ofPure none
    | some named =>
        refine .map (.andThen (definite_readVariable _ _) fun value => ?_)
        cases value with
        | blueprint found => exact .ofPure found
        | _ => exact .ofFail _
  · refine .look fun machine => ?_
    cases parent with
    | none => exact .ofPure _
    | some found => exact .ofModifyGet _

theorem definite_loadRequired
    (context : Context)
    (keyword : Token)
    (path : String) :
    Definite (loadRequired context keyword path) := by
  refine .look fun machine => .guarded ?_
  cases context.library path with
  | error failure => exact .ofFail _
  | ok source =>
      refine .andThen (.ofModifyGet _) fun verdict => ?_
      cases verdict with
      | error error => exact .ofFail _
      | ok program => exact .andThen (.ofModifyGet _) fun _ => .ofPure _

end Steps

/-- With enough steps, the step comes to an end that more steps do not
change. -/
def Run.Terminates (step : Nat → Run α) (machine : Machine) : Prop :=
  ∃ enough result, (∀ after, result ≠ .error .exhausted after) ∧
    ∀ steps, enough ≤ steps → step steps machine = result

namespace Run.Terminates

variable {step : Nat → Run α} {machine : Machine}

/-- A step that needs no steps. -/
theorem ofDefinite
    {step : Run α}
    (definite : Definite step)
    (machine : Machine) :
    Terminates (fun _ => step) machine := by
  refine ⟨0, step machine, fun after exhausted => ?_, fun _ _ => rfl⟩
  exact Leads.error (definite machine) exhausted rfl

/-- A step that needs one step more. -/
theorem succ
    (terminates : Terminates (fun steps => step (steps + 1)) machine) :
    Terminates step machine := by
  obtain ⟨enough, result, finished, same⟩ := terminates
  refine ⟨enough + 1, result, finished, fun steps atLeast => ?_⟩
  cases steps with
  | zero => cases atLeast
  | succ fewer => exact same fewer (Nat.le_of_succ_le_succ atLeast)

/-- One step after the other. -/
theorem andThen
    {next : Nat → α → Run β}
    (terminates : Terminates step machine)
    (terminatesNext :
      ∀ steps value middle, step steps machine = .ok value middle →
        Terminates (fun steps => next steps value) middle) :
    Terminates (fun steps => step steps >>= next steps) machine := by
  obtain ⟨enough, result, finished, same⟩ := terminates
  cases result with
  | ok value middle =>
      obtain ⟨further, last, finishedLast, sameLast⟩ :=
        terminatesNext enough value middle (same enough (Nat.le_refl enough))
      refine ⟨max enough further, last, finishedLast, fun steps atLeast => ?_⟩
      have yields :=
        same steps (Nat.le_trans (Nat.le_max_left enough further) atLeast)
      exact (bind_of_ok yields).trans
        (sameLast steps
          (Nat.le_trans (Nat.le_max_right enough further) atLeast))
  | error halt middle =>
      refine ⟨enough, .error halt middle, ?_, fun steps atLeast =>
        bind_of_error (same steps atLeast)⟩
      rintro after ⟨⟩
      exact finished middle rfl

/-- A step in another frame. -/
theorem inFrame
    {frame : FrameId}
    (terminates : Terminates step { machine with active := frame }) :
    Terminates (fun steps => Run.inFrame frame (step steps)) machine := by
  obtain ⟨enough, result, finished, same⟩ := terminates
  refine ⟨enough, Run.inFrame frame (fun _ => result) machine, ?_,
    fun steps atLeast => ?_⟩
  · intro after exhausted
    cases result with
    | ok value last => cases exhausted
    | error halt last =>
        cases exhausted
        exact finished last rfl
  · simp only [Run.inFrame, same steps atLeast]

/-- A step as part of a required source. -/
theorem whileRequiring
    {path : String}
    (terminates :
      Terminates step { machine with requiring := path :: machine.requiring }) :
    Terminates (fun steps => Run.whileRequiring path (step steps)) machine := by
  obtain ⟨enough, result, finished, same⟩ := terminates
  refine ⟨enough, Run.whileRequiring path (fun _ => result) machine, ?_,
    fun steps atLeast => ?_⟩
  · intro after exhausted
    cases result with
    | ok value last => cases exhausted
    | error halt last =>
        cases exhausted
        exact finished last rfl
  · simp only [Run.whileRequiring, same steps atLeast]

end Run.Terminates

section Straight

variable {context : Context}

/-- An expression that calls nothing terminates. -/
theorem Expr.terminates
    (machine : Machine) :
    (expr : Expr) → expr.isStraight = true →
      Terminates (fun steps => eval context steps expr) machine
  | .literal _, _ => .succ (.ofDefinite (.ofPure _) machine)
  | .grouping inner, straight => .succ (inner.terminates machine straight)
  | .unary _ operand, straight =>
      .succ <| .andThen (operand.terminates machine straight) fun _ _ after _ =>
        .ofDefinite (definite_ofExcept _) after
  | .binary left _ right, straight => by
      simp only [Expr.isStraight, Bool.and_eq_true] at straight
      refine .succ
        (.andThen (left.terminates machine straight.1) fun _ _ middle _ => ?_)
      exact .andThen (right.terminates middle straight.2) fun _ _ after _ =>
        .ofDefinite (definite_ofExcept _) after
  | .logical left operator right, straight => by
      simp only [Expr.isStraight, Bool.and_eq_true] at straight
      refine .succ
        (.andThen (left.terminates machine straight.1)
          fun _ value middle _ => ?_)
      cases Operator.isSettled operator value with
      | true => exact .ofDefinite (.ofPure _) middle
      | false => exact right.terminates middle straight.2
  | .reference id name, _ =>
      .succ (.ofDefinite (definite_readVariable id name) machine)
  | .assign id name value, straight =>
      .succ <| .andThen (value.terminates machine straight)
        fun _ stored after _ =>
          .ofDefinite
            (.andThen (definite_assignVariable id name stored) fun _ =>
              .ofPure _)
            after
  | .get object name, straight => by
      refine .succ
        (.andThen (object.terminates machine straight)
          fun _ value after _ => ?_)
      cases value with
      | object found =>
          exact .ofDefinite (definite_getProperty found name) after
      | _ => exact .ofDefinite (.ofFail _) after
  | .set object name value, straight => by
      simp only [Expr.isStraight, Bool.and_eq_true] at straight
      refine .succ
        (.andThen (object.terminates machine straight.1)
          fun _ held middle _ => ?_)
      cases held with
      | object found =>
          exact .andThen (value.terminates middle straight.2)
            fun _ stored after _ =>
              .ofDefinite (.andThen (.ofModifyGet _) fun _ =>
                .ofPure stored) after
      | _ => exact .ofDefinite (.ofFail _) middle
  | .thisRef id keyword, _ =>
      .succ (.ofDefinite (definite_readVariable id keyword) machine)
  | .superRef id keyword method, _ =>
      .succ (.ofDefinite (definite_readSuper id keyword method) machine)

/-- Whatever is required while these sources are being executed terminates. -/
def IncludesTerminate (context : Context) (stack : List String) : Prop :=
  ∀ keyword path machine program loaded, machine.requiring = stack →
    loadRequired context keyword path machine = .ok program loaded →
      Terminates (fun steps => execAll context steps program.statements)
        { loaded with
          requiring := path :: loaded.requiring, active := globalFrame }

variable {stack : List String}

mutual

/-- A straight statement terminates if what it requires does. -/
theorem Stmt.terminates
    (includes : IncludesTerminate context stack) :
    (statement : Stmt) → statement.isStraight = true →
      {machine : Machine} → machine.requiring = stack →
        Terminates (fun steps => exec context steps statement) machine
  | .print value, straight, machine, _ =>
      .succ <| .andThen (value.terminates machine straight) fun _ _ after _ =>
        .ofDefinite (.andThen (definite_write _) fun _ => .ofPure _) after
  | .expression value, straight, machine, _ =>
      .succ <| .andThen (value.terminates machine straight) fun _ _ after _ =>
        .ofDefinite (.ofPure _) after
  | .varDecl name none, _, machine, _ =>
      .succ (.ofDefinite (.andThen (.ofModifyGet _) fun _ => .ofPure _) machine)
  | .varDecl name (some initializer), straight, machine, _ =>
      .succ <| .andThen (initializer.terminates machine straight)
        fun _ _ after _ =>
          .ofDefinite (.andThen (.ofModifyGet _) fun _ => .ofPure _) after
  | .block body, straight, machine, sameStack => by
      have inner : Terminates (fun steps => execAll context steps body)
          { machine with
            store := machine.store.allocate ⟨NameMap.empty, some machine.active⟩
            active := machine.store.nextFrame } :=
        Stmt.terminatesAll includes body straight sameStack
      exact .succ (.inFrame inner)
  | .conditional condition thenBranch none, straight, machine, sameStack => by
      simp only [Stmt.isStraight, Bool.and_eq_true] at straight
      refine .succ (.andThen (condition.terminates machine straight.1)
        fun steps value middle yields => ?_)
      have kept :=
        (Machine.respected_sameContext.keeps_task context steps
          (.eval condition)).ok yields
      cases value.isTruthy with
      | true =>
          exact thenBranch.terminates includes straight.2
            (kept.requiring.trans sameStack)
      | false => exact .ofDefinite (.ofPure _) middle
  | .conditional condition thenBranch (some elseBranch), straight, machine,
    sameStack => by
      simp only [Stmt.isStraight, Bool.and_eq_true] at straight
      refine .succ (.andThen (condition.terminates machine straight.1)
        fun steps value middle yields => ?_)
      have kept :=
        (Machine.respected_sameContext.keeps_task context steps
          (.eval condition)).ok yields
      cases value.isTruthy with
      | true =>
          exact thenBranch.terminates includes straight.2.1
            (kept.requiring.trans sameStack)
      | false =>
          exact elseBranch.terminates includes straight.2.2
            (kept.requiring.trans sameStack)
  | .funDecl declaration, _, machine, _ =>
      .succ <| .ofDefinite
        (.andThen (.look fun _ => .andThen (definite_closeOver _ _ _)
          fun _ => .ofModifyGet _)
          fun _ => .ofPure _) machine
  | .ret _ none, _, machine, _ => .succ (.ofDefinite (.ofPure _) machine)
  | .ret _ (some value), straight, machine, _ =>
      .succ <| .andThen (value.terminates machine straight) fun _ _ after _ =>
        .ofDefinite (.ofPure _) after
  | .classDecl name superclass methods, _, machine, _ =>
      .succ <| .ofDefinite
        (.andThen (definite_declareClass name superclass methods) fun _ =>
          .ofPure _) machine
  | .require keyword path, _, machine, sameStack => by
      refine .succ
        (.andThen
          (.ofDefinite (definite_loadRequired context keyword path) machine)
          fun _ program loaded loads => ?_)
      have included :=
        includes keyword path machine program loaded sameStack loads
      exact .andThen (.whileRequiring (.inFrame included)) fun _ _ after _ =>
        .ofDefinite (.ofPure _) after

/-- Straight statements in a row terminate if what they require does. -/
theorem Stmt.terminatesAll
    (includes : IncludesTerminate context stack) :
    (statements : List Stmt) → Stmt.areStraight statements = true →
      {machine : Machine} → machine.requiring = stack →
        Terminates (fun steps => execAll context steps statements) machine
  | [], _, machine, _ => .succ (.ofDefinite (.ofPure _) machine)
  | first :: rest, straight, machine, sameStack => by
      simp only [Stmt.areStraight, Bool.and_eq_true] at straight
      refine .succ (.andThen (first.terminates includes straight.1 sameStack)
        fun steps flow middle yields => ?_)
      have kept :=
        (Machine.respected_sameContext.keeps_task context steps
          (.exec first)).ok yields
      cases flow with
      | normal =>
          exact Stmt.terminatesAll includes rest straight.2
            (kept.requiring.trans sameStack)
      | returned value => exact .ofDefinite (.ofPure _) middle

end

end Straight

end LoxScript
