import LoxScript.Proofs.Machine.Deeds
import LoxScript.Proofs.Seclusion.State

namespace LoxScript

/-!
# Where declarations land

A declaration gives its name to the frame that it is executed in.  For a task,
that is a frame that is added after the task was come to, or the frame of the
task itself, or the global frame: in the frame of the task only statements of
the task itself declare names, and in the global frame only those at the top
level of sources that are included meanwhile.
-/

open Run

/-- The statements that a task executes in the frame it starts in and that may
declare names. -/
def Task.statements : Task → List Stmt
  | .exec statement => [statement]
  | .execAll statements => statements
  | _ => []

/-- Branches and loop bodies of the task declare nothing. -/
def Task.Orderly : Task → Prop
  | .exec statement => statement.Orderly
  | .execAll statements => Stmt.OrderlyAll statements
  | .execLoop condition body => (Stmt.loop condition body).Orderly
  | _ => True

/-- The other task is orderly as well, and declares nothing that the first one
does not. -/
structure Task.Confines (task other : Task) : Prop where
  orderly : other.Orderly
  statements :
    ∀ statement ∈ other.statements, statement.declared? ≠ none →
      statement ∈ task.statements

/-- A declaration of the name that stands at the top level of an included source
is completed. -/
def Deed.Publishes (deeds : List Deed) (name : String) : Prop :=
  ∃ program loaded statement start after,
    .included program loaded ∈ deeds ∧ statement ∈ program.statements ∧
      .declared statement start after ∈ deeds ∧ start.active = globalFrame ∧
        statement.Declares name

variable {context : Context} {steps : Nat} {task other : Task}
  {machine after start ended : Machine}
variable {statement : Stmt} {program : Program} {loaded : Machine}

/-- A task is confined to what the one declares that asks for it, unless it is
asked for in a new frame or is to execute a source that has been loaded. -/
theorem Calls.confines
    (calls : Calls context steps task machine other after) :
    (task.Orderly → task.Confines other) ∨
      after.active = machine.store.nextFrame ∨
      ∃ keyword path program loaded,
        task = .exec (.require keyword path) ∧
          other = .execAll program.statements ∧
          after.active = globalFrame ∧
          loadRequired context keyword path machine = .ok program loaded := by
  cases calls with
  | body allocates | block allocates =>
      cases allocates
      exact .inr (.inl rfl)
  | required loads => exact .inr (.inr ⟨_, _, _, _, rfl, rfl, rfl, loads⟩)
  | @thenBranch _ _ elseBranch _ _ _ _ _ =>
      refine .inl fun orderly => ?_
      cases elseBranch with
      | none =>
          simp only [Task.Orderly, Stmt.Orderly] at orderly
          exact ⟨orderly.2, by simp [Task.statements, orderly.1]⟩
      | some branch =>
          simp only [Task.Orderly, Stmt.Orderly] at orderly
          exact ⟨orderly.1.2, by simp [Task.statements, orderly.1.1]⟩
  | elseBranch _ _ =>
      refine .inl fun orderly => ?_
      simp only [Task.Orderly, Stmt.Orderly] at orderly
      exact ⟨orderly.2.2, by simp [Task.statements, orderly.2.1]⟩
  | repeated _ _ =>
      refine .inl fun orderly => ?_
      simp only [Task.Orderly, Stmt.Orderly] at orderly
      exact ⟨orderly.2, by simp [Task.statements, orderly.1]⟩
  | firstStmt =>
      refine .inl fun orderly => ?_
      simp only [Task.Orderly, Stmt.OrderlyAll] at orderly
      exact ⟨orderly.1, by simp [Task.statements]⟩
  | restStmts _ =>
      refine .inl fun orderly => ?_
      simp only [Task.Orderly, Stmt.OrderlyAll] at orderly
      exact ⟨orderly.2, fun _ member _ => .tail _ member⟩
  | loop | again _ _ _ =>
      exact .inl fun orderly => ⟨orderly, by simp [Task.statements]⟩
  | _ => exact .inl fun _ => ⟨trivial, by simp [Task.statements]⟩

/-- A declaration asks for nothing but the value of an expression, and changes
nothing before. -/
theorem Calls.of_declaration
    (calls : Calls context steps (.exec statement) machine other after)
    (declares : statement.declared? ≠ none) :
    ∃ expr, other = .eval expr ∧ after = machine := by
  cases calls with
  | initialized | superclass => exact ⟨_, rfl, rfl⟩
  | _ => exact absurd rfl declares

namespace Task

/-- What is done by a task that is asked for is done while the one is done that
asks for it. -/
theorem mem_deeds_of_calls
    {deed : Deed}
    (calls : Calls context steps task machine other after)
    (member : deed ∈ other.deeds context steps after) :
    deed ∈ task.deeds context (steps + 1) machine :=
  mem_deeds_succ_iff.mpr (.inr ⟨other, after, calls, member⟩)

/-- What is declared while a task is done is declared in a frame that has been
added meanwhile, or in the frame of the task by one of its own statements, or in
the global frame by a statement at the top level of a source that has been
included meanwhile. -/
theorem lands
    (member :
      .declared statement start ended ∈ task.deeds context steps machine) :
    statement.declared? ≠ none ∧
      (machine.store.nextFrame ≤ start.active ∨
        (start.active = machine.active ∧
          (task.Orderly → statement ∈ task.statements)) ∨
        (start.active = globalFrame ∧
          ∃ program loaded,
            .included program loaded ∈ task.deeds context steps machine ∧
            statement ∈ program.statements)) := by
  induction steps generalizing task machine with
  | zero => simp [deeds, Chronicle.list, doing] at member
  | succ steps inductionHypothesis =>
      rcases mem_deeds_succ_iff.mp member with
        does | ⟨other, after, calls, memberInner⟩
      · cases does with
        | declares declares _ =>
            exact ⟨declares,
              .inr (.inl ⟨rfl, fun _ => List.mem_singleton_self _⟩)⟩
      · obtain ⟨declares, places⟩ := inductionHypothesis memberInner
        have included {keyword : Token} {path : String} {program : Program}
            {loaded : Machine}
            (isGlobal : start.active = globalFrame)
            (isOwn : (Task.execAll program.statements).Orderly →
              statement ∈ program.statements)
            (loads :
              loadRequired context keyword path machine = .ok program loaded) :
            start.active = globalFrame ∧ ∃ program loaded,
              .included program loaded ∈
                (Task.exec (.require keyword path)).deeds context
                (steps + 1) machine ∧
              statement ∈ program.statements := by
          obtain ⟨source, next, -, accepted⟩ := accepted_of_loadRequired loads
          exact ⟨isGlobal, program, loaded, mem_deeds_succ_iff.mpr
            (.inl (.includes loads)), isOwn (Program.compile_made accepted).1.2⟩
        obtain ⟨middle, extend, seats⟩ :=
          calls.between Machine.respected_extends
        refine ⟨declares, ?_⟩
        rcases places with
          later | ⟨same, isOwn⟩ | ⟨isGlobal, program, loaded, isIncluded, isTop⟩
        · refine .inl (Nat.le_trans ?_ later)
          cases seats <;> exact extend.size
        · rcases calls.confines with
            confines | isNew | ⟨keyword, path, program, loaded, rfl, rfl,
              isGlobal, loads⟩
          · cases seats with
            | here =>
                refine .inr (.inl ⟨same.trans extend.active, fun orderly => ?_⟩)
                obtain ⟨orderlyOther, within⟩ := confines orderly
                exact within statement (isOwn orderlyOther) declares
            | frame => exact .inl (Nat.le_of_eq same.symm)
            | source loads => exact .inr (.inr (included same isOwn loads))
          · exact .inl (Nat.le_of_eq (same.trans isNew).symm)
          · exact .inr (.inr (included (same.trans isGlobal) isOwn loads))
        · exact .inr (.inr
            ⟨isGlobal, program, loaded, mem_deeds_of_calls calls isIncluded,
              isTop⟩)

/-- A task merges no natives. -/
theorem merged_notMem_deeds
    (native : Native)
    (merged : Machine) :
    .merged native merged ∉ task.deeds context steps machine := by
  induction steps generalizing task machine with
  | zero => simp [deeds, Chronicle.list, doing]
  | succ steps inductionHypothesis =>
      intro member
      rcases mem_deeds_succ_iff.mp member with does | ⟨_, _, _, inner⟩
      · cases does
      · exact inductionHypothesis inner

end Task

section Names

variable {frame : FrameId} {name : String} {deed : Deed}
  {deeds more : List Deed}

/-- What is published by some deeds is so by more. -/
theorem Deed.Publishes.mono
    (publishes : Deed.Publishes deeds name)
    (subset : ∀ deed ∈ deeds, deed ∈ more) :
    Deed.Publishes more name := by
  obtain ⟨program, loaded, statement, start, ended, isIncluded, isTop,
    isDeclared, rest⟩ := publishes
  exact ⟨program, loaded, statement, start, ended, subset _ isIncluded, isTop,
    subset _ isDeclared, rest⟩

/-- What is published is given to the global frame. -/
theorem Deed.Publishes.names
    (publishes : Deed.Publishes deeds name) :
    ∃ deed ∈ deeds, deed.Names globalFrame name := by
  obtain ⟨_, _, statement, start, ended, -, -, isDeclared, isGlobal,
    declares⟩ := publishes
  exact ⟨.declared statement start ended, isDeclared, isGlobal.symm, declares⟩

/-- To frames that there were, an orderly task gives the names that its own
statements declare in its frame and those that included sources declare in the
global frame. -/
theorem Task.names_of_mem_deeds
    (orderly : task.Orderly)
    (present : frame < machine.store.nextFrame)
    (member : deed ∈ task.deeds context steps machine)
    (names : deed.Names frame name) :
    (frame = machine.active ∧ ∃ statement ∈ task.statements,
      statement.Declares name ∧
        ∃ start ended, deed = .declared statement start ended) ∨
      (frame = globalFrame ∧
        Deed.Publishes (task.deeds context steps machine) name) := by
  cases deed with
  | task _ _ => exact names.elim
  | included _ _ => exact names.elim
  | yielded _ _ _ => exact names.elim
  | set _ _ _ _ => exact names.elim
  | merged native merged =>
      exact absurd member (Task.merged_notMem_deeds native merged)
  | declared statement start ended =>
      obtain ⟨rfl, declares⟩ := names
      obtain ⟨-, later | ⟨same, isOwn⟩ | ⟨isGlobal, program, loaded, isIncluded,
          isTop⟩⟩ :=
        Task.lands member
      · exact absurd present (Nat.not_lt.mpr later)
      · exact .inl ⟨same, statement, isOwn orderly, declares, start, ended, rfl⟩
      · exact .inr ⟨isGlobal, program, loaded, statement, start, ended,
          isIncluded, isTop, member, isGlobal, declares⟩

/-- An expression gives names only to the global frame, and only those that
sources declare which are included meanwhile. -/
theorem eval_names_iff
    (context : Context)
    (steps : Nat)
    (expr : Expr)
    (present : frame < machine.store.nextFrame)
    (name : String) :
    (∃ deed ∈ (Task.eval expr).deeds context steps machine,
      deed.Names frame name) ↔
      frame = globalFrame ∧
        Deed.Publishes ((Task.eval expr).deeds context steps machine) name := by
  constructor
  · rintro ⟨deed, member, names⟩
    have asTask : (Task.eval expr).Orderly := trivial
    rcases Task.names_of_mem_deeds asTask present member names with
      ⟨-, _, isOwn, -⟩ | publishes
    · cases isOwn
    · exact publishes
  · rintro ⟨rfl, publishes⟩
    exact publishes.names

/-- A statement gives the frame it is executed in the name that it declares, if
it ends without an error, and gives the global frame the names that sources
declare which are included meanwhile. -/
theorem exec_names_iff
    (context : Context)
    (steps : Nat)
    (orderly : statement.Orderly)
    (present : frame < machine.store.nextFrame)
    (name : String) :
    (∃ deed ∈ (Task.exec statement).deeds context steps machine,
      deed.Names frame name) ↔
      (frame = machine.active ∧ statement.Declares name ∧
          ∃ flow after, exec context steps statement machine = .ok flow after) ∨
        (frame = globalFrame ∧
          Deed.Publishes ((Task.exec statement).deeds context steps machine)
            name) := by
  constructor
  · rintro ⟨deed, member, names⟩
    have asTask : (Task.exec statement).Orderly := orderly
    rcases Task.names_of_mem_deeds asTask present member names with
      ⟨same, other, isOwn, declares, start, ended, rfl⟩ | publishes
    · cases List.mem_singleton.mp isOwn
      have declared := (Task.lands member).1
      cases steps with
      | zero => simp [Task.deeds, Chronicle.list, doing] at member
      | succ steps =>
          rcases Task.mem_deeds_succ_iff.mp member with
            does | ⟨other, after, calls, inner⟩
          · cases does with
            | declares _ executes => exact .inl ⟨same, declares, _, _, executes⟩
          · -- What the value of the initializer declares is not declared by the
            -- statement.
            obtain ⟨expr, rfl, rfl⟩ := calls.of_declaration declared
            obtain ⟨isGlobal, publishes⟩ :=
              (eval_names_iff context steps expr present name).mp
                ⟨_, inner, names⟩
            exact .inr ⟨isGlobal, publishes.mono fun _ =>
              Task.mem_deeds_of_calls calls⟩
    · exact .inr publishes
  · rintro (⟨rfl, declares, flow, after, yields⟩ | ⟨rfl, publishes⟩)
    · obtain ⟨token, declared, -⟩ := id declares
      cases steps with
      | zero => cases yields
      | succ steps =>
          exact ⟨.declared statement machine after,
            Task.mem_deeds_succ_iff.mpr
              (.inl (.declares (by simp [declared]) yields)),
            rfl, declares⟩
    · exact publishes.names

end Names

/-- Whatever an expression does and however it ends, frames that there were keep
the names that they have and get none, but for those that included sources
declare. -/
theorem names_eval
    (context : Context)
    (steps : Nat)
    (expr : Expr)
    (machine : Machine) :
    let published (frame : FrameId) (name : String) :=
      frame = globalFrame ∧
        Deed.Publishes ((Task.eval expr).deeds context steps machine) name
    Leads (eval context steps expr) machine
      (fun _ after => machine.store.NamesGrow published after.store)
      (fun _ after => machine.store.NamesGrow published after.store) := by
  have grow {after : Store}
      (records : machine.store.Records
        ((Task.eval expr).deeds context steps machine) after) :=
    Store.NamesGrow.mk records.retains.frames fun frame present name =>
      (records.holds_iff present name).trans
        (or_congr_right (eval_names_iff context steps expr present name))
  exact (records_task context steps (.eval expr) machine).weaken
    (fun _ _ => grow) fun _ _ => grow

/-- Whatever a statement does, frames that there were keep the names that they
have.  The frame that it is executed in gets the name that the statement
declares, if the statement ends without an error, and the global frame gets
those that included sources declare. -/
theorem names_exec
    (context : Context)
    (steps : Nat)
    (orderly : statement.Orderly)
    (machine : Machine) :
    let published (frame : FrameId) (name : String) :=
      frame = globalFrame ∧
        Deed.Publishes ((Task.exec statement).deeds context steps machine) name
    Leads (exec context steps statement) machine
      (fun _ after =>
        machine.store.NamesGrow
          (fun frame name =>
            (frame = machine.active ∧ statement.Declares name) ∨
          published frame name)
          after.store)
      (fun _ after => machine.store.NamesGrow published after.store) := by
  intro published
  have records := records_task context steps (.exec statement) machine
  have names {frame : FrameId} (present : frame < machine.store.nextFrame)
      (name : String) :=
    exec_names_iff context steps orderly present name
  unfold Leads Task.run at *
  cases outcome : exec context steps statement machine with
  | ok flow after =>
      simp only [outcome] at records names ⊢
      refine ⟨records.retains.frames, fun frame present name => ?_⟩
      rw [records.holds_iff present, names present]
      simp [published]
  | error halt after =>
      simp only [outcome] at records names ⊢
      refine ⟨records.retains.frames, fun frame present name => ?_⟩
      rw [records.holds_iff present, names present]
      simp [published]

end LoxScript
