import LoxScript.Proofs.Machine.Wishes
import LoxScript.Proofs.Session.Endings

namespace LoxScript

/-!
# Stopping between statements

A run looks whether to stop before each statement of its source, and nowhere
else.  The wish to stop may be there from the start, a native may express it
while a statement is executed, and so may the host from elsewhere.  The first
look that sees the wish cuts the run off there: what has begun by then has been
done to its end, and nothing that comes later has begun.  A run of which no look
sees the wish is as it is without looking.
-/

open Run

/-- Runs the top-level statements of a program while the host may express the
wish to stop from elsewhere: whether it has done so by the look before a
statement, and not by the look before the one before, is told for the
statement's index.  What the evaluator does in between disregards the wish. -/
def runStatementsAmid
    (context : Context)
    (steps : Nat) : (Nat → Bool) → List Stmt → Machine → Outcome × Machine
  | _, [], machine => (.finished, machine)
  | wishes, first :: rest, machine =>
      if machine.world.cancelled || wishes 0 then
        (.failed .cancelled, machine.wishing true)
      else
        match exec context steps first machine with
        | .ok .normal after =>
            runStatementsAmid context steps (fun index => wishes (index + 1))
              rest after
        | result => Outcome.ofResult result

section Statements

variable {context : Context} {steps index other : Nat} {wishes : Nat → Bool}
variable {statements : List Stmt} {first : Stmt} {rest : List Stmt}
variable {machine middle cut after : Machine}

/-- A wish that is there cuts off all statements. -/
theorem runStatementsAmid_cons_of_seen
    (seen : machine.world.cancelled = true ∨ wishes 0 = true) :
    runStatementsAmid context steps wishes (first :: rest) machine =
      (.failed .cancelled, machine.wishing true) := by
  rw [runStatementsAmid, if_pos (by simpa using seen)]

/-- A statement that ends normally is followed by the others. -/
theorem runStatementsAmid_cons_of_ok
    (unseen : machine.world.cancelled = false ∧ wishes 0 = false)
    (yields : exec context steps first machine = .ok .normal after) :
    runStatementsAmid context steps wishes (first :: rest) machine =
      runStatementsAmid context steps (fun index => wishes (index + 1))
        rest after := by
  rw [runStatementsAmid, if_neg (by simp [unseen]), yields]

/-- A statement that does not end normally is the last one. -/
theorem runStatementsAmid_cons_of_last
    (unseen : machine.world.cancelled = false ∧ wishes 0 = false)
    (isLast : ∀ after, exec context steps first machine ≠ .ok .normal after) :
    runStatementsAmid context steps wishes (first :: rest) machine =
      Outcome.ofResult (exec context steps first machine) := by
  rw [runStatementsAmid, if_neg (by simp [unseen])]
  split
  · rename_i after yields
    exact absurd yields (isLast after)
  · rfl

/-- The look before the statement with this index is the first one that sees the
wish to stop.  All statements before have ended normally, and this is the
machine then. -/
structure CutsAt
    (context : Context)
    (steps : Nat)
    (wishes : Nat → Bool)
    (statements : List Stmt)
    (machine : Machine)
    (index : Nat)
    (cut : Machine) : Prop where
  within : index < statements.length
  executed : ExecutesAll context steps (statements.take index) machine cut
  seen : cut.world.cancelled = true ∨ wishes index = true
  unseen :
    ∀ earlier < index, ∀ middle,
      ExecutesAll context steps (statements.take earlier) machine middle →
        middle.world.cancelled = false ∧ wishes earlier = false

/-- Statements come to one machine. -/
theorem ExecutesAll.unique
    (executes : ExecutesAll context steps statements machine after)
    (executesToo : ExecutesAll context steps statements machine middle) :
    middle = after := by
  induction executes with
  | nil =>
      cases executesToo
      rfl
  | cons yields _ inductionHypothesis =>
      cases executesToo with
      | cons yieldsToo furtherToo =>
          cases yields.symm.trans yieldsToo
          exact inductionHypothesis furtherToo

/-- Statements that have all ended normally have been run without looking. -/
theorem ExecutesAll.runStatements_unheeding
    (executes : ExecutesAll context steps statements machine after) :
    runStatements context .unheeding steps statements machine =
      (.finished, after) := by
  induction executes with
  | nil => rfl
  | cons yields _ inductionHypothesis =>
      rw [runStatements_cons_of_ok rfl yields, inductionHypothesis]

namespace CutsAt

/-- A run is cut off at one place. -/
theorem unique
    (cuts : CutsAt context steps wishes statements machine index cut)
    (cutsToo : CutsAt context steps wishes statements machine other middle) :
    other = index ∧ middle = cut := by
  have notEarlier {here there : Nat} {last : Machine}
      (cutsHere : CutsAt context steps wishes statements machine here last)
      {final : Machine}
      (cutsThere : CutsAt context steps wishes statements machine there final) :
      ¬ here < there := by
    intro earlier
    obtain ⟨withdrawn, silent⟩ :=
      cutsThere.unseen here earlier last cutsHere.executed
    rcases cutsHere.seen with seen | seen
    · exact Bool.false_ne_true (withdrawn.symm.trans seen)
    · exact Bool.false_ne_true (silent.symm.trans seen)
  have same : other = index :=
    Nat.le_antisymm (Nat.le_of_not_lt (notEarlier cuts cutsToo))
      (Nat.le_of_not_lt (notEarlier cutsToo cuts))
  subst same
  exact ⟨rfl, cuts.executed.unique cutsToo.executed⟩

/-- A wish that is there from the start cuts off everything. -/
theorem zero_iff :
    CutsAt context steps wishes (first :: rest) machine 0 cut ↔
      cut = machine ∧ (machine.world.cancelled = true ∨ wishes 0 = true) := by
  constructor
  · intro cuts
    cases cuts.executed
    exact ⟨rfl, cuts.seen⟩
  · rintro ⟨rfl, seen⟩
    exact ⟨Nat.zero_lt_succ _, .nil, seen, nofun⟩

/-- A wish that cuts off later statements is not seen before the first
statement. -/
theorem starts
    (cuts : CutsAt context steps wishes statements machine (index + 1) cut) :
    machine.world.cancelled = false ∧ wishes 0 = false :=
  cuts.unseen 0 (Nat.zero_lt_succ index) machine .nil

/-- What cuts off later statements is what cuts them off from the second one
on. -/
theorem succ_iff
    (unseen : machine.world.cancelled = false ∧ wishes 0 = false)
    (yields : exec context steps first machine = .ok .normal middle) :
    CutsAt context steps wishes (first :: rest) machine (index + 1) cut ↔
      CutsAt context steps (fun index => wishes (index + 1)) rest middle
        index cut := by
  constructor
  · rintro ⟨within, executed, seen, earlierUnseen⟩
    obtain ⟨start, yieldsToo, executedRest⟩ : ∃ start,
        exec context steps first machine = .ok .normal start ∧
          ExecutesAll context steps (rest.take index) start cut := by
      cases executed with
      | cons yieldsToo executedRest => exact ⟨_, yieldsToo, executedRest⟩
    cases yields.symm.trans yieldsToo
    refine ⟨Nat.lt_of_succ_lt_succ within, executedRest, seen,
      fun earlier before last further => ?_⟩
    exact earlierUnseen (earlier + 1) (Nat.succ_lt_succ before) last
      (.cons yields further)
  · rintro ⟨within, executed, seen, laterUnseen⟩
    refine ⟨Nat.succ_lt_succ within, .cons yields executed, seen,
      fun earlier before last further => ?_⟩
    cases earlier with
    | zero =>
        cases further
        exact unseen
    | succ earlier =>
        cases further with
        | cons yieldsToo furtherRest =>
            cases yields.symm.trans yieldsToo
            exact laterUnseen earlier (Nat.lt_of_succ_lt_succ before)
              last furtherRest

end CutsAt

/-- The first look that sees the wish to stop ends the run, after exactly the
statements before. -/
theorem runStatementsAmid_of_cutsAt
    (cuts : CutsAt context steps wishes statements machine index cut) :
    runStatementsAmid context steps wishes statements machine =
      (.failed .cancelled, cut.wishing true) := by
  induction statements generalizing machine index wishes with
  | nil => exact absurd cuts.within (Nat.not_lt_zero _)
  | cons first rest inductionHypothesis =>
      cases index with
      | zero =>
          obtain ⟨rfl, seen⟩ := CutsAt.zero_iff.mp cuts
          exact runStatementsAmid_cons_of_seen seen
      | succ index =>
          obtain ⟨middle, yields⟩ : ∃ middle,
              exec context steps first machine = .ok .normal middle := by
            cases cuts.executed with
            | cons yields _ => exact ⟨_, yields⟩
          rw [runStatementsAmid_cons_of_ok cuts.starts yields]
          exact inductionHypothesis
            ((CutsAt.succ_iff cuts.starts yields).mp cuts)

/-- Statements that no look cuts off are run as without looking. -/
theorem runStatementsAmid_of_not_cutsAt
    (never :
      ∀ index cut, ¬ CutsAt context steps wishes statements machine index cut) :
    runStatementsAmid context steps wishes statements machine =
      runStatements context .unheeding steps statements machine := by
  induction statements generalizing machine wishes with
  | nil => rfl
  | cons first rest inductionHypothesis =>
      have unseen : machine.world.cancelled = false ∧ wishes 0 = false := by
        by_contra seen
        refine never 0 machine (CutsAt.zero_iff.mpr ⟨rfl, ?_⟩)
        rwa [not_and_or, Bool.not_eq_false, Bool.not_eq_false] at seen
      by_cases isLast : ∀ after,
        exec context steps first machine ≠ .ok .normal after
      · rw [runStatementsAmid_cons_of_last unseen isLast,
          runStatements_cons_of_last rfl isLast]
      · obtain ⟨after, yields⟩ : ∃ after,
            exec context steps first machine = .ok .normal after := by
          simpa using isLast
        rw [runStatementsAmid_cons_of_ok unseen yields,
          runStatements_cons_of_ok rfl yields]
        exact inductionHypothesis fun index cut cuts =>
          never (index + 1) cut ((CutsAt.succ_iff unseen yields).mpr cuts)

/-- Without wishes of the host, statements are run as by a run that heeds the
wish to stop. -/
theorem runStatementsAmid_never :
    runStatementsAmid context steps (fun _ => false) statements machine =
      runStatements context .heeding steps statements machine := by
  induction statements generalizing machine with
  | nil => rfl
  | cons first rest inductionHypothesis =>
      cases isSeen : machine.world.cancelled with
      | true =>
          have stops : Stopping.heeding.stops machine.world = true := isSeen
          have same : machine.wishing true = machine := by
            rw [← isSeen]
            rfl
          rw [runStatementsAmid_cons_of_seen (.inl isSeen), same, runStatements,
            stops, if_pos rfl]
      | false =>
          have heeds : Stopping.heeding.stops machine.world = false := isSeen
          by_cases isLast : ∀ after,
            exec context steps first machine ≠ .ok .normal after
          · rw [runStatementsAmid_cons_of_last ⟨isSeen, rfl⟩ isLast,
              runStatements_cons_of_last heeds isLast]
          · obtain ⟨after, yields⟩ :
                ∃ after, exec context steps first machine =
                  .ok .normal after := by
              simpa using isLast
            rw [runStatementsAmid_cons_of_ok ⟨isSeen, rfl⟩ yields,
              runStatements_cons_of_ok heeds yields]
            exact inductionHypothesis

end Statements

namespace Session

/-- Runs a source while the host may express the wish to stop from elsewhere. -/
def runAmid
    (session : Session)
    (wishes : Nat → Bool)
    (steps : Nat)
    (source : ByteArray) : Outcome × Session :=
  match session.machine.compile source with
  | (.error error, machine) =>
      (.failed (.rejected error), { session with machine := machine })
  | (.ok program, machine) =>
      session.settled
        (runStatementsAmid session.context steps wishes program.statements
          (prepared { session with machine := machine } program))

/-- Without wishes of the host, the run is one that heeds the wish to stop. -/
theorem runAmid_never
    (session : Session)
    (steps : Nat)
    (source : ByteArray) :
    session.runAmid (fun _ => false) steps source =
      session.run .heeding steps source := by
  cases compiles : session.machine.compile source with
  | mk verdict compiled =>
      cases verdict with
      | error error =>
          unfold runAmid Session.run
          rw [compiles]
      | ok program =>
          rw [run_eq_settled compiles, ← runStatementsAmid_never]
          unfold runAmid
          rw [compiles]

/-- The wish to stop cuts a run exactly between statements.  The first look that
sees it ends the run after the statements before, all of which have ended as
they do without looking; if no look sees it the run is as without looking, and
what is done between two looks does not depend on the wish. -/
theorem cancellation_cuts_between_statements
    {session : Session}
    {source : ByteArray}
    {program : Program}
    {compiled : Machine}
    (wishes : Nat → Bool)
    (steps : Nat)
    (accepted : session.machine.compile source = (.ok program, compiled)) :
    session.runAmid (fun _ => false) steps source =
      session.run .heeding steps source ∧
    (∀ index cut,
      CutsAt session.context steps wishes program.statements
          (prepared { session with machine := compiled } program) index cut →
        runStatements session.context .unheeding steps
          (program.statements.take index)
            (prepared { session with machine := compiled } program) =
            (.finished, cut) ∧
          session.runAmid wishes steps source =
            session.settled (.failed .cancelled, cut.wishing true)) ∧
    ((∀ index cut,
      ¬ CutsAt session.context steps wishes program.statements
          (prepared { session with machine := compiled } program) index cut) →
        session.runAmid wishes steps source =
          session.run .unheeding steps source) ∧
    ((∀ native ∈ session.natives, native.Heedless) →
      ∀ task machine,
        (Task.run session.context steps task).Disregards machine) := by
  have runs : session.runAmid wishes steps source =
      session.settled
        (runStatementsAmid session.context steps wishes program.statements
          (prepared { session with machine := compiled } program)) := by
    unfold runAmid
    rw [accepted]
  refine ⟨session.runAmid_never steps source, fun index cut cuts => ?_,
    fun never => ?_,
    fun heedless task machine => disregards_task heedless steps task machine⟩
  · rw [runs, runStatementsAmid_of_cutsAt cuts]
    exact ⟨cuts.executed.runStatements_unheeding, rfl⟩
  · rw [runs, runStatementsAmid_of_not_cutsAt never, run_eq_settled accepted]

/-- A session with a native that asks runs to stop. -/
def stoppable : Session :=
  (bare (fun _ => .error .missing) {}
    { clock := 0, entropy := fun _ => 0 }).register "stop"
    ⟨"stop", 0, Toolbox.cancel⟩

/-- A call of that native. -/
def stopCall : Stmt :=
  .expression
    (.call (.reference 0 ⟨.identifier "stop", "stop", 1⟩)
      ⟨.symbol .rightParen, ")", 1⟩ [])

/-- A source that asks to stop in the first of two statements, and one that does
so in its only statement. -/
theorem cancellation_cuts_after_first_statement :
    (stoppable.run .heeding 9 "stop(); nil;".toUTF8).1 = .failed .cancelled ∧
    (stoppable.run .unheeding 9 "stop(); nil;".toUTF8).1 = .finished ∧
    stoppable.run .heeding 9 "stop();".toUTF8 =
      stoppable.run .unheeding 9 "stop();".toUTF8 ∧
    ∀ task machine, (Task.run stoppable.context 9 task).Disregards machine := by
  have scanned : Program.tokens "stop(); nil;".toUTF8 =
      .ok [⟨.identifier "stop", "stop", 1⟩, ⟨.symbol .leftParen, "(", 1⟩,
        ⟨.symbol .rightParen, ")", 1⟩, ⟨.symbol .semicolon, ";", 1⟩,
        ⟨.keyword .nilWord, "nil", 1⟩, ⟨.symbol .semicolon, ";", 1⟩,
          ⟨.endOfInput, "", 1⟩] := by
    cbv
  have scannedAlone : Program.tokens "stop();".toUTF8 =
      .ok [⟨.identifier "stop", "stop", 1⟩, ⟨.symbol .leftParen, "(", 1⟩,
        ⟨.symbol .rightParen, ")", 1⟩, ⟨.symbol .semicolon, ";", 1⟩,
          ⟨.endOfInput, "", 1⟩] := by
    cbv
  have accepted : stoppable.machine.compile "stop(); nil;".toUTF8 =
      (.ok ⟨[stopCall, .expression (.literal .nil)], {}⟩,
        { stoppable.machine with nextNode := 1 }) :=
    Machine.compile_eq_ok_iff.mpr
      ⟨1, Program.compile_of_parsed scanned (by cbv) rfl, rfl⟩
  have acceptedAlone : stoppable.machine.compile "stop();".toUTF8 =
      (.ok ⟨[stopCall], {}⟩, { stoppable.machine with nextNode := 1 }) :=
    Machine.compile_eq_ok_iff.mpr
      ⟨1, Program.compile_of_parsed scannedAlone (by cbv) rfl, rfl⟩
  obtain ⟨heeds, cuts, -, disregards⟩ :=
    cancellation_cuts_between_statements (fun _ => false) 9 accepted
  obtain ⟨heedsAlone, -, never, -⟩ :=
    cancellation_cuts_between_statements (fun _ => false) 9 acceptedAlone
  refine ⟨?_, ?_, ?_, disregards ?_⟩
  · obtain ⟨cut, yields, seen, flushes⟩ : ∃ cut,
        exec stoppable.context 9 stopCall
            (prepared
              { stoppable with
                machine := { stoppable.machine with nextNode := 1 } }
              ⟨[stopCall, .expression (.literal .nil)], {}⟩) = .ok .normal cut ∧
          cut.world.cancelled = true ∧ cut.output.flushFault? = none :=
      ⟨_, rfl, rfl, rfl⟩
    have isCut : CutsAt stoppable.context 9 (fun _ => false)
        [stopCall, .expression (.literal .nil)] _ 1 cut :=
      (CutsAt.succ_iff ⟨rfl, rfl⟩ yields).mpr
        (CutsAt.zero_iff.mpr ⟨rfl, .inl seen⟩)
    rw [← heeds, (cuts 1 cut isCut).2]
    simp [settled, flushed, Machine.wishing, flushes]
  · rw [run_eq_settled accepted]
    rfl
  · rw [← heedsAlone]
    refine never fun index cut cuts => ?_
    cases index with
    | zero =>
        obtain ⟨-, seen | seen⟩ := CutsAt.zero_iff.mp cuts <;> cases seen
    | succ index => exact absurd cuts.within (by simp)
  · intro native member
    rw [List.mem_singleton.mp member]
    exact fun _ _ _ => ⟨rfl, rfl⟩

end Session

end LoxScript
