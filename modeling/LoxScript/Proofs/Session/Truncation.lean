import Mathlib
import LoxScript.Proofs.Machine.Truncation
import LoxScript.Proofs.Session.Inclusion

namespace LoxScript

/-!
# Runs with a limit on the output

A run whose output accepts so many bytes in all is the run without the limit,
cut off at the print that writes more: nothing is different before, and nothing
is done after.
-/

open Run

section Statements

variable {context : Context} {stopping : Stopping} {steps limit : Nat}
variable {statements : List Stmt} {statement : Stmt}
  {machine start after : Machine}

/-- A relation that is respected by all that is done holds across statements
that are run. -/
theorem Machine.Respected.runStatements
    {related : Machine → Machine → Prop}
    (respected : Machine.Respected related)
    (context : Context)
    (stopping : Stopping)
    (steps : Nat)
    (statements : List Stmt)
    (machine : Machine) :
    related machine
      (runStatements context stopping steps statements machine).2 := by
  have keeps (statement : Stmt) :=
    respected.keeps_task context steps (.exec statement)
  induction statements generalizing machine with
  | nil => exact respected.refl machine
  | cons first rest inductionHypothesis =>
      unfold LoxScript.runStatements
      split
      · exact respected.refl machine
      · split
        · rename_i after yields
          exact respected.trans ((keeps first).ok yields)
            (inductionHypothesis after)
        · rename_i yields
          exact (keeps first).ok yields
        · rename_i fails
          exact (keeps first).error fails
        · rename_i fails
          exact (keeps first).error fails

/-- A task that ended with a limit on the output ended in the same way. -/
theorem Outcome.ofResult_limited
    (limit : Nat)
    (result : EStateM.Result Halt Machine Flow) :
    Outcome.ofResult (outcomeLimited limit result) =
      ((Outcome.ofResult result).1,
        (Outcome.ofResult result).2.limited limit) := by
  cases result with
  | ok flow after => rfl
  | error halt after => cases halt <;> rfl

/-- What does not end normally does not do so with a limit on the output. -/
theorem Run.outcomeLimited_ne_normal
    {result : EStateM.Result Halt Machine Flow}
    (isLast : ∀ after, result ≠ .ok .normal after)
    (after : Machine) :
    outcomeLimited limit result ≠ .ok .normal after := by
  cases result with
  | ok flow last =>
      rintro ⟨⟩
      exact isLast last rfl
  | error halt last => rintro ⟨⟩

/-- The machine after a statement that is the last one. -/
theorem Outcome.ofResult_left
    (step : Run Flow)
    (machine : Machine) :
    (Outcome.ofResult (step machine)).2 = step.left machine := by
  unfold Run.left
  cases step machine with
  | ok flow after => rfl
  | error halt after => cases halt <;> rfl

/-- With a limit on the output, statements fail at a print that goes beyond it;
without the limit they end in the machine `after`. -/
def CutsOff
    (context : Context)
    (stopping : Stopping)
    (steps limit : Nat)
    (statements : List Stmt)
    (machine after : Machine) : Prop :=
  ∃ last crossing statement start,
    runStatements context stopping steps statements (machine.limited limit) =
        (.failed (.runtime (.output .full)), last) ∧
      last.output = after.output.truncated limit ∧
      Proceeds context stopping steps statements machine statement start ∧
      (Task.exec statement).Crosses context limit start crossing ∧
      crossing.SameContents last

/-- A limit that the first statement goes beyond cuts the statements off
there. -/
theorem CutsOff.inFirst
    {first : Stmt}
    (rest : List Stmt)
    (goesOn : stopping.stops machine.world = false)
    (free : machine.Free)
    (within : machine.KeepsTo limit)
    (beyond : ¬ ((exec context steps first).left machine).KeepsTo limit) :
    CutsOff context stopping steps limit (first :: rest) machine
      ((exec context steps first).left machine) := by
  obtain ⟨last, crossing, fails, output, isCrossing, contents⟩ :=
    (truncates_task context limit steps (.exec first) machine).cut free
      within beyond
  refine ⟨last, crossing, first, machine, ?_, output, .here goesOn, isCrossing,
    contents⟩
  have failsHere : exec context steps first (machine.limited limit) = _ := fails
  have goesOnToo : stopping.stops (machine.limited limit).world = false :=
    goesOn
  have isLast (next : Machine) :
      exec context steps first (machine.limited limit) ≠ .ok .normal next := by
    rw [failsHere]
    rintro ⟨⟩
  rw [runStatements_cons_of_last goesOnToo isLast, failsHere]
  rfl

/-- A limit that a later statement goes beyond cuts the statements off there. -/
theorem CutsOff.inRest
    {first : Stmt}
    {rest : List Stmt}
    {next : Machine}
    (goesOn : stopping.stops machine.world = false)
    (yields : exec context steps first machine = .ok .normal next)
    (yieldsToo :
      exec context steps first (machine.limited limit) =
        .ok .normal (next.limited limit))
    (cutsOff : CutsOff context stopping steps limit rest next after) :
    CutsOff context stopping steps limit (first :: rest) machine after := by
  obtain ⟨last, crossing, statement, start, fails, output, proceeds, isCrossing,
      contents⟩ :=
    cutsOff
  have goesOnToo : stopping.stops (machine.limited limit).world = false :=
    goesOn
  refine ⟨last, crossing, statement, start, ?_, output,
    .next goesOn yields proceeds, isCrossing, contents⟩
  rw [runStatements_cons_of_ok goesOnToo yieldsToo, fails]

/-- Statements that a limit has cut off write nothing after that. -/
theorem CutsOff.later
    {middle : Machine}
    (cutsOff : CutsOff context stopping steps limit statements machine middle)
    (same : after.output.truncated limit = middle.output.truncated limit) :
    CutsOff context stopping steps limit statements machine after := by
  obtain ⟨last, crossing, statement, start, fails, output, rest⟩ := cutsOff
  exact ⟨last, crossing, statement, start, fails, output.trans same.symm, rest⟩

/-- A last statement that keeps to the limit ends as it does without it. -/
theorem runStatements_limited_of_last
    {first : Stmt}
    (rest : List Stmt)
    (goesOn : stopping.stops machine.world = false)
    (isLast : ∀ next, exec context steps first machine ≠ .ok .normal next)
    (free : machine.Free)
    (keeps : ((exec context steps first).left machine).KeepsTo limit) :
    runStatements context stopping steps (first :: rest)
      (machine.limited limit) =
      ((runStatements context stopping steps (first :: rest) machine).1,
        (runStatements context stopping steps (first :: rest) machine).2.limited
          limit) := by
  have same : exec context steps first (machine.limited limit) =
      outcomeLimited limit (exec context steps first machine) :=
    (truncates_task context limit steps (.exec first) machine).whole free keeps
  have goesOnToo : stopping.stops (machine.limited limit).world = false :=
    goesOn
  have isLastToo (next : Machine) :
      exec context steps first (machine.limited limit) ≠ .ok .normal next := by
    rw [same]
    exact outcomeLimited_ne_normal isLast next
  rw [runStatements_cons_of_last goesOnToo isLastToo, same,
    Outcome.ofResult_limited, runStatements_cons_of_last goesOn isLast]

/-- Statements that keep to a limit are run as they are without it, and others
are cut off. -/
theorem runStatements_truncates
    {outcome : Outcome}
    (free : machine.Free)
    (within : machine.KeepsTo limit)
    (ends : runStatements context stopping steps statements machine =
      (outcome, after)) :
    (after.KeepsTo limit →
      runStatements context stopping steps statements (machine.limited limit) =
        (outcome, after.limited limit)) ∧
    (¬ after.KeepsTo limit →
      CutsOff context stopping steps limit statements machine after) := by
  induction statements generalizing machine with
  | nil =>
      cases ends
      exact ⟨fun _ => rfl, fun beyond => absurd within beyond⟩
  | cons first rest inductionHypothesis =>
      have truncates := truncates_task context limit steps (.exec first) machine
      cases stops : stopping.stops machine.world with
      | true =>
          have stopsToo : stopping.stops (machine.limited limit).world = true :=
            stops
          simp only [runStatements, stops, if_true] at ends
          cases ends
          refine ⟨fun _ => ?_, fun beyond => absurd within beyond⟩
          simp only [runStatements, stopsToo, if_true]
      | false =>
          by_cases isLast : ∀ next,
            exec context steps first machine ≠ .ok .normal next
          · have isLeft : (exec context steps first).left machine = after := by
              rw [runStatements_cons_of_last stops isLast] at ends
              rw [← Outcome.ofResult_left, ends]
            constructor
            · intro keeps
              rw [runStatements_limited_of_last rest stops isLast free
                (isLeft ▸ keeps), ends]
            · intro beyond
              exact isLeft ▸ CutsOff.inFirst rest stops free within
                (isLeft ▸ beyond)
          · obtain ⟨next, yields⟩ : ∃ next,
                exec context steps first machine = .ok .normal next := by
              simpa using isLast
            have freeNext := (truncates.addsTo yields).free free
            rw [runStatements_cons_of_ok stops yields] at ends
            have addsRest : next.Adds after := by
              have adds :=
                Machine.respected_adds.runStatements context stopping
                steps rest next
              rwa [ends] at adds
            by_cases keepsNext : next.KeepsTo limit
            · have stopsToo : stopping.stops (machine.limited limit).world =
                  false := stops
              have yieldsToo := truncates.ok free yields keepsNext
              obtain ⟨whole, cut⟩ := inductionHypothesis freeNext keepsNext ends
              rw [runStatements_cons_of_ok stopsToo yieldsToo]
              exact ⟨whole, fun beyond =>
                (cut beyond).inRest stops yields yieldsToo⟩
            · refine ⟨fun keeps => absurd (addsRest.keepsTo freeNext keeps)
                keepsNext, fun _ => ?_⟩
              have isLeft := left_of_ok yields
              refine (CutsOff.inFirst rest stops free within
                (isLeft ▸ keepsNext)).later ?_
              rw [isLeft, addsRest.truncated_eq freeNext keepsNext]

/-- Statements that are run take back nothing that is written. -/
theorem Proceeds.adds
    (proceeds :
      Proceeds context stopping steps statements machine statement after) :
    machine.Adds after := by
  induction proceeds with
  | here _ => exact Machine.respected_adds.refl _
  | next _ yields _ inductionHypothesis =>
      have adds :=
        (Machine.respected_adds.keeps_task context steps (.exec _)).ok yields
      exact Machine.respected_adds.trans adds inductionHypothesis

/-- With a limit, the statements are run that are run without as long as they
keep to it. -/
theorem Proceeds.limited
    (proceeds :
      Proceeds context stopping steps statements machine statement after)
    (free : machine.Free)
    (keeps : after.KeepsTo limit) :
    Proceeds context stopping steps statements (machine.limited limit) statement
      (after.limited limit) := by
  induction proceeds with
  | here goesOn => exact .here goesOn
  | @next first _ machine _ _ _ goesOn yields proceeds inductionHypothesis =>
      have truncates := truncates_task context limit steps (.exec first) machine
      have freeNext := (truncates.addsTo yields).free free
      exact .next goesOn
        (truncates.ok free yields (proceeds.adds.keepsTo freeNext keeps))
        (inductionHypothesis freeNext keeps)

/-- With a limit, no statement is run that is not run without while the limit is
kept to. -/
theorem Proceeds.of_limited
    (proceeds :
      Proceeds context stopping steps statements (machine.limited limit)
        statement after)
    (free : machine.Free)
    (within : machine.KeepsTo limit) :
    ∃ last, Proceeds context stopping steps statements machine statement last ∧
      last.KeepsTo limit ∧ after = last.limited limit := by
  induction statements generalizing machine with
  | nil => cases proceeds
  | cons first rest inductionHypothesis =>
      cases proceeds with
      | here goesOn => exact ⟨machine, .here goesOn, within, rfl⟩
      | next goesOn yields proceeds =>
          have truncates :=
            truncates_task context limit steps (.exec first) machine
          obtain ⟨next, yieldsFree, keepsNext, rfl⟩ :=
            (truncates.ok_iff free within).mp yields
          have freeNext := (truncates.addsTo yieldsFree).free free
          obtain ⟨last, proceedsFree, keeps, rfl⟩ :=
            inductionHypothesis proceeds freeNext keepsNext
          exact ⟨last, .next goesOn yieldsFree proceedsFree, keeps, rfl⟩

end Statements

namespace Session

variable {session : Session} {stopping : Stopping} {steps limit : Nat}
  {source : ByteArray}

/-- The session with an output that accepts so many bytes in all. -/
def limited (limit : Nat) (session : Session) : Session :=
  { session with machine := session.machine.limited limit }

/-- Defining natives writes nothing. -/
theorem defineNatives_limited
    (limit : Nat)
    (natives : List Native)
    (machine : Machine) :
    defineNatives natives (machine.limited limit) =
      (defineNatives natives machine).limited limit := by
  rw [defineNatives_eq_foldl, defineNatives_eq_foldl]
  rfl

/-- A limit on the output is there when the first statement is run. -/
theorem prepared_limited
    (session : Session)
    (compiled : Machine)
    (program : Program) :
    prepared { session.limited limit with machine := compiled.limited limit }
      program =
      (prepared { session with machine := compiled } program).limited limit :=
  defineNatives_limited limit session.registered.values
    (compiled.learn program.distances)

/-- The output is as it was when the first statement is run. -/
theorem output_prepared
    {compiled : Machine}
    {program : Program}
    (accepted : session.machine.compile source = (.ok program, compiled)) :
    (prepared { session with machine := compiled } program).output =
      session.machine.output := by
  obtain ⟨next, -, rfl⟩ := Machine.compile_eq_ok_iff.mp accepted
  rw [prepared, defineNatives_eq_foldl]
  rfl

/-- What is written before a run does not count for more when the first
statement is run. -/
theorem prepared_within
    {compiled : Machine}
    {program : Program}
    (free : session.machine.Free)
    (within : session.machine.KeepsTo limit)
    (accepted : session.machine.compile source = (.ok program, compiled)) :
    (prepared { session with machine := compiled } program).Free ∧
      (prepared { session with machine := compiled } program).KeepsTo
        limit := by
  rw [Machine.Free, Machine.KeepsTo, output_prepared accepted]
  exact ⟨free, within⟩

/-- Compiling does not look at the output. -/
theorem compile_limited
    (session : Session)
    (limit : Nat)
    (source : ByteArray) :
    (session.limited limit).machine.compile source =
      ((session.machine.compile source).1,
        (session.machine.compile source).2.limited limit) :=
  rfl

/-- Where flushing succeeds, a run ends as its statements do. -/
theorem flushed_eq
    {output : Sink}
    (flushes : output.refusesFlush = false)
    (outcome : Outcome) :
    flushed outcome output = outcome := by
  unfold flushed Sink.flushFault?
  rw [flushes]
  cases outcome <;> rfl

/-- Where flushing succeeds, nothing is added to a run at its end. -/
theorem settled_eq
    {after : Machine}
    (session : Session)
    (flushes : after.output.refusesFlush = false)
    (outcome : Outcome) :
    session.settled (outcome, after) =
      (outcome, { session with machine := after }) := by
  rw [settled, flushed_eq flushes]

/-- A source is accepted with the same program whatever the output. -/
theorem compile_limited_iff
    {program : Program}
    {after : Machine} :
    (session.limited limit).machine.compile source = (.ok program, after) ↔
      ∃ compiled, session.machine.compile source = (.ok program, compiled) ∧
        after = compiled.limited limit := by
  rw [compile_limited]
  cases session.machine.compile source with
  | mk verdict compiled => simp [and_assoc, eq_comm]

/-- With a limit on the output, a run comes to what it comes to without while it
keeps to the limit, and to nothing else. -/
theorem reaches_limited_iff
    {task : Task}
    {machine : Machine}
    (free : session.machine.Free)
    (within : session.machine.KeepsTo limit) :
    (session.limited limit).Reaches stopping steps source task machine ↔
      ∃ other, session.Reaches stopping steps source task other ∧
        other.KeepsTo limit ∧
        machine = other.limited limit := by
  constructor
  · rintro ⟨program, after, statement, start, acceptedLimited, proceeds,
      reaches⟩
    obtain ⟨compiled, accepted, rfl⟩ := compile_limited_iff.mp acceptedLimited
    rw [prepared_limited] at proceeds
    obtain ⟨freeStart, keepsStart⟩ := prepared_within free within accepted
    obtain ⟨first, proceedsFree, keepsFirst, rfl⟩ :=
      proceeds.of_limited freeStart keepsStart
    obtain ⟨other, reachesFree, keeps, rfl⟩ :=
      (Task.reaches_limited_iff (proceedsFree.adds.free freeStart)
        keepsFirst).mp reaches
    exact ⟨other, ⟨program, compiled, statement, first, accepted, proceedsFree,
      reachesFree⟩, keeps, rfl⟩
  · rintro ⟨other, ⟨program, compiled, statement, start, accepted, proceeds,
      reaches⟩, keeps, rfl⟩
    obtain ⟨freeStart, -⟩ := prepared_within free within accepted
    have freeFirst := proceeds.adds.free freeStart
    have keepsFirst := reaches.adds.keepsTo freeFirst keeps
    refine ⟨program, _, statement, _, compile_limited_iff.mpr
      ⟨compiled, accepted, rfl⟩, ?_,
      (Task.reaches_limited_iff freeFirst keepsFirst).mpr
        ⟨other, reaches, keeps, rfl⟩⟩
    rw [prepared_limited]
    exact proceeds.limited freeStart keepsFirst

/-- A source that is rejected is rejected with a limit on the output too, and
writes nothing. -/
theorem run_limited_of_rejected
    {error : StaticError}
    {compiled : Machine}
    (stopping : Stopping)
    (steps limit : Nat)
    (rejects : session.machine.compile source = (.error error, compiled)) :
    (session.run stopping steps source).2.machine.output =
      session.machine.output ∧
      (session.limited limit).run stopping steps source =
        ((session.run stopping steps source).1,
          (session.run stopping steps source).2.limited limit) := by
  have rejectsToo := compile_limited session limit source
  rw [rejects] at rejectsToo
  have output : compiled.output = session.machine.output :=
    (congrArg (fun result => result.2.output) rejects).symm
  unfold Session.run
  rw [rejects, rejectsToo]
  exact ⟨output, rfl⟩

/-- With a limit on the output, a run is that of its statements with the
limit. -/
theorem run_limited_eq_settled
    {program : Program}
    {compiled : Machine}
    (limit : Nat)
    (accepted : session.machine.compile source = (.ok program, compiled)) :
    (session.limited limit).run stopping steps source =
      (session.limited limit).settled
        (runStatements session.context stopping steps program.statements
          ((prepared { session with machine := compiled } program).limited
            limit)) := by
  have acceptedToo : (session.limited limit).machine.compile source =
      (.ok program, compiled.limited limit) :=
    compile_limited_iff.mpr ⟨compiled, accepted, rfl⟩
  rw [run_eq_settled acceptedToo, prepared_limited]
  rfl

/-- A run that is cut off has done what was done up to there, and is back where
the session was. -/
theorem run_limited_of_cut
    {program : Program}
    {compiled last crossing : Machine}
    (accepted : session.machine.compile source = (.ok program, compiled))
    (fails :
      runStatements session.context stopping steps program.statements
          ((prepared { session with machine := compiled } program).limited
            limit) =
        (.failed (.runtime (.output .full)), last))
    (flushes : last.output.refusesFlush = false)
    (contents : crossing.SameContents last) :
    (session.limited limit).run stopping steps source =
      (.failed (.runtime (.output .full)),
        { session with
          machine :=
            { crossing with
              active := session.machine.active
              requiring := session.machine.requiring
              output := last.output } }) := by
  have back := sameContext_run (session.limited limit) stopping steps source
  rw [run_limited_eq_settled limit accepted, fails,
    settled_eq (session.limited limit) flushes] at back ⊢
  have isLast := contents.eq
  rw [back.active, back.requiring] at isLast
  rw [isLast]
  rfl

/-- A run with a limit on the output, whatever was written before it. -/
theorem run_limited
    {outcome : Outcome}
    {final : Session}
    (free : session.machine.Free)
    (within : session.machine.KeepsTo limit)
    (flushes : session.machine.output.refusesFlush = false)
    (ends : session.run stopping steps source = (outcome, final)) :
    (final.machine.KeepsTo limit →
      (session.limited limit).run stopping steps source =
        (outcome, final.limited limit)) ∧
    (¬ final.machine.KeepsTo limit →
      ∃ value start fewer shown crossing,
        session.Reaches stopping steps source (.exec (.print value)) start ∧
          eval session.context fewer value start = .ok shown crossing ∧
          crossing.KeepsTo limit ∧
          limit < crossing.output.written.size +
            (shown.text ++ "\n").toUTF8.size ∧
          (session.limited limit).run stopping steps source =
            (.failed (.runtime (.output .full)),
              { final with
                machine :=
                  { crossing with
                    active := session.machine.active
                    requiring := session.machine.requiring
                    output := final.machine.output.truncated limit } })) := by
  cases compiles : session.machine.compile source with
  | mk verdict compiled =>
      cases verdict with
      | error error =>
          obtain ⟨output, same⟩ :=
            run_limited_of_rejected stopping steps limit compiles
          rw [ends] at output same
          have keeps : final.machine.KeepsTo limit := by
            rw [Machine.KeepsTo, output]
            exact within
          exact ⟨fun _ => same, fun beyond => absurd keeps beyond⟩
      | ok program =>
          obtain ⟨freeStart, keepsStart⟩ := prepared_within free within compiles
          have adds :=
            Machine.respected_adds.runStatements session.context stopping steps
            program.statements
              (prepared { session with machine := compiled } program)
          rw [run_eq_settled compiles] at ends
          cases isRun : runStatements session.context stopping steps
            program.statements
            (prepared { session with machine := compiled } program) with
          | mk result after =>
              rw [isRun] at ends adds
              have flushesAfter : after.output.refusesFlush = false := by
                obtain ⟨bytes, output⟩ := adds freeStart
                rw [output, output_prepared compiles]
                exact flushes
              rw [settled_eq session flushesAfter] at ends
              cases ends
              obtain ⟨whole, cut⟩ :=
                runStatements_truncates freeStart keepsStart isRun
              refine ⟨fun keeps => ?_, fun beyond => ?_⟩
              · have flushesLimited :
                    (after.limited limit).output.refusesFlush = false :=
                  flushesAfter
                rw [run_limited_eq_settled limit compiles, whole keeps,
                  settled_eq (session.limited limit) flushesLimited]
                rfl
              · obtain ⟨last, crossing, statement, start, fails, output,
                  proceeds,
                  ⟨value, printing, fewer, shown, reaches, yields, keeps,
                    exceeds⟩, contents⟩ :=
                  cut beyond
                have flushesLast : last.output.refusesFlush = false :=
                  output ▸ flushesAfter
                refine ⟨value, printing, fewer, shown, crossing,
                  ⟨program, compiled, statement, start, compiles, proceeds,
                    reaches⟩, yields, keeps, exceeds, ?_⟩
                rw [run_limited_of_cut compiles fails flushesLast contents,
                  output]

/-- A limit on the output only cuts a run off.  A source is run with an output
that accepts everything.  If no more is written than the limit, a run with the
limit ends in the same way, with the same output and everything else as it is.
If more is written, it fails because the output is full, with the first bytes of
that output: it ends in the middle of the print that goes beyond the limit, and
everything is as it is there, back where the session was.  In both cases a run
with the limit comes to what the run without it comes to as long as it keeps to
the limit, and to nothing else. -/
theorem output_limit_only_cuts_off
    {session final : Session}
    {stopping : Stopping}
    {steps : Nat}
    {source : ByteArray}
    {outcome : Outcome}
    (limit : Nat)
    (ends : (session.withOutput {}).run stopping steps source =
      (outcome, final)) :
    (final.machine.output.written.size ≤ limit →
      (session.withOutput { limit := some limit }).run stopping steps source =
        (outcome, final.withOutput
          { final.machine.output with limit := some limit })) ∧
    (limit < final.machine.output.written.size →
      ∃ value start fewer shown crossing,
        (session.withOutput {}).Reaches stopping steps source
          (.exec (.print value)) start ∧
          eval session.context fewer value start = .ok shown crossing ∧
          crossing.output.written.size ≤ limit ∧
          limit < crossing.output.written.size +
            (shown.text ++ "\n").toUTF8.size ∧
          (session.withOutput { limit := some limit }).run stopping
            steps source = (.failed (.runtime (.output .full)),
              { final with
                machine :=
                  { crossing with
                    active := session.machine.active
                    requiring := session.machine.requiring
                    output :=
                      { final.machine.output with
                        written := final.machine.output.written.extract 0 limit
                        limit := some limit } } })) ∧
    ∀ task machine,
      (session.withOutput { limit := some limit }).Reaches stopping steps source
        task machine ↔
        ∃ other,
          (session.withOutput {}).Reaches stopping steps source task other ∧
            other.output.written.size ≤ limit ∧
            machine =
              { other with
                output := { other.output with limit := some limit } } := by
  have isLimited : session.withOutput { limit := some limit } =
      (session.withOutput {}).limited limit := by
    rw [limited, withOutput, Machine.limited,
      Sink.truncated_of_le (Nat.zero_le limit)]
    rfl
  have free : (session.withOutput {}).machine.Free := rfl
  have within : (session.withOutput {}).machine.KeepsTo limit :=
    Nat.zero_le limit
  obtain ⟨whole, cut⟩ := run_limited free within rfl ends
  rw [isLimited]
  refine ⟨fun keeps => ?_, fun beyond => cut (Nat.not_le_of_lt beyond),
    fun task machine => ?_⟩
  · rw [whole keeps, limited, withOutput, Machine.limited,
      Sink.truncated_of_le keeps]
  · rw [reaches_limited_iff free within]
    refine exists_congr fun other => and_congr_right fun _ =>
      and_congr_right fun keeps => ?_
    rw [Machine.limited, Sink.truncated_of_le keeps]

/-- A session that has run nothing. -/
def unspoken : Session :=
  bare (fun _ => .error .missing) {} { clock := 0, entropy := fun _ => 0 }

/-- A source that writes nine bytes, with room for nine and for seven. -/
theorem output_limit_cuts_off_second_print :
    ∃ final last,
      (unspoken.withOutput {}).run .unheeding 9
        "print true; print nil;".toUTF8 =
          (.finished, final) ∧
        final.machine.output.written = "true\nnil\n".toUTF8 ∧
        (unspoken.withOutput { limit := some 9 }).run .unheeding 9
            "print true; print nil;".toUTF8 =
          (.finished, final.withOutput
            { final.machine.output with limit := some 9 }) ∧
        (unspoken.withOutput { limit := some 7 }).run .unheeding 9
            "print true; print nil;".toUTF8 =
          (.failed (.runtime (.output .full)), last) ∧
        last.machine.output.written = "true\nni".toUTF8 := by
  have scanned : Program.tokens "print true; print nil;".toUTF8 =
      .ok [⟨.keyword .printWord, "print", 1⟩, ⟨.keyword .trueWord, "true", 1⟩,
        ⟨.symbol .semicolon, ";", 1⟩, ⟨.keyword .printWord, "print", 1⟩,
        ⟨.keyword .nilWord, "nil", 1⟩, ⟨.symbol .semicolon, ";", 1⟩,
          ⟨.endOfInput, "", 1⟩] := by
    cbv
  have accepted : (unspoken.withOutput {}).machine.compile
      "print true; print nil;".toUTF8 =
      (.ok ⟨[.print (.literal (.boolean true)), .print (.literal .nil)], {}⟩,
        (unspoken.withOutput {}).machine) :=
    Machine.compile_eq_ok_iff.mpr
      ⟨0, Program.compile_of_parsed scanned (by cbv) rfl, rfl⟩
  obtain ⟨final, ends, written⟩ :
      ∃ final,
        (unspoken.withOutput {}).run .unheeding 9
          "print true; print nil;".toUTF8 =
            (.finished, final) ∧
          final.machine.output.written = "true\nnil\n".toUTF8 := by
    rw [run_eq_settled accepted]
    exact ⟨_, rfl, rfl⟩
  have size : final.machine.output.written.size = 9 := by
    rw [written]
    rfl
  obtain ⟨_, _, _, _, _, -, -, -, -, fails⟩ :=
    (output_limit_only_cuts_off 7 ends).2.1 (by rw [size]; decide)
  refine ⟨final, _, ends, written, (output_limit_only_cuts_off 9 ends).1
    size.le, fails, ?_⟩
  rw [written]
  rfl

end Session

end LoxScript
