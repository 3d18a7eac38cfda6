import LoxScript.Proofs.Session.Inclusion
import LoxScript.Session.Prompt

namespace LoxScript

/-!
# A prompt is a sequence of runs

What a prompt runs depends on its input only: the lines before the first one
that is empty or no text.  It runs them one after another as the host would,
whatever becomes of each run, and the console gets a mark, and then for every
line its error, if it has one, and another mark.
-/

namespace Sink

variable {sink : Sink} {text other : String}

/-- The sink that has also got a text. -/
def showing (sink : Sink) (text : String) : Sink :=
  { sink with written := sink.written ++ text.toUTF8 }

/-- The sink still accepts a text. -/
def Takes (sink : Sink) (text : String) : Prop :=
  sink.accepts text.toUTF8.size = true

/-- A sink gets one text after the other. -/
@[simp] theorem showing_showing :
    (sink.showing text).showing other = sink.showing (text ++ other) := by
  simp [showing, String.toUTF8, ByteArray.append_assoc]

/-- Without a text nothing changes. -/
@[simp] theorem showing_empty : sink.showing "" = sink := by
  simp [showing, String.toUTF8]

/-- What it takes for a sink to accept a text. -/
theorem takes_iff :
    sink.Takes text ↔ ∀ limit ∈ sink.limit,
      sink.written.size + text.utf8ByteSize ≤ limit := by
  unfold Takes accepts
  cases sink.limit <;> simp

/-- A sink that accepts a text accepts the first part of it. -/
theorem Takes.front
    (takes : sink.Takes (text ++ other)) :
    sink.Takes text := by
  rw [takes_iff] at *
  intro limit isLimit
  have whole := takes limit isLimit
  rw [String.utf8ByteSize_append] at whole
  omega

/-- A sink that accepts a text accepts the rest of it behind the first part. -/
theorem Takes.back
    (takes : sink.Takes (text ++ other)) :
    (sink.showing text).Takes other := by
  rw [takes_iff] at *
  intro limit isLimit
  have whole := takes limit isLimit
  have size : (sink.showing text).written.size =
      sink.written.size + text.utf8ByteSize := by
    simp [showing]
  rw [String.utf8ByteSize_append] at whole
  omega

/-- A text that is accepted is kept, and writing it does not fail. -/
theorem Takes.append
    (takes : sink.Takes text) :
    sink.append text.toUTF8 = sink.showing text ∧
      sink.writeFault? text.toUTF8.size = none := by
  refine ⟨?_, if_pos takes⟩
  have whole := written_append_of_accepts takes
  obtain ⟨written, limit, refusesFlush⟩ := sink
  cases limit <;> simp_all [Sink.append, showing]

end Sink

namespace Session

/-- How the runs of sources end, one after another. -/
def outcomes (session : Session) (steps : Nat) : List ByteArray → List Outcome
  | [] => []
  | source :: rest =>
      (session.run .unheeding steps source).1 ::
        (session.run .unheeding steps source).2.outcomes steps rest

/-- The session after runs of sources, one after another. -/
def runAll (session : Session) (steps : Nat) (sources : List ByteArray) :
    Session :=
  session.performAll (sources.map (.run .unheeding steps))

end Session

namespace Dialogue

/-- Whether a line is run, and lines behind it are read. -/
def isHeard (line : ByteArray) : Bool :=
  isText line && !line.isEmpty

/-- The lines of an input before the first one that is empty or no text. -/
def heard (input : ByteArray) : List ByteArray :=
  (Text.lines input).takeWhile isHeard

/-- The lines of an input from the first one that is empty or no text. -/
def unheard (input : ByteArray) : List ByteArray :=
  (Text.lines input).dropWhile isHeard

/-- How a prompt ends behind the lines that it runs: it fails if the next line
is no text. -/
def ending : List ByteArray → Except PromptError Unit
  | [] => .ok ()
  | line :: _ => if isText line then .ok () else .error .undecodable

/-- A prompt that runs its lines to their ends comes to an end itself. -/
theorem ending_ne_exhausted
    (unheard : List ByteArray) :
    ending unheard ≠ .error .exhausted := by
  cases unheard with
  | nil => nofun
  | cons line rest =>
      cases decodes : isText line <;> simp [ending, decodes]

/-- What the console gets for a run: its error, if it failed, and a mark. -/
def replyTo : Outcome → String
  | .failed error => error.message ++ "\n" ++ mark
  | _ => mark

/-- What the console gets for runs, one after another. -/
def replies : List Outcome → String
  | [] => ""
  | outcome :: rest => replyTo outcome ++ replies rest

/-- The dialogue with a session on a console of its own. -/
def on (session : Session) (console : Sink) : Dialogue :=
  ⟨session, some console⟩

section Consoles

variable (session : Session) {console : Sink} {steps : Nat} {line : ByteArray}
  {text : String}

/-- A reply that the console accepts. -/
theorem reply_on
    (takes : console.Takes text) :
    (on session console).reply text =
      (.ok (), on session (console.showing text)) := by
  obtain ⟨kept, accepted⟩ := takes.append
  have sameSink : (on session console).replySink = console := rfl
  simp only [reply, sameSink, accepted, kept]
  rfl

variable (flushes : console.refusesFlush = false)
include flushes

/-- A mark that the console accepts. -/
theorem ask_on
    (takes : console.Takes mark) :
    (on session console).ask = (.ok (), on session (console.showing mark)) := by
  have flushed : (on session (console.showing mark)).replySink.flushFault? =
      none :=
    if_neg (by simpa [on, replySink, Sink.showing] using flushes)
  simp only [ask, reply_on session takes, flushed]

/-- The answer to a line whose run ends. -/
theorem answer_on
    (ends : (session.run .unheeding steps line).1 ≠ .exhausted)
    (takes : console.Takes (replyTo (session.run .unheeding steps line).1)) :
    (on session console).answer steps line =
      (.ok (), on (session.run .unheeding steps line).2
        (console.showing (replyTo (session.run .unheeding steps line).1))) := by
  have runs : (on session console).session.run .unheeding steps line =
      session.run .unheeding steps line := rfl
  unfold answer
  rw [runs]
  generalize session.run .unheeding steps line = ran at ends takes ⊢
  obtain ⟨outcome, after⟩ := ran
  cases outcome with
  | exhausted => exact absurd rfl ends
  | finished => exact ask_on after flushes takes
  | failed error =>
      have shows := reply_on after takes.front
      have flushesNext :
          (console.showing (error.message ++ "\n")).refusesFlush = false :=
          flushes
      have asks := ask_on after flushesNext takes.back
      dsimp only [on] at shows asks ⊢
      rw [shows]
      dsimp only
      rw [asks, Sink.showing_showing]
      rfl

variable {session}

/-- Lines are run one after another, up to one that is empty or no text. -/
theorem answerAll_on
    (lines : List ByteArray)
    (ends : .exhausted ∉ session.outcomes steps (lines.takeWhile isHeard))
    (takes : console.Takes
      (replies (session.outcomes steps (lines.takeWhile isHeard)))) :
    answerAll steps lines (on session console) =
      (ending (lines.dropWhile isHeard),
        on (session.runAll steps (lines.takeWhile isHeard))
          (console.showing
            (replies (session.outcomes steps (lines.takeWhile isHeard))))) := by
  induction lines generalizing session console with
  | nil =>
      simp [answerAll, ending, Session.runAll, Session.performAll,
        Session.outcomes, replies]
  | cons line rest inductionHypothesis =>
      cases isRun : isHeard line with
      | false =>
          have stops : answerAll steps (line :: rest) (on session console) =
              (ending (line :: rest), on session console) := by
            cases decodes :
              isText line <;> simp_all [answerAll, ending, isHeard]
          simpa [isRun, Session.runAll, Session.performAll, Session.outcomes,
            replies] using stops
      | true =>
          have runs : isText line = true ∧ line.isEmpty = false := by
            simpa [isHeard] using isRun
          rw [List.takeWhile_cons_of_pos isRun, Session.outcomes, List.mem_cons,
            not_or] at ends
          rw [List.takeWhile_cons_of_pos isRun, Session.outcomes,
            replies] at takes
          rw [List.takeWhile_cons_of_pos isRun,
            List.dropWhile_cons_of_pos isRun]
          have answers := answer_on session flushes (Ne.symm ends.1) takes.front
          have further :=
            inductionHypothesis
            (show (console.showing _).refusesFlush = _ from flushes)
            ends.2 takes.back
          simp only [answerAll, runs, Bool.not_true, Bool.false_eq_true,
            if_false, answers, further,
            Session.outcomes, replies, Sink.showing_showing]
          rfl

/-- If a run does not end, the prompt comes to no other end. -/
theorem answerAll_of_exhausted
    (lines : List ByteArray)
    (goesOn : .exhausted ∈ session.outcomes steps (lines.takeWhile isHeard))
    (takes : console.Takes
      (replies (session.outcomes steps (lines.takeWhile isHeard)))) :
    (answerAll steps lines (on session console)).1 = .error .exhausted := by
  induction lines generalizing session console with
  | nil => cases goesOn
  | cons line rest inductionHypothesis =>
      cases isRun : isHeard line with
      | false => simp [isRun, Session.outcomes] at goesOn
      | true =>
          have runs : isText line = true ∧ line.isEmpty = false := by
            simpa [isHeard] using isRun
          rw [List.takeWhile_cons_of_pos isRun, Session.outcomes] at goesOn
          rw [List.takeWhile_cons_of_pos isRun, Session.outcomes,
            replies] at takes
          simp only [answerAll, runs, Bool.not_true, Bool.false_eq_true,
            if_false]
          by_cases isLast : (session.run .unheeding steps line).1 = .exhausted
          · have stops : (on session console).answer steps line =
                (.error .exhausted, on (session.run .unheeding steps line).2
                  console) := by
              simp only [answer, on, isLast]
            rw [stops]
          · rw [answer_on session flushes isLast takes.front]
            exact inductionHypothesis
              (show (console.showing _).refusesFlush = _ from flushes)
              ((List.mem_cons.mp goesOn).resolve_left (Ne.symm isLast))
                takes.back

end Consoles

/-- A prompt on a console that accepts what it gets is a sequence of runs.  If
all runs end, the session is the one after a run of each line before the first
one that is empty or no text, in their order; the console gets a mark, and for
each of these lines its error on a line of its own, if its run fails, and a
mark; and the prompt fails exactly if the next line is no text.  It goes on for
ever exactly if one of the runs does. -/
theorem prompt_is_sequence_of_runs
    (session : Session)
    (steps : Nat)
    (input : ByteArray)
    {console : Sink}
    (flushes : console.refusesFlush = false)
    (takes :
      console.Takes (mark ++ replies (session.outcomes steps (heard input)))) :
    (.exhausted ∉ session.outcomes steps (heard input) →
      (on session console).run steps input =
        (ending (unheard input),
          on (session.runAll steps (heard input))
            (console.showing
              (mark ++ replies (session.outcomes steps (heard input)))))) ∧
    (((on session console).run steps input).1 = .error .exhausted ↔
      .exhausted ∈ session.outcomes steps (heard input)) := by
  have asks := ask_on session flushes takes.front
  have flushesNext : (console.showing mark).refusesFlush = false := flushes
  have answers (ends : .exhausted ∉ session.outcomes steps (heard input)) :
      (on session console).run steps input =
        (ending (unheard input),
          on (session.runAll steps (heard input))
            (console.showing
              (mark ++ replies (session.outcomes steps (heard input))))) := by
    rw [← Sink.showing_showing]
    simp only [run, asks]
    exact answerAll_on flushesNext _ ends takes.back
  refine ⟨answers, fun stops => Classical.byContradiction fun ends => ?_,
    fun goesOn => ?_⟩
  · rw [answers ends] at stops
    exact ending_ne_exhausted _ stops
  · simp only [run, asks]
    exact answerAll_of_exhausted flushesNext _ goesOn takes.back

/-- An input with a line that is rejected, one that prints, one that is no text,
and one behind. -/
def talkative : ByteArray :=
  "$\nprint true;\n".toUTF8 ++ ⟨#[0xff, 0x0a]⟩ ++ "print nil;\n".toUTF8

/-- A session that has run nothing, without natives and files. -/
def silent : Session :=
  .bare (fun _ => .error .missing) {} { clock := 0, entropy := fun _ => 0 }

/-- The console gets the error of the first line; the second line is run, and
the last one is not. -/
theorem prompt_runs_lines_before_undecodable :
    ∃ final,
      (on silent {}).run 9 talkative =
          (.error .undecodable,
            on final (Sink.showing
              {} "> [line 1] Error: Unexpected character '$'.\n> > ")) ∧
        final.machine.output.written = "true\n".toUTF8 := by
  have rejected : silent.run .unheeding 9 "$".toUTF8 =
      (.failed (.rejected (.scan ⟨1, .unexpectedCharacter '$'⟩)), silent) := by
    have refused : Program.tokens "$".toUTF8 =
        .error (.scan ⟨1, .unexpectedCharacter '$'⟩) := by
      cbv
    unfold Session.run Machine.compile Program.compile
    rw [refused]
  have scanned : Program.tokens "print true;".toUTF8 =
      .ok [⟨.keyword .printWord, "print", 1⟩, ⟨.keyword .trueWord, "true", 1⟩,
        ⟨.symbol .semicolon, ";", 1⟩, ⟨.endOfInput, "", 1⟩] := by
    cbv
  have accepted : silent.machine.compile "print true;".toUTF8 =
      (.ok ⟨[.print (.literal (.boolean true))], {}⟩, silent.machine) :=
    Machine.compile_eq_ok_iff.mpr
      ⟨0, Program.compile_of_parsed scanned (by cbv) rfl, rfl⟩
  obtain ⟨final, ends, written⟩ :
      ∃ final, silent.run .unheeding 9 "print true;".toUTF8 =
        (.finished, final) ∧
        final.machine.output.written = "true\n".toUTF8 := by
    rw [Session.run_eq_settled accepted]
    exact ⟨_, rfl, rfl⟩
  have lines : heard talkative = ["$".toUTF8, "print true;".toUTF8] := rfl
  have runs : silent.outcomes 9 (heard talkative) =
      [.failed (.rejected (.scan ⟨1, .unexpectedCharacter '$'⟩)),
        .finished] := by
    simp only [lines, Session.outcomes, rejected, ends]
  have after : silent.runAll 9 (heard talkative) = final := by
    simp only [lines, Session.runAll, Session.performAll, List.map_cons,
      List.map_nil,
      List.foldl_cons, List.foldl_nil, Session.perform, rejected, ends]
  have flushes : ({} : Sink).refusesFlush = false := rfl
  have prompted := (prompt_is_sequence_of_runs silent 9 talkative flushes rfl).1
    (by simp [runs])
  rw [after, runs] at prompted
  exact ⟨final, prompted, written⟩

end Dialogue

end LoxScript
