import LoxScript.Proofs.Compilation.Joined
import LoxScript.Proofs.Counterpart.Sessions
import LoxScript.Proofs.Machine.Returning
import LoxScript.Proofs.Session.Renaming

namespace LoxScript

/-!
# Sources run in pieces

A source may be given to a session in pieces.  What the pieces do one after the
other, the whole does at once, if the names of the natives still have their
values in between: they get them anew before each run.
-/

open Run

variable {lines : Int} {kept : Function → Prop} {machine image : Machine}

section Natives

/-- Defining natives looks at variables only. -/
theorem Session.defineNatives_load
    (natives : List Native)
    (machine : Machine)
    (program : Program)
    (next : NodeId) :
    defineNatives natives (machine.load program next) =
      (defineNatives natives machine).load program next := by
  induction natives generalizing machine with
  | nil => rfl
  | cons native rest inductionHypothesis =>
      exact inductionHypothesis
        (machine.defineGlobal native.name (.native native))

/-- Natives are defined in the global frame, under their names. -/
theorem Session.lookup?_defineNatives
    {natives : List Native}
    {frame : FrameId}
    {name : String}
    (elsewhere : frame ≠ globalFrame ∨ ∀ native ∈ natives, native.name ≠ name) :
    (defineNatives natives machine).store.lookup? frame name =
      machine.store.lookup? frame name := by
  induction natives generalizing machine with
  | nil => rfl
  | cons native rest inductionHypothesis =>
      have elsewhereRest : frame ≠ globalFrame ∨ ∀ other ∈ rest,
          other.name ≠ name :=
        elsewhere.imp_right fun others other member =>
          others other (List.mem_cons_of_mem _ member)
      refine (inductionHypothesis elsewhereRest).trans ?_
      refine (Store.lookup?_define machine.store _ _ _ _ _).trans (if_neg ?_)
      rintro ⟨isGlobal, isNamed, -⟩
      rcases elsewhere with isLocal | others
      · exact isLocal isGlobal.symm
      · exact others native List.mem_cons_self isNamed

/-- Defining natives changes nothing but which values variables have. -/
theorem Session.defineNatives_shape
    (natives : List Native)
    (machine : Machine) :
    ∃ store, defineNatives natives machine = { machine with store := store } ∧
      store.nextFrame = machine.store.nextFrame ∧
      (∀ frame, store.parent? frame = machine.store.parent? frame) ∧
      store.fields = machine.store.fields ∧
      store.nextIdentity = machine.store.nextIdentity := by
  induction natives generalizing machine with
  | nil => exact ⟨machine.store, rfl, rfl, fun _ => rfl, rfl, rfl⟩
  | cons native rest inductionHypothesis =>
      obtain ⟨store, same, size, parents, fields, identities⟩ :=
        inductionHypothesis (machine.defineGlobal native.name (.native native))
      refine ⟨store, same, size.trans ?_, fun frame => (parents frame).trans ?_,
        fields, identities⟩
      · exact Store.nextFrame_define machine.store _ _ _
      · exact Store.parent?_define machine.store _ _ _ _

/-- Every name of a native still has the value that it gets at the start of each
run. -/
def Session.KeepsNatives (session : Session) : Prop :=
  ∀ native ∈ session.registered.values,
    session.global? native.name =
      (defineNatives session.registered.values session.machine).global?
        native.name

/-- Where the names of the natives have kept their values, a counterpart stays
one when the natives are defined anew. -/
theorem Session.KeepsNatives.counterpart
    {session : Session}
    (keeps : session.KeepsNatives)
    (counterpart : session.machine.Counterpart lines kept image) :
    (defineNatives session.registered.values session.machine).Counterpart lines
      kept image := by
  have lookups (frame : FrameId) (name : String) :
      (defineNatives session.registered.values session.machine).store.lookup?
        frame name = session.machine.store.lookup? frame name := by
    by_cases elsewhere :
        frame ≠ globalFrame ∨ ∀ native ∈ session.registered.values,
          native.name ≠ name
    · exact lookup?_defineNatives elsewhere
    · simp only [not_or, not_forall, not_not] at elsewhere
      obtain ⟨rfl, native, member, rfl⟩ := elsewhere
      exact (keeps native member).symm
  obtain ⟨store, same, size, parents, fields, identities⟩ :=
    defineNatives_shape session.registered.values session.machine
  rw [same] at lookups ⊢
  refine { counterpart with store := ?_ }
  refine ⟨counterpart.store.size.trans size.symm, fun frame => ?_,
    fun frame name => ?_, ?_,
    fun object name => ?_, counterpart.store.identities.trans identities.symm⟩
  · exact (counterpart.store.parents frame).trans (parents frame).symm
  · rw [lookups]
    exact counterpart.store.bindings frame name
  · rw [counterpart.store.instances]
    unfold Store.nextInstance
    rw [fields]
  · have held := counterpart.store.fields object name
    unfold Store.field? at held ⊢
    rw [fields]
    exact held

end Natives

/-- How a run ends and what is left of it, in pieces or at once: the same
output, the same world, the same outcome but for lines, and global variables
that differ in the codes of functions only. -/
structure Session.RunsOn (lines : Int) (pieces whole : Outcome × Session) :
    Prop where
  outcome : pieces.1.Shifted lines whole.1
  output : whole.2.machine.output = pieces.2.machine.output
  world : whole.2.machine.world = pieces.2.machine.world
  globals :
    ∀ name,
      Option.Rel (pieces.2.machine.linked lines whole.2.machine).Values
        (pieces.2.global? name) (whole.2.global? name)

/-- A run that finishes has gone through its statements. -/
theorem finished_of_flushed
    {outcome : Outcome}
    {output : Sink}
    (finishes : flushed outcome output = .finished) :
    outcome = .finished := by
  unfold flushed at finishes
  split at finishes
  · cases finishes
  · cases finishes
  · exact finishes

/-- A source that is accepted once is accepted whatever identities are handed
out. -/
theorem Program.accepted_again
    {source : ByteArray}
    {program : Program}
    {first next : NodeId}
    (accepted : compile source first = (.ok program, next))
    (start : NodeId) :
    ∃ again last, compile source start = (.ok again, last) := by
  have alike := compile_alike source first start
  rw [accepted] at alike
  generalize compile source start = outcome at alike ⊢
  cases alike with
  | accepted => exact ⟨_, _, rfl⟩

namespace Session

variable {offered : ByteArray → Prop} {session : Session}
  {source other : ByteArray}
variable {program programOther whole : Program} {next last : NodeId}

/-- The machine in which the first statement of a program is executed, once the
program has its identities. -/
def loaded (session : Session) (program : Program) (next : NodeId) : Machine :=
  defineNatives session.registered.values (session.machine.load program next)

/-- How statements that were run leave the session. -/
def ended (session : Session) (result : Outcome × Machine) :
    Outcome × Session :=
  (flushed result.1 result.2.output, { session with machine := result.2 })

/-- A source that is accepted is run by its statements. -/
theorem run_of_accepted
    (session : Session)
    (accepted : Program.compile source session.machine.nextNode =
      (.ok program, next))
    (stopping : Stopping)
    (steps : Nat) :
    session.run stopping steps source =
      session.ended
        (runStatements session.context stopping steps program.statements
          (session.loaded program next)) := by
  unfold run Machine.compile
  rw [accepted]
  rfl

/-- What is loaded has its identities and its distances. -/
theorem loaded_filed
    (unfiled : session.machine.Unfiled)
    (program : Program)
    (next : NodeId) :
    (session.loaded program next).nextNode = next ∧
      ∀ id : NodeId, session.machine.nextNode ≤ id →
        (session.loaded program next).distances[id]? =
          program.distances[id]? := by
  obtain ⟨store, shape, -⟩ :=
    defineNatives_shape session.registered.values
      (session.machine.load program next)
  unfold loaded
  rw [shape]
  exact ⟨rfl, fun _ => unfiled.loaded program next⟩

/-- A session that loads a program is in step with the session that loads a
whole in which the nodes of the program have the same distances. -/
theorem Sound.follow_loaded
    (lines : Int)
    (sound : session.Sound offered)
    (accepted : Program.compile source session.machine.nextNode =
      (.ok program, next))
    (acceptedWhole :
      Program.compile other session.machine.nextNode = (.ok whole, last))
    (further : next ≤ last)
    (kept : ∀ id : NodeId, id < next →
      whole.distances[id]? = program.distances[id]?) :
    Machine.Follow lines session.machine.Numbered session.machine
      session.machine
        (session.loaded program next) (session.loaded whole last) ∧
      List.Forall₂
        (Stmt.Alike ((session.loaded program next).linked lines
          (session.loaded whole last)))
        program.statements program.statements := by
  have itself := sound.machine.counterpart_self lines
  have recalls := Machine.Recalls.load accepted
  have recallsWhole := Machine.Recalls.load acceptedWhole
  have loads := Machine.Follow.ofTables itself recalls recallsWhole
  have defines :=
    Machine.Follow.defineNatives loads.counterpart session.registered.values
  refine ⟨loads.trans defines, defines.within.stmts
    (Stmt.alike_selfAll _ ⟨fun _ => .same, ?_⟩)⟩
  intro node member
  obtain ⟨above, below⟩ :=
    (Program.compiled_of_compile accepted).handed.within node member
  refine ⟨below, Nat.lt_of_lt_of_le below further, ?_⟩
  have given := itself.unfiled.loaded program next above
  have givenWhole := itself.unfiled.loaded whole last above
  exact givenWhole.trans ((kept node.id below).trans given.symm)

/-- A source that a session runs to its end, the session also runs to its end as
the first part of a whole, with the same output and the same variables. -/
theorem Sound.finishes_within
    {lines : Int}
    {steps : Nat}
    {stopping : Stopping}
    {after : Machine}
    (sound : session.Sound offered)
    (accompanies :
      Accompanies lines session.machine.Numbered session.context steps)
    (accepted : Program.compile source session.machine.nextNode =
      (.ok program, next))
    (acceptedWhole :
      Program.compile other session.machine.nextNode = (.ok whole, last))
    (further : next ≤ last)
    (kept : ∀ id : NodeId, id < next →
      whole.distances[id]? = program.distances[id]?)
    (finishes :
      runStatements session.context stopping steps program.statements
        (session.loaded program next) = (.finished, after)) :
    ∃ afterWhole,
      runStatements session.context stopping steps program.statements
          (session.loaded whole last) = (.finished, afterWhole) ∧
        after.Counterpart lines session.machine.Numbered afterWhole ∧
        last ≤ afterWhole.nextNode ∧
        ∀ id : NodeId, session.machine.nextNode ≤ id → id < last →
          afterWhole.distances[id]? = whole.distances[id]? := by
  obtain ⟨loads, codes⟩ :=
    sound.follow_loaded lines accepted acceptedWhole further kept
  obtain ⟨outcomes, follow⟩ :=
    runStatements_inStep accompanies stopping loads.counterpart codes
  obtain ⟨identities, filed⟩ := loaded_filed sound.machine.unfiled whole last
  rw [finishes] at outcomes follow
  generalize runStatements session.context stopping steps program.statements
    (session.loaded whole last) = ran at outcomes follow ⊢
  obtain ⟨_, afterWhole⟩ := ran
  cases outcomes
  refine ⟨afterWhole, rfl, follow.counterpart, ?_, fun id above below => ?_⟩
  · exact identities ▸ follow.recallsImage.nodes
  · exact (follow.recallsImage.distances id (identities.symm ▸ below)).trans
      (filed id above)

/-- A session that loads a program goes on in step with a machine that has the
nodes of the program already, under other identities. -/
theorem KeepsNatives.follow_loaded
    {added : List Stmt}
    {distances : Distances}
    {middle : NodeId}
    (keeps : session.KeepsNatives)
    (counterpart : session.machine.Counterpart lines kept image)
    (accepted : Program.compile source session.machine.nextNode =
      (.ok program, next))
    (alike :
      Program.Alike (.moved lines session.machine.nextNode middle) program
        ⟨added, distances⟩)
    (handed :
      ∀ id other : NodeId, id < next →
        (Correspondence.moved lines session.machine.nextNode middle).nodes
          id other →
        other < image.nextNode ∧ image.distances[other]? = distances[other]?) :
    (session.loaded program next).Counterpart lines kept image ∧
      List.Forall₂
        (Stmt.Alike ((session.loaded program next).linked lines image))
        program.statements added := by
  have recalls := Machine.Recalls.load accepted
  have loads := Machine.Follow.ofTables counterpart recalls (.refl image)
  have keepsLoaded :
      KeepsNatives
        { session with machine := session.machine.load program next } := by
    intro native member
    rw [defineNatives_load]
    exact keeps native member
  obtain ⟨identities, filed⟩ := loaded_filed counterpart.unfiled program next
  refine ⟨keepsLoaded.counterpart loads.counterpart,
    alike.linked accepted ?_ ?_⟩
  · rintro token _ rfl
    exact .moved
  · intro id further above below nodes
    obtain ⟨isHanded, same⟩ := handed id further below nodes
    exact ⟨identities.symm ▸ below, isHanded,
      same.trans ((alike.distances id further nodes).trans
        (filed id above).symm)⟩

/-- A source that is run in pieces is run as it is at once.  Two sources that
are accepted are accepted with a line break between them.  If a session that has
lived finishes the run of the first, and the names of the natives have their
values then, running the second ends as running both at once does, with the same
output and the same variables: at most the line of an error differs, by the
lines of the first source. -/
theorem pieces_run_as_whole
    {first nextOther firstOther : NodeId}
    (lives : session.Lives offered)
    (blind :
      ∀ native ∈ session.natives, native.BlindBut session.machine.Numbered)
    (accepted : Program.compile source first = (.ok program, next))
    (acceptedOther :
      Program.compile other firstOther = (.ok programOther, nextOther)) :
    (∀ start, ∃ whole last,
        Program.compile (Program.joined source other) start =
          (.ok whole, last)) ∧
      ∀ stopping steps,
        (session.run stopping steps source).1 = .finished →
        (session.run stopping steps source).2.KeepsNatives →
        RunsOn (Program.lines source)
          ((session.run stopping steps source).2.run stopping steps other)
          (session.run stopping steps (Program.joined source other)) := by
  constructor
  · intro start
    obtain ⟨again, middle, acceptedHere⟩ :=
      Program.accepted_again accepted start
    obtain ⟨whole, last, acceptedWhole, -⟩ :=
      Program.compile_joined acceptedHere acceptedOther
    exact ⟨whole, last, acceptedWhole⟩
  · intro stopping steps finishes keeps
    obtain ⟨begun, middle, acceptedHere⟩ :=
      Program.accepted_again accepted session.machine.nextNode
    rw [run_of_accepted session acceptedHere] at finishes keeps ⊢
    generalize isFirst : runStatements session.context stopping steps
      begun.statements (session.loaded begun middle) = ran at finishes keeps ⊢
    obtain ⟨outcome, after⟩ := ran
    cases finished_of_flushed finishes
    -- The second source, compiled by itself and as part of the whole.
    obtain ⟨continued, last, acceptedNext⟩ :=
      Program.accepted_again acceptedOther after.nextNode
    obtain ⟨whole, lastWhole, acceptedWhole, ⟨extent, rfl, rfl⟩, joins⟩ :=
      Program.compile_joined acceptedHere acceptedNext
    obtain ⟨added, statements, alike⟩ := joins.statements
    have accompanies :
        Accompanies (Program.lines source) session.machine.Numbered
        session.context steps := accompanies_always blind steps
    obtain ⟨afterWhole, isBegun, counterpart, handed, filed⟩ :=
      lives.sound.finishes_within accompanies acceptedHere acceptedWhole
        (Nat.le_add_right _ _) joins.distances isFirst
    -- Nothing in the first source returns, so the second one follows where it
    -- ends.
    have returns :=
      returnsAny_of_resolveProgram
      (Program.compiled_of_compile acceptedHere).resolved
    have runsWhole := run_of_accepted session acceptedWhole stopping steps
    rw [statements, runStatements_append returns (by rw [isBegun]),
      isBegun] at runsWhole
    have runsNext :=
      run_of_accepted { session with machine := after } acceptedNext stopping
      steps
    have rises : session.machine.nextNode ≤ middle := by
      simpa only [acceptedHere] using Program.compile_rises source
        session.machine.nextNode
    obtain ⟨defines, codes⟩ :=
      KeepsNatives.follow_loaded keeps counterpart acceptedNext alike (by
        rintro _ _ below ⟨distance, rfl, rfl⟩
        have inWhole :=
          Nat.add_lt_add_left (Nat.lt_of_add_lt_add_left below) middle
        exact ⟨Nat.lt_of_lt_of_le inWhole handed,
          filed _ (Nat.le_trans rises (Nat.le_add_right _ _)) inWhole⟩)
    obtain ⟨outcomes, follow⟩ :=
      runStatements_inStep accompanies stopping defines codes
    rw [runsWhole]
    exact runsNext ▸
      ⟨outcomes.flushed follow.counterpart.output, follow.counterpart.output,
        follow.counterpart.world, follow.counterpart.store.bindings globalFrame⟩

/-- A source that declares a variable. -/
def remembering : ByteArray :=
  "var a = nil;".toUTF8

/-- A source that reads that variable and then one that nobody has declared. -/
def recalling : ByteArray :=
  "print a; b;".toUTF8

/-- The program of the first source. -/
def rememberingProgram : Program :=
  ⟨[.varDecl ⟨.identifier "a", "a", 1⟩ (some (.literal .nil))], {}⟩

/-- The program of the second source. -/
def recallingProgram : Program :=
  ⟨[.print (.reference 0 ⟨.identifier "a", "a", 1⟩),
    .expression (.reference 1 ⟨.identifier "b", "b", 1⟩)], {}⟩

theorem compile_remembering : Program.compile remembering 0 =
    (.ok rememberingProgram, 0) := by
  cbv

theorem compile_recalling : Program.compile recalling 0 =
    (.ok recallingProgram, 2) := by
  cbv

/-- The natives of the session, in the order of their names. -/
theorem values_equipped :
    equipped.registered.values =
      [⟨0, "clock", 0⟩, ⟨2, "randN", 1⟩, ⟨1, "sleep", 1⟩] := by
  cbv

theorem finishes_remembering : (equipped.run .unheeding 2 remembering).1 =
    .finished := by
  rw [run_of_accepted equipped compile_remembering]
  rfl

theorem keepsNatives_remembering :
    (equipped.run .unheeding 2 remembering).2.KeepsNatives := by
  rw [run_of_accepted equipped compile_remembering]
  intro native member
  have listed : native ∈ equipped.registered.values := member
  rw [values_equipped] at listed
  simp only [List.mem_cons, List.not_mem_nil, or_false] at listed
  rcases listed with rfl | rfl | rfl <;> cbv

/-- The error of the second source stands on the second line of the whole. -/
theorem pieces_run_as_whole_at_error :
    RunsOn (Program.lines remembering)
      ((equipped.run .unheeding 2 remembering).2.run .unheeding 2 recalling)
      (equipped.run .unheeding 2 (Program.joined remembering recalling)) :=
  (pieces_run_as_whole lives_equipped (blindBut_equipped _) compile_remembering
    compile_recalling).2 .unheeding 2 finishes_remembering
    keepsNatives_remembering

end Session

end LoxScript
