import Mathlib
import LoxScript.Proofs.Machine.Straight
import LoxScript.Proofs.Session.Endings
import LoxScript.Proofs.Session.Inclusion
import LoxScript.Proofs.Session.Pieces

namespace LoxScript

/-!
# The chain of required sources

The stack of required sources grows by a path that is not on it yet and under
which the library serves an accepted source, and by nothing else.  So no path is
on it twice, it is never longer than the library has paths, and what neither
calls nor repeats anything comes to an end.
-/

open Run

/-- The library serves an accepted source under the path. -/
def Library.Accepts (library : Library) (path : String) : Prop :=
  ∃ source program next,
    library path = .ok source ∧ Program.compile source 0 = (.ok program, next)

/-- All that the library serves is found under these paths. -/
def Library.Serves (library : Library) (paths : List String) : Prop :=
  ∀ path source, library path = .ok source → path ∈ paths

/-- A name with a value is one of the names. -/
theorem NameMap.mem_names_of_find?
    {map : NameMap α}
    {name : String}
    {value : α}
    (found : map.find? name = some value) :
    name ∈ map.names := by
  obtain ⟨entries⟩ := map
  induction entries with
  | nil => cases found
  | cons entry rest inductionHypothesis =>
      obtain ⟨key, held⟩ := entry
      simp only [NameMap.find?, NameMap.findIn] at found
      split at found
      · exact List.mem_cons.mpr (.inl (Eq.symm ‹_›))
      · exact List.mem_cons_of_mem _ (inductionHypothesis found)

/-- Sources kept under their names are found under these. -/
theorem Library.serves_ofSources
    (sources : NameMap String) :
    (Library.ofSources sources).Serves sources.names := by
  intro path source served
  unfold Library.ofSources at served
  split at served
  · exact NameMap.mem_names_of_find? ‹_›
  · cases served

/-- The paths on the stack are different, and the library serves an accepted
source under each. -/
structure Machine.Chained (library : Library) (machine : Machine) : Prop where
  distinct : machine.requiring.Nodup
  served : ∀ path ∈ machine.requiring, library.Accepts path

section Steps

variable {context : Context} {steps : Nat} {keyword : Token} {path : String}
variable {machine loaded : Machine} {program : Program}

/-- A source that is being executed is not required again. -/
theorem Run.loadRequired_of_mem
    (member : path ∈ machine.requiring) :
    loadRequired context keyword path machine =
      .error (.failed (.cyclicRequire path keyword.line)) machine := by
  have isThere : machine.requiring.contains path = true := by
    simpa using member
  unfold loadRequired
  rw [bind_get, isThere, if_pos rfl]
  rfl

/-- A statement that requires it fails, whatever else it might do. -/
theorem exec_require_of_mem
    (member : path ∈ machine.requiring) :
    exec context (steps + 1) (.require keyword path) machine =
      .error (.failed (.cyclicRequire path keyword.line)) machine := by
  rw [exec, bind_of_error (loadRequired_of_mem member)]

/-- What is loaded was not being executed. -/
theorem Run.fresh_of_loadRequired
    (loads : loadRequired context keyword path machine = .ok program loaded) :
    path ∉ machine.requiring := by
  intro member
  rw [loadRequired_of_mem member] at loads
  cases loads

/-- What is loaded is an accepted source of the library. -/
theorem Run.accepts_of_loadRequired
    (loads : loadRequired context keyword path machine = .ok program loaded) :
    context.library.Accepts path := by
  obtain ⟨source, next, served, accepted⟩ := accepted_of_loadRequired loads
  obtain ⟨again, last, acceptedFirst⟩ := Program.accepted_again accepted 0
  exact ⟨source, again, last, served, acceptedFirst⟩

/-- What a task asks for is asked for with the same stack, or with one more path
on it that was loaded. -/
theorem Calls.requiring
    {task other : Task}
    {m n : Machine}
    (calls : Calls context steps task m other n) :
    n.requiring = m.requiring ∨
      ∃ path, path ∉ m.requiring ∧ context.library.Accepts path ∧
        n.requiring = path :: m.requiring := by
  obtain ⟨middle, same, seats⟩ := calls.between Machine.respected_sameContext
  cases seats with
  | here | frame => exact .inl same.requiring
  | source loads =>
      refine .inr ⟨_, fresh_of_loadRequired loads,
        accepts_of_loadRequired loads, ?_⟩
      simp only [same.requiring]

namespace Machine.Chained

/-- The same stack. -/
theorem same
    {library : Library}
    {after : Machine}
    (chained : machine.Chained library)
    (same : after.requiring = machine.requiring) :
    after.Chained library :=
  ⟨same ▸ chained.distinct, same ▸ chained.served⟩

/-- What a task asks for is asked for with different paths on the stack. -/
theorem asked
    {task other : Task}
    {after : Machine}
    (chained : machine.Chained context.library)
    (calls : Calls context steps task machine other after) :
    after.Chained context.library := by
  rcases calls.requiring with same | ⟨path, fresh, accepts, grown⟩
  · exact chained.same same
  · refine ⟨?_, ?_⟩
    · rw [grown]
      exact List.nodup_cons.mpr ⟨fresh, chained.distinct⟩
    · rw [grown]
      exact List.forall_mem_cons.mpr ⟨accepts, chained.served⟩

/-- So is all that the evaluator comes to. -/
theorem reached
    {task other : Task}
    {after : Machine}
    (chained : machine.Chained context.library)
    (reaches : Reaches context task machine other after) :
    after.Chained context.library := by
  induction reaches with
  | here => exact chained
  | call _ _ calls inductionHypothesis => exact inductionHypothesis.asked calls

/-- The stack is not longer than the library has paths. -/
theorem length_le
    {library : Library}
    {paths : List String}
    (chained : machine.Chained library)
    (serves : library.Serves paths) :
    machine.requiring.length ≤ paths.length := by
  refine chained.distinct.length_le_of_subset ?_
  intro path member
  obtain ⟨source, program, next, served, -⟩ := chained.served path member
  exact serves path source served

end Machine.Chained

/-- In a library of finitely many straight sources, whatever is required
terminates: the paths that are not on the stack get fewer with every source that
is entered. -/
theorem IncludesTerminate.ofServes
    {paths : List String}
    (serves : context.library.Serves paths)
    (straight : ∀ path source, context.library path = .ok source →
      Program.IsStraight source)
    (stack : List String) :
    IncludesTerminate context stack := by
  induction room :
    (paths.toFinset \ stack.toFinset).card using Nat.strong_induction_on
    generalizing stack with
  | _ size inductionHypothesis =>
      intro keyword path machine program loaded sameStack loads
      obtain ⟨source, next, served, accepted⟩ := accepted_of_loadRequired loads
      have fresh : path ∉ stack := sameStack ▸ fresh_of_loadRequired loads
      have kept :=
        (Machine.respected_sameContext.keeps_loadRequired context _ _).ok loads
      have fewer : (paths.toFinset \ (path :: stack).toFinset).card < size := by
        rw [← room]
        refine Finset.card_lt_card
          (Finset.ssubset_iff_of_subset ?_ |>.mpr ⟨path, ?_, ?_⟩)
        · intro other member
          simp only [Finset.mem_sdiff, List.mem_toFinset, List.mem_cons,
            not_or] at member ⊢
          exact ⟨member.1, member.2.2⟩
        · simp only [Finset.mem_sdiff, List.mem_toFinset]
          exact ⟨serves path source served, fresh⟩
        · simp
      have deeper := inductionHypothesis _ fewer (path :: stack) rfl
      refine Stmt.terminatesAll deeper program.statements
        ((straight path source served).areStraight accepted) ?_
      simp only [kept.requiring, sameStack]

/-- Straight statements that are run come to an end if what they require
does. -/
theorem runStatements_terminates
    {stack : List String}
    {statements : List Stmt}
    (includes : IncludesTerminate context stack)
    (stopping : Stopping)
    (straight : Stmt.areStraight statements = true)
    (sameStack : machine.requiring = stack) :
    ∃ enough, ∀ steps, enough ≤ steps →
      (runStatements context stopping steps statements machine).1 ≠
        .exhausted := by
  induction statements generalizing machine with
  | nil => exact ⟨0, fun _ _ => by simp [runStatements]⟩
  | cons first rest inductionHypothesis =>
      simp only [Stmt.areStraight, Bool.and_eq_true] at straight
      obtain ⟨enough, result, finished, same⟩ :=
        first.terminates includes straight.1 sameStack
      have yields := same enough (Nat.le_refl enough)
      have kept := Machine.respected_sameContext.keeps_task context enough
        (.exec first)
      cases result with
      | ok flow middle =>
          obtain ⟨further, ends⟩ :=
            inductionHypothesis straight.2
              ((kept.ok yields).requiring.trans sameStack)
          refine ⟨max enough further, fun steps atLeast => ?_⟩
          have here :=
            same steps (Nat.le_trans (Nat.le_max_left enough further) atLeast)
          unfold runStatements
          split
          · simp
          · simp only [here]
            cases flow with
            | normal =>
                exact ends steps
                  (Nat.le_trans (Nat.le_max_right enough further) atLeast)
            | returned value => simp
      | error halt middle =>
          refine ⟨enough, fun steps atLeast => ?_⟩
          have here := same steps atLeast
          unfold runStatements
          split
          · simp
          · simp only [here]
            cases halt with
            | failed error => simp
            | exhausted => exact absurd rfl (finished middle)

/-- Statements that are run one after another start with the same stack. -/
theorem Proceeds.requiring
    {stopping : Stopping}
    {statements : List Stmt}
    {statement : Stmt}
    {start : Machine}
    (proceeds :
      Proceeds context stopping steps statements machine statement start) :
    start.requiring = machine.requiring := by
  induction proceeds with
  | here _ => rfl
  | next _ yields _ inductionHypothesis =>
      exact inductionHypothesis.trans
        ((Machine.respected_sameContext.keeps_task context steps (.exec _)).ok
          yields).requiring

end Steps

namespace Session

variable {session : Session} {stopping : Stopping} {steps : Nat}
  {source : ByteArray}

/-- A run starts with an empty stack, so whatever it comes to, different paths
are on the stack. -/
theorem Reaches.chained
    {task : Task}
    {machine : Machine}
    (reaches : session.Reaches stopping steps source task machine)
    (rests : session.AtRest) :
    machine.Chained session.library := by
  obtain ⟨program, compiled, statement, start, accepted, proceeds,
    reachesTask⟩ := reaches
  have begins : start.requiring = [] := by
    rw [proceeds.requiring]
    have defines := sameContext_defineNatives session.registered.values
      (compiled.learn program.distances)
    exact defines.requiring.trans
      ((Machine.sameContext_of_compile accepted).requiring.trans
        rests.requiring)
  have chained : start.Chained session.context.library := by
    constructor <;> simp [begins]
  exact chained.reached reachesTask

/-- A source that starts by requiring another one comes to execute the first
statement of that. -/
theorem reaches_first_required
    {program included : Program}
    {compiled loaded : Machine}
    {keyword : Token}
    {path : String}
    {first : Stmt}
    {rest others : List Stmt}
    (steps : Nat)
    (accepted : session.machine.compile source = (.ok program, compiled))
    (requires : program.statements = .require keyword path :: rest)
    (loads : loadRequired session.context keyword path
      (prepared { session with machine := compiled } program) =
      .ok included loaded)
    (starts : included.statements = first :: others) :
    session.Reaches .unheeding steps source (.exec first)
      { loaded with
        requiring := path :: loaded.requiring, active := globalFrame } := by
  refine ⟨program, compiled, .require keyword path, _, accepted, ?_,
    .call 0 (.call 0 .here (.required loads)) ?_⟩
  · rw [requires]
    exact .here rfl
  · rw [starts]
    exact .firstStmt

/-- A run that ends before it runs out of steps ends so after its output is
flushed. -/
theorem flushed_ne_exhausted
    {outcome : Outcome}
    (ends : outcome ≠ .exhausted)
    (output : Sink) :
    flushed outcome output ≠ .exhausted := by
  unfold flushed
  split
  · exact absurd rfl ends
  · nofun
  · exact ends

/-- Required sources never require each other in a circle, and so never without
an end.  Whatever a run of a session comes to, the stack of required sources
holds no path twice, and only paths under which the library serves an accepted
source; with finitely many paths, as sources in memory have them, it is never
longer than there are paths.  A statement that requires a path on the stack
always fails, with the path and its own line.  And a source that calls and
repeats nothing, as the finitely many sources of the library do, is run in a
finite number of steps. -/
theorem requires_never_cycle :
    (∀ {session : Session} {stopping steps source task machine},
      session.AtRest → session.Reaches stopping steps source task machine →
        machine.requiring.Nodup ∧
          (∀ path ∈ machine.requiring, session.library.Accepts path) ∧
          (∀ paths, session.library.Serves paths →
            machine.requiring.length ≤ paths.length) ∧
          ∀ keyword path, task = .exec (.require keyword path) →
            path ∈ machine.requiring →
            ∀ steps, exec session.context (steps + 1)
              (.require keyword path) machine =
              .error (.failed (.cyclicRequire path keyword.line)) machine) ∧
    (∀ {session : Session} {stopping source paths},
      session.library.Serves paths →
      (∀ path served, session.library path = .ok served →
        Program.IsStraight served) →
      Program.IsStraight source →
        ∃ steps, (session.run stopping steps source).1 ≠ .exhausted) ∧
    ∀ sources : NameMap String,
      (Library.ofSources sources).Serves sources.names ∧
        sources.names.length = sources.entries.length := by
  refine ⟨?_, ?_, fun sources =>
    ⟨Library.serves_ofSources sources, List.length_map _⟩⟩
  · intro session stopping steps source task machine rests reaches
    have chained := reaches.chained rests
    refine ⟨chained.distinct, chained.served,
      fun paths serves => chained.length_le serves, ?_⟩
    intro keyword path _ member steps
    exact exec_require_of_mem member
  · intro session stopping source paths serves straightServed straight
    cases compiles : session.machine.compile source with
    | mk verdict compiled =>
        cases verdict with
        | error error =>
            refine ⟨0, ?_⟩
            unfold Session.run
            rw [compiles]
            nofun
        | ok program =>
            obtain ⟨next, accepted, -⟩ := Machine.compile_eq_ok_iff.mp compiles
            have includes : IncludesTerminate session.context _ :=
              .ofServes serves straightServed
                (prepared { session with machine := compiled }
                  program).requiring
            obtain ⟨enough, ends⟩ :=
              runStatements_terminates includes stopping
                (straight.areStraight accepted) rfl
            refine ⟨enough, ?_⟩
            rw [run_eq_settled compiles]
            exact flushed_ne_exhausted (ends enough (Nat.le_refl enough)) _

/-- A session with one source in memory, which requires itself. -/
def circular : Session :=
  (bare (fun _ => .error .missing) {}
    { clock := 0, entropy := fun _ => 0 }).withLibrary
    (.ofSources ⟨[("p", "require \"p\";")]⟩)

/-- The source is stopped where it requires itself. -/
theorem requires_never_cycle_in_own_source :
    (∃ keyword machine,
      circular.Reaches .unheeding 9 "require \"p\";".toUTF8
          (.exec (.require keyword "p")) machine ∧
        machine.requiring = ["p"] ∧ machine.requiring.Nodup ∧
        machine.requiring.length ≤ 1 ∧
        exec circular.context 1 (.require keyword "p") machine =
          .error (.failed (.cyclicRequire "p" 1)) machine) ∧
    ∃ steps, (circular.run .unheeding steps "require \"p\";".toUTF8).1 ≠
      .exhausted := by
  let keyword : Token := ⟨.keyword .requireWord, "require", 1⟩
  have scanned : Program.tokens "require \"p\";".toUTF8 =
      .ok [keyword, ⟨.string "p", "\"p\"", 1⟩, ⟨.symbol .semicolon, ";", 1⟩,
        ⟨.endOfInput, "", 1⟩] := by
    cbv
  have compiles : Program.compile "require \"p\";".toUTF8 0 =
      (.ok ⟨[.require keyword "p"], {}⟩, 0) :=
    Program.compile_of_parsed scanned (by cbv) rfl
  have accepted {machine : Machine} (fresh : machine.nextNode = 0) :
      machine.compile "require \"p\";".toUTF8 =
        (.ok ⟨[.require keyword "p"], {}⟩, machine) := by
    refine Machine.compile_eq_ok_iff.mpr ⟨0, ?_, ?_⟩
    · rw [fresh]
      exact compiles
    · rw [← fresh]
  have straight : Program.IsStraight "require \"p\";".toUTF8 := by
    intro program next compilesToo
    cases compiles.symm.trans compilesToo
    rfl
  have serves : circular.library.Serves ["p"] :=
    Library.serves_ofSources _
  have served : ∀ path source, circular.library path = .ok source →
      Program.IsStraight source := by
    intro path source found
    have isOnly : path = "p" := List.mem_singleton.mp (serves path source found)
    subst isOnly
    cases found
    exact straight
  refine ⟨?_, requires_never_cycle.2.1 serves served straight⟩
  let start := prepared circular ⟨[.require keyword "p"], {}⟩
  have loads : loadRequired circular.context keyword "p" start =
      .ok ⟨[.require keyword "p"], {}⟩ start :=
    loadRequired_eq_ok List.not_mem_nil rfl (accepted rfl)
  let inner : Machine :=
    { start with requiring := ["p"], active := globalFrame }
  have reaches : circular.Reaches .unheeding 9 "require \"p\";".toUTF8
      (.exec (.require keyword "p")) inner :=
    reaches_first_required 9 (accepted rfl) rfl loads rfl
  obtain ⟨distinct, -, bounded, fails⟩ :=
    requires_never_cycle.1 ⟨rfl, rfl⟩ reaches
  exact ⟨keyword, inner, reaches, rfl, distinct, bounded ["p"] serves,
    fails keyword "p" rfl (List.mem_singleton_self "p") 0⟩

end Session

end LoxScript
