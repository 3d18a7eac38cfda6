import Mathlib
import LoxScript.Proofs.Compilation
import LoxScript.Proofs.Renaming.Natives
import LoxScript.Proofs.Renaming.Resolved
import LoxScript.Proofs.Renaming.Runs
import LoxScript.Proofs.Session.Life
import LoxScript.Proofs.Tree.Reparsed

namespace LoxScript

/-!
# Local names in sessions

How a local variable is called does not matter.  A source in which one variable
of one scope is renamed is accepted with the same distances, and whatever a
session has been through, it runs both sources alike: with the same output and
the same outcome, apart from the name that an error quotes.
-/

open Run

/-- The frames around a function that fits are there. -/
theorem Store.Fits.anchored
    {store : Store}
    {frame : FrameId}
    {scopes : List Scope}
    (fits : store.Fits frame scopes)
    (rooted : store.Rooted) :
    store.Anchored frame := by
  induction scopes generalizing frame with
  | nil =>
      cases fits
      exact rooted.anchored
  | cons scope outer inductionHypothesis =>
      intro distance found isFound
      have present := fits.present rooted
      obtain ⟨-, parent, isParent, fitsOuter⟩ := fits
      cases distance with
      | zero =>
          cases isFound
          exact present
      | succ further =>
          simp only [ancestor?, isParent] at isFound
          exact inductionHypothesis fitsOuter further found isFound

section SelfTwins

variable {offered : ByteArray → Prop} {machine : Machine} {r : Relabelling}

/-- A function around which nothing is marked is its own twin. -/
theorem Function.twin_self
    {store : Store}
    {function : Function}
    {inner : Marks}
    (anchored : store.Anchored function.closure)
    (plain : inner.Plain) :
    Function.Twin r (fun _ => false) store inner function function := by
  refine ⟨rfl, rfl, rfl, [], anchored.carries (.refl _ store), ?_⟩
  rw [List.append_nil]
  exact function.declaration.twin_self plain

/-- A class that is sound is its own twin. -/
theorem Class.twin_self
    {blueprint : Class}
    (rooted : machine.store.Rooted)
    (sound : blueprint.Sound offered machine) :
    Class.Twin (machine.store.likeness r fun _ => false) blueprint
      blueprint := by
  refine ⟨rfl, fun name => ?_⟩
  cases found : blueprint.findMethod? name with
  | none => exact .none
  | some method =>
      obtain ⟨program, outer, -, -, fits⟩ := sound name method found
      exact .some (Function.twin_self (fits.anchored rooted)
        Marks.plain_nil.cons)

/-- A value that is sound is its own twin. -/
theorem Value.twin_self
    {value : Value}
    (rooted : machine.store.Rooted)
    (sound : value.Sound offered machine) :
    Value.Twin (machine.store.likeness r fun _ => false) value value := by
  cases value with
  | nil => exact .nil
  | boolean value => exact .boolean
  | number value => exact .number
  | string value => exact .string
  | function function =>
      obtain ⟨program, scopes, -, -, fits, -⟩ := sound
      exact .function
        (Function.twin_self (fits.anchored rooted) Marks.plain_nil)
  | native native => exact .native
  | blueprint blueprint => exact .blueprint (Class.twin_self rooted sound)
  | object object => exact .object (Class.twin_self rooted sound)

/-- A sound machine that starts the program is its own twin. -/
theorem Machine.Sound.twin_self
    {context : Context}
    (sound : machine.Sound offered context)
    (start :
      Store.Extends (fun _ => false) r.start (fun _ => false) machine.store)
    (table : ∀ id, r.first ≤ id → id < r.bound →
      machine.distances[id]? = r.table[id]?)
    (handed : r.bound ≤ machine.nextNode) :
    machine.Twin r (fun _ => false) machine where
  store := by
    refine ⟨rfl, fun _ => rfl, ?_, rfl, ?_, rfl, start⟩
    · intro frame name
      exact relSelf _ fun value found =>
        Value.twin_self sound.rooted (sound.values frame name value found)
    · intro object name
      exact relSelf _ fun value found =>
        Value.twin_self sound.rooted (sound.fields object name value found)
  active := rfl
  distances := rfl
  output := rfl
  world := rfl
  requiring := rfl
  nextNode := rfl
  table := table
  handed := handed

end SelfTwins

/-- The same outcome, or errors that are the same but for the name that they
quote. -/
inductive Outcome.Twin (old new : String) : Outcome → Outcome → Prop where
  | same {outcome} :
      Twin old new outcome outcome
  | failed {error image} :
      RuntimeError.Twin old new error image →
      Twin old new (.failed (.runtime error)) (.failed (.runtime image))

/-- A flush counts alike for twins. -/
theorem Outcome.Twin.flushed
    {old new : String}
    {outcome image : Outcome}
    {output outputImage : Sink}
    (twin : Outcome.Twin old new outcome image)
    (same : outputImage = output) :
    Outcome.Twin old new (flushed outcome output)
      (flushed image outputImage) := by
  subst same
  cases twin with
  | same => exact .same
  | failed errors =>
      unfold LoxScript.flushed
      cases outputImage.flushFault? with
      | none => exact .failed errors
      | some fault => exact .same

/-- Statements that are twins end alike in machines that are twins. -/
theorem runStatements_agree
    {r : Relabelling}
    {context : Context}
    {steps : Nat}
    {flags : Flags}
    {machine image : Machine}
    {marks : Marks}
    {statements images : List Stmt}
    (simulates : Simulates r context steps)
    (stopping : Stopping)
    (twin : machine.Twin r flags image)
    (carries : machine.store.Carries flags machine.active marks)
    (twins : Stmt.Twins r marks statements images) :
    Outcome.Twin r.old r.new
      (runStatements context stopping steps statements machine).1
        (runStatements context stopping steps images image).1 ∧
      ∃ grown, (runStatements context stopping steps statements machine).2.Twin
        r grown (runStatements context stopping steps images image).2 := by
  induction statements generalizing flags machine image images with
  | nil =>
      cases twins
      exact ⟨.same, flags, twin⟩
  | cons head rest inductionHypothesis =>
      cases twins with
      | cons twinHead twinRest =>
          have agrees := simulates.exec twin carries twinHead
          unfold runStatements
          rw [twin.world]
          cases stopping.stops machine.world with
          | true => exact ⟨.same, flags, twin⟩
          | false =>
              cases outcome : exec context steps head machine with
              | ok flow after =>
                  obtain ⟨flowImage, afterImage, yields, grown, later,
                      twinAfter, flows⟩ :=
                    Mirrors.ok agrees outcome
                  rw [yields]
                  cases flows with
                  | normal =>
                      exact inductionHypothesis twinAfter
                        (later.carries carries) twinRest
                  | returned _ => exact ⟨.same, grown, twinAfter⟩
              | error halt after =>
                  obtain ⟨haltImage, afterImage, fails, halts, grown, later,
                      twinAfter⟩ :=
                    Mirrors.error agrees outcome
                  rw [fails]
                  cases halts with
                  | failed errors => exact ⟨.failed errors, grown, twinAfter⟩
                  | exhausted => exact ⟨.same, grown, twinAfter⟩

/-- The same token, or the new name in place of the old one. -/
inductive Token.Renamed (old new : String) : Token → Token → Prop where
  | same {token} :
      Renamed old new token token
  | renamed {line} :
      Renamed old new ⟨.identifier old, old, line⟩ ⟨.identifier new, new, line⟩

/-- Renaming keeps the kinds of tokens. -/
theorem Token.keepsKinds_renamed
    (old new : String) :
    KeepsKinds (Token.Renamed old new) := by
  intro token other renamed
  cases renamed with
  | same => exact .same
  | renamed => exact .names

/-- Every token is of the same kind as itself. -/
theorem Token.keepsKinds_avoids
    (name : String) :
    KeepsKinds (Token.Avoids name) := by
  rintro token other ⟨rfl, -⟩
  exact .same

namespace Program

/-- The scope at a site of a program. -/
def regionAt? (program : Program) : Site → Option Region
  | [] => none
  | child :: site => Stmt.regionOf? program.statements child site

/-- The program with a variable renamed in one scope: where the scope declares
it, and at exactly the nodes whose distances lead there. -/
def renamed (program : Program) (old new : String) (site : Site) : Program :=
  ⟨Stmt.renamedAll ⟨old, new, program.distances⟩ (fun place => place == site) []
      program.statements,
    program.distances⟩

/-- Token by token, the source is the one with the first tokens but for the two
names, and its tree is made of these statements and no others. -/
def Respelled
    (old new : String)
    (tokens : List Token)
    (first : NodeId)
    (statements : List Stmt)
    (source : ByteArray) : Prop :=
  ∃ others, Program.tokens source = .ok others ∧
    List.Forall₂ (Token.Renamed old new) tokens others ∧
    ∀ parsed next, parseProgram others first = (.ok parsed, next) →
    parsed = statements

end Program

/-- Natives are defined in the frames that are there. -/
theorem Session.defineNatives_eq
    (natives : List Native)
    (machine : Machine)
    (flags : Flags) :
    ∃ store, Session.defineNatives natives machine =
      { machine with store := store } ∧
      Store.Extends flags machine.store flags store := by
  induction natives generalizing machine with
  | nil =>
      exact ⟨machine.store, rfl, .refl flags machine.store⟩
  | cons native rest inductionHypothesis =>
      obtain ⟨store, same, extend⟩ :=
        inductionHypothesis (machine.defineGlobal native.name (.native native))
      exact ⟨store, same,
        (Store.Extends.define flags machine.store _ _ _).trans extend⟩

namespace Session

variable {offered : ByteArray → Prop} {session : Session} {source : ByteArray}
variable {program : Program} {compiled : Machine} {old new : String}

/-- Two runs with the same output and the same outcome, apart from the name that
an error quotes. -/
structure RunsAlike (old new : String) (run other : Outcome × Session) :
    Prop where
  outcome : Outcome.Twin old new run.1 other.1
  output : other.2.machine.output = run.2.machine.output

/-- The renaming of a variable in a program that the session has compiled. -/
def relabelling
    (session : Session)
    (program : Program)
    (compiled : Machine)
    (old new : String) : Relabelling where
  old := old
  new := new
  table := program.distances
  first := session.machine.nextNode
  bound := compiled.nextNode
  start := session.machine.store

/-- The machine in which a program starts is its own twin. -/
theorem Sound.twin_prepared
    (sound : session.Sound offered)
    (isOffered : offered source)
    (accepted : session.machine.compile source = (.ok program, compiled))
    (old new : String) :
    (Session.prepared { session with machine := compiled } program).Twin
      (session.relabelling program compiled old new) (fun _ => false)
      (Session.prepared { session with machine := compiled } program) := by
  obtain ⟨soundStart, -, -⟩ := sound.prepared isOffered accepted
  obtain ⟨next, -, rfl⟩ := Machine.compile_eq_ok_iff.mp accepted
  obtain ⟨store, same, extend⟩ := defineNatives_eq session.registered.values
    (Machine.learn { session.machine with nextNode := next } program.distances)
    fun _ => false
  have shape : Session.prepared
      { session with machine := { session.machine with nextNode := next } }
      program = _ := same
  refine soundStart.twin_self ?_ ?_ ?_
  · rw [shape]
    exact extend
  · intro id above _
    rw [shape]
    have filed : (session.machine.distances ∪ program.distances)[id]? =
        (program.distances[id]?).or session.machine.distances[id]? :=
      Std.TreeMap.getElem?_union
    exact filed.trans
      (by rw [sound.machine.unfiled id above, Option.or_none]; rfl)
  · rw [shape]
    exact Nat.le_refl next

/-- A session runs alike two programs that are twins and have the same
distances. -/
theorem Sound.runsAlike
    {statements : List Stmt}
    (sound : session.Sound offered)
    (isOffered : offered source)
    (blind : ∀ native ∈ session.natives, native.Blind session.machine.store)
    (accepted : session.machine.compile source = (.ok program, compiled))
    (proper : (session.relabelling program compiled old new).Proper)
    (twins :
      Stmt.Twins (session.relabelling program compiled old new)
        [] program.statements statements)
    (stopping : Stopping)
    (steps : Nat) :
    RunsAlike old new
      ({ session with machine := compiled }.runProgram stopping steps program)
      ({ session with machine := compiled }.runProgram stopping steps
        ⟨statements, program.distances⟩) := by
  obtain ⟨soundStart, isGlobal, -⟩ := sound.prepared isOffered accepted
  have twin := sound.twin_prepared isOffered accepted old new
  have carries := soundStart.rooted.anchored.carries
    (.refl (fun _ => false)
      (Session.prepared { session with machine := compiled } program).store)
  rw [← isGlobal] at carries
  have simulates : Simulates _ session.context steps :=
    simulates_always proper blind steps
  obtain ⟨outcomes, grown, twinAfter⟩ :=
    runStatements_agree simulates stopping twin carries twins
  exact ⟨outcomes.flushed twinAfter.output, twinAfter.output⟩

/-- The renaming suits a program that the session has compiled. -/
theorem Sound.relabelled
    {site : Site}
    {region : Region}
    (sound : session.Sound offered)
    (accepted : session.machine.compile source = (.ok program, compiled))
    (isScope : program.regionAt? site = some region)
    (declares : region.Declares old)
    (isName : Keyword.ofSpelling? new = none) :
    program.Relabelled (session.relabelling program compiled old new) := by
  obtain ⟨next, compiles, rfl⟩ := Machine.compile_eq_ok_iff.mp accepted
  have made := Program.compiled_of_compile compiles
  refine ⟨made, rfl, ?_⟩
  cases site with
  | nil => cases isScope
  | cons child inner =>
      obtain ⟨token, rfl, isOldName⟩ :=
        declares.isName
          (Stmt.orderly_regionOf? program.statements made.orderly isScope)
      have isNewName : Token.IsName ⟨.identifier new, new, 0⟩ := isName
      exact ⟨sound.machine.rooted, isOldName.ne_this, isOldName.ne_super,
        isNewName.ne_this, isNewName.ne_super⟩

/-- How a variable of a local scope is called does not matter.  For every name
that occurs nowhere in an accepted source, the program with the variable renamed
is accepted with the same distances, and the session runs it as it runs the
program; and so it does every source that spells the renamed program. -/
theorem local_names_are_irrelevant
    {tokens : List Token}
    {site : Site}
    {region : Region}
    (lives : session.Lives offered)
    (isOffered : offered source)
    (blind : ∀ native ∈ session.natives, native.Blind session.machine.store)
    (scanned : Program.tokens source = .ok tokens)
    (accepted : session.machine.compile source = (.ok program, compiled))
    (isScope : program.regionAt? site = some region)
    (declares : region.Declares old)
    (isName : Keyword.ofSpelling? new = none)
    (fresh : ∀ token ∈ tokens, token.lexeme ≠ new) :
    Program.ofStatements (program.renamed old new site).statements =
        .ok (program.renamed old new site) ∧
      (program.renamed old new site).distances = program.distances ∧
      (∀ stopping steps,
        RunsAlike old new
          ({ session with machine := compiled }.runProgram stopping
            steps program)
          ({ session with machine := compiled }.runProgram stopping steps
            (program.renamed old new site))) ∧
      ∀ other,
        Program.Respelled old new tokens session.machine.nextNode
          (program.renamed old new site).statements other →
        session.machine.compile other =
          (.ok (program.renamed old new site), compiled) ∧
          ∀ stopping steps,
            RunsAlike old new (session.run stopping steps source)
              (session.run stopping steps other) := by
  have sound := lives.sound
  have relabelled := sound.relabelled accepted isScope declares isName
  obtain ⟨next, compiles, isCompiled⟩ := Machine.compile_eq_ok_iff.mp accepted
  have parsed := Program.parsed_of_compile scanned compiles
  -- The tokens of the source are related to themselves, since none is spelled
  -- like the new name.
  have avoids : List.Forall₂ (Token.Avoids new) tokens tokens :=
    List.forall₂_same.mpr fun token member => ⟨rfl, fresh token member⟩
  obtain ⟨_, _, -, alike, -⟩ := parseProgram_ok_alike
    (Correspondence.lawful_ofTokens (Token.keepsKinds_avoids new))
    avoids rfl parsed
  have suits : Choice.SuitsAll (fun place => place == site) old
      (Stmt.regionOf? program.statements) := by
    intro child place other isChosen isRegion
    cases eq_of_beq isChosen
    cases isScope.symm.trans isRegion
    exact declares
  obtain ⟨resolved, twins⟩ := relabelled.accepts_renamed alike suits
  have runs := sound.runsAlike isOffered blind accepted relabelled.proper twins
  refine ⟨Program.ofStatements_of_resolved resolved, rfl, runs, ?_⟩
  rintro other ⟨others, scannedOther, pairs, exactly⟩
  obtain ⟨statements, _, parsedOther, -, rfl⟩ := parseProgram_ok_alike
    (Correspondence.lawful_ofTokens (Token.keepsKinds_renamed old new))
    pairs rfl parsed
  cases exactly statements next parsedOther
  have acceptedOther : session.machine.compile other =
      (.ok (program.renamed old new site), compiled) :=
    Machine.compile_eq_ok_iff.mpr
      ⟨next, Program.compile_of_parsed scannedOther parsedOther resolved,
        isCompiled⟩
  refine ⟨acceptedOther, fun stopping steps => ?_⟩
  unfold Session.run
  rw [accepted, acceptedOther]
  exact runs stopping steps

/-- A session with the standard natives, whose disk holds nothing. -/
def equipped : Session :=
  standard (fun _ => .error .missing) {} { clock := 0, entropy := fun _ => 0 }

theorem lives_equipped : equipped.Lives fun _ => True :=
  lives_standard (fun _ _ _ => trivial) _ _

/-- The natives of the session do not look into functions. -/
theorem blindBut_equipped
    (kept : Function → Prop) :
    ∀ native ∈ equipped.natives, native.BlindBut kept := by
  intro native member
  have listed : equipped.natives = Standard.natives.map Prod.snd :=
    (registerAll_eq _ Standard.natives).2
  rw [listed] at member
  obtain ⟨entry, isEntry, rfl⟩ := List.mem_map.mp member
  exact Standard.blindBut_natives kept entry isEntry

/-- The natives of the session do not look into functions, of a store or not. -/
theorem blind_equipped
    (store : Store) :
    ∀ native ∈ equipped.natives, native.Blind store :=
  blindBut_equipped _

/-- A source with a variable that a parameter shadows. -/
def shadowing (name : String) : ByteArray :=
  ("\x7b var " ++ name ++ "; fun f(a) \x7b a; \x7d f(" ++ name ++
    "); \x7d").toUTF8

/-- The tokens of that source. -/
def shadowingTokens (name : String) : List Token :=
  [⟨.symbol .leftBrace, "\x7b", 1⟩, ⟨.keyword .varWord, "var", 1⟩,
    ⟨.identifier name, name, 1⟩, ⟨.symbol .semicolon, ";", 1⟩,
    ⟨.keyword .funWord, "fun", 1⟩, ⟨.identifier "f", "f", 1⟩,
    ⟨.symbol .leftParen, "(", 1⟩, ⟨.identifier "a", "a", 1⟩,
    ⟨.symbol .rightParen, ")", 1⟩, ⟨.symbol .leftBrace, "\x7b", 1⟩,
    ⟨.identifier "a", "a", 1⟩, ⟨.symbol .semicolon, ";", 1⟩,
    ⟨.symbol .rightBrace, "\x7d", 1⟩, ⟨.identifier "f", "f", 1⟩,
    ⟨.symbol .leftParen, "(", 1⟩, ⟨.identifier name, name, 1⟩,
    ⟨.symbol .rightParen, ")", 1⟩, ⟨.symbol .semicolon, ";", 1⟩,
    ⟨.symbol .rightBrace, "\x7d", 1⟩, ⟨.endOfInput, "", 1⟩]

/-- The statements of that source. -/
def shadowingStatements (name : String) : List Stmt :=
  [.block
    [.varDecl ⟨.identifier name, name, 1⟩ none,
      .funDecl ⟨⟨.identifier "f", "f", 1⟩, [⟨.identifier "a", "a", 1⟩],
        [.expression (.reference 0 ⟨.identifier "a", "a", 1⟩)]⟩,
      .expression (.call (.reference 1 ⟨.identifier "f", "f", 1⟩)
        ⟨.symbol .rightParen, ")", 1⟩
        [.reference 2 ⟨.identifier name, name, 1⟩])]]

/-- The program of that source. -/
def shadowingProgram : Program :=
  ⟨shadowingStatements "a",
    ((({} : Distances).insert 0 0).insert 1 0).insert 2 0⟩

/-- The variable of the block may be called otherwise; the parameter keeps its
name. -/
theorem local_names_are_irrelevant_beside_shadowing :
    ∃ compiled,
      equipped.machine.compile (shadowing "a") =
        (.ok shadowingProgram, compiled) ∧
        equipped.machine.compile (shadowing "b") =
          (.ok (shadowingProgram.renamed "a" "b" [0]), compiled) ∧
        ∀ stopping steps,
          RunsAlike "a" "b" (equipped.run stopping steps (shadowing "a"))
            (equipped.run stopping steps (shadowing "b")) := by
  have scanned : Program.tokens (shadowing "a") =
      .ok (shadowingTokens "a") := by
    cbv
  have scannedOther : Program.tokens (shadowing "b") =
      .ok (shadowingTokens "b") := by
    cbv
  have parsed (name : String) :
      parseProgram (shadowingTokens name) 0 =
        (.ok (shadowingStatements name), 3) := by
    cbv
  have resolved : resolveProgram (shadowingStatements "a") =
      .ok shadowingProgram.distances := by
    rfl
  have renames : (shadowingProgram.renamed "a" "b" [0]).statements =
      shadowingStatements "b" := by
    rfl
  have respelled : Program.Respelled "a" "b" (shadowingTokens "a") 0
      (shadowingProgram.renamed "a" "b" [0]).statements (shadowing "b") := by
    refine ⟨_, scannedOther, ?_, ?_⟩
    · repeat
        first
          | exact .nil
          | refine .cons .renamed ?_
          | refine .cons .same ?_
    · intro statements next isParsed
      rw [parsed "b"] at isParsed
      cases isParsed
      exact renames.symm
  have accepted : equipped.machine.compile (shadowing "a") =
      (.ok shadowingProgram, { equipped.machine with nextNode := 3 }) :=
    Machine.compile_eq_ok_iff.mpr
      ⟨3, Program.compile_of_parsed scanned (parsed "a") resolved, rfl⟩
  have isScope : ∃ region, shadowingProgram.regionAt? [0] = some region ∧
      region.Declares "a" :=
    ⟨_, rfl, .inr ⟨⟨.identifier "a", "a", 1⟩, none, .head _, rfl⟩⟩
  have isName : Keyword.ofSpelling? "b" = none := by
    decide
  have fresh : ∀ token ∈ shadowingTokens "a", token.lexeme ≠ "b" := by
    simp [shadowingTokens]
  obtain ⟨region, found, declares⟩ := isScope
  obtain ⟨-, -, -, sources⟩ := local_names_are_irrelevant lives_equipped trivial
    (blind_equipped _) scanned accepted found declares isName fresh
  obtain ⟨acceptedOther, runs⟩ := sources _ respelled
  exact ⟨_, accepted, acceptedOther, runs⟩

end Session

end LoxScript
