import LoxScript.Proofs.Direct.Loops
import LoxScript.Proofs.Scope.Nearest
import LoxScript.Proofs.Session.Locals
import LoxScript.Proofs.Tree.Loops
import LoxScript.Proofs.Tree.Shape.Built

namespace LoxScript

/-!
# The meaning of `for` loops

The parser makes loops in terms of other statements out of the clauses of `for`
loops, with up to two scopes that are not there in the text.  A session in which
such loops are executed as they are written has the same outcomes, output,
variables and fields.  What the condition and the increment refer to is decided
by the scopes around the loop, whatever its body declares.
-/

open Run

section Scopes

/-- The scopes around the condition and the rounds of a `for` loop. -/
def Scope.ofInitializer (initializer : Option Stmt) (scopes : List Scope) :
    List Scope :=
  match initializer with
  | some first => Scope.declaring first.declared? (NameMap.empty :: scopes)
  | none => scopes

/-- The scopes around the body of a `for` loop. -/
def Scope.ofRound (increment : Option Expr) (scopes : List Scope) :
    List Scope :=
  match increment with
  | some _ => NameMap.empty :: scopes
  | none => scopes

namespace Program.Compiled

variable {program : Program} {first next : NodeId} {scopes : List Scope}
variable {initializer : Option Stmt} {condition increment : Option Expr}
  {body : Stmt}

/-- The loop in a `for` loop stands in the scope of the initializer, if there is
one. -/
theorem places_loop
    (compiled : program.Compiled first next)
    (places : program.Places
      (.stmt (Stmt.forLoop initializer condition increment body)) scopes) :
    program.Places
      (.stmt (.loop (Expr.forCondition condition) (body.forRepeated increment)))
      (Scope.ofInitializer initializer scopes) := by
  cases initializer with
  | none => rwa [Stmt.forLoop_none] at places
  | some start =>
      rw [Stmt.forLoop_some] at places
      exact compiled.places_included
        (compiled.places_rest (places_block places)) .firstStmt

/-- The condition refers to what the scopes around the loop declare. -/
theorem distances_condition
    (compiled : program.Compiled first next)
    (places : program.Places
      (.stmt (Stmt.forLoop initializer condition increment body)) scopes) :
    ∀ node ∈ optionalReferences condition, program.distances[node.id]? =
      Scope.distance? node.token.lexeme
        (Scope.ofInitializer initializer scopes) := by
  have placesCondition :=
    compiled.places_included (compiled.places_loop places) .guard
  cases condition with
  | none => exact fun node absent => by cases absent
  | some condition =>
      exact compiled.distances_of_references condition placesCondition

/-- The body stands in these scopes, and in one more without any names if there
is an increment. -/
theorem places_round
    (compiled : program.Compiled first next)
    (places : program.Places
      (.stmt (Stmt.forLoop initializer condition increment body)) scopes) :
    program.Places (.stmt body)
      (Scope.ofRound increment (Scope.ofInitializer initializer scopes)) := by
  have placesRepeated :=
    compiled.places_included (compiled.places_loop places) .repeated
  cases increment with
  | none => exact placesRepeated
  | some step =>
      exact compiled.places_included (places_block placesRepeated) .firstStmt

/-- The increment refers to what the scopes around the loop declare, from one
scope further in. -/
theorem distances_increment
    (compiled : program.Compiled first next)
    (plain : body.declared? = none)
    (places : program.Places
      (.stmt (Stmt.forLoop initializer condition increment body)) scopes) :
    ∀ node ∈ optionalReferences increment, program.distances[node.id]? =
      (Scope.distance? node.token.lexeme
        (Scope.ofInitializer initializer scopes)).map (· + 1) := by
  have placesRepeated :=
    compiled.places_included (compiled.places_loop places) .repeated
  cases increment with
  | none => exact fun node absent => by cases absent
  | some step =>
      have placesRest := compiled.places_rest (places_block placesRepeated)
      rw [plain] at placesRest
      have placesStep := compiled.places_included
        (compiled.places_included placesRest .firstStmt) .stated
      exact compiled.distances_of_references step placesStep

end Program.Compiled

end Scopes

section Rounds

/-- From one machine on, the loop comes round to another one, again and
again. -/
inductive ComesRound (context : Context) (condition : Expr) (body : Stmt) :
    Machine → Machine → Prop where
  | here {machine} :
      ComesRound context condition body machine machine
  | again {steps machine middle after} :
      ComesRound context condition body machine middle →
      Calls context steps (.execLoop condition body) middle
        (.execLoop condition body) after →
      ComesRound context condition body machine after

variable {context : Context} {condition : Expr} {body first : Stmt}
  {machine start after : Machine}

/-- However often it comes round, a loop is in the frame that it started in. -/
theorem ComesRound.extends
    (comes : ComesRound context condition body machine after) :
    machine.Extends after := by
  induction comes with
  | here => exact Machine.respected_extends.refl _
  | again _ calls inductionHypothesis =>
      refine Machine.respected_extends.trans inductionHypothesis ?_
      have keeps {steps : Nat} (task : Task) :=
        Machine.respected_extends.keeps_task context steps task
      cases calls with
      | again yields _ repeats =>
          exact Machine.respected_extends.trans
            ((keeps (.eval condition)).ok yields)
            ((keeps (.exec body)).ok repeats)

/-- All rounds are in the frame that was allocated for the initializer. -/
theorem ComesRound.active_eq
    {steps : Nat}
    (initialized :
      exec context steps first
        { machine with
          store := machine.store.allocate ⟨NameMap.empty, some machine.active⟩
          active := machine.store.nextFrame } = .ok .normal start)
    (comes : ComesRound context condition body start after) :
    after.active = machine.store.nextFrame ∧
      after.store.parent? machine.store.nextFrame = some machine.active := by
  have extends₁ :=
    (Machine.respected_extends.keeps_task context steps (.exec first)).ok
      initialized
  have extends₂ := Machine.respected_extends.trans extends₁ comes.extends
  refine ⟨extends₂.active, ?_⟩
  rw [extends₂.parents _ (by simp [Store.nextFrame_allocate])]
  exact Store.parent?_allocate_nextFrame _ _

end Rounds

/-- The machines have written the same, run in the same world, and hold the same
variables and fields. -/
structure Machine.Agrees (machine image : Machine) : Prop where
  output : image.output = machine.output
  world : image.world = machine.world
  bindings :
    ∀ frame name,
      image.store.lookup? frame name = machine.store.lookup? frame name
  fields : ∀ object name,
    image.store.field? object name = machine.store.field? object name

namespace Session

/-- After whatever the host has done, a session whose iterations have neither
scopes nor frames of their own agrees with the session as ever, and whatever is
run next ends alike. -/
theorem direct_agrees
    {disk : Disk}
    {output : Sink}
    {world : World}
    {actions : List HostAction}
    (lends : (bare disk output world).Lends actions)
    (iterations : Iterations) :
    ((bare disk output world).performAll actions).machine.Agrees
        ((bare disk output world).performAllBy (.direct iterations)
          actions).machine ∧
      ∀ action,
        ((bare disk output world).performAllBy (.direct iterations)
            actions).outcomeBy? (.direct iterations) action =
          ((bare disk output world).performAll actions).outcome? action := by
  have lives : (bare disk output world).Lives fun _ => True :=
    .bare fun _ _ _ => trivial
  obtain ⟨folded, livesAfter⟩ :=
    (folded_bare iterations disk output world).performAll lives lends
  have store := folded.machine.store
  exact ⟨⟨folded.machine.output, folded.machine.world, store.bindings,
    store.field?⟩, folded.outcome livesAfter.sound⟩

/-- Wherever a `for` statement is parsed, the result is the loop of what its
clauses spell, and its body declares nothing where the loop stands.  A program
that is a `for` statement is parsed to the loop of what its clauses spell, and a
part is missing exactly where its clause is empty.

What a host runs may be run by an interpreter of its choice.  By the usual one
it is run as ever.  By one that executes any loops as they are written, the
outcomes, the output and all variables and fields are the same.  To execute a
`for` loop as it is written is to execute its initializer once in a new frame,
and in this frame, until the condition is falsy or the body returns, round after
round the condition, the body and the increment.  The condition and the
increment have the distances that the scopes around the loop give, whatever the
body declares, and the body stands in the same scopes; the increment is one
scope further in.  However often the loop comes round, it is in the one frame of
its initializer. -/
theorem for_loops_run_as_written
    (disk : Disk)
    (output : Sink)
    (world : World)
    {actions : List HostAction}
    (lends : (bare disk output world).Lends actions)
    (iterations : Iterations) :
    (∀ depth cursor made after, cursor.finish.kind = .endOfInput →
      cursor.current.kind = .keyword .forWord →
      Grammar.statement depth cursor = .ok made after →
      ∃ (keyword : Token) (written : ForTokens) (initializer : Option Stmt)
        (condition increment : Option Expr) (body : Stmt),
        cursor.pending = keyword :: written.all ++ after.pending ∧
          written.Spells initializer condition increment body cursor.nextNode
            after.nextNode ∧
          made = Stmt.forLoop initializer condition increment body ∧
            body.declared? = none) ∧
    (∀ (written : ForTokens) initializer condition increment body first next,
      written.Spells initializer condition increment body first next →
      (∀ keyword finish, keyword.kind = .keyword .forWord →
        Sealed (keyword :: written.all) finish →
        parseProgram (keyword :: written.all ++ [finish]) first =
          (.ok [Stmt.forLoop initializer condition increment body], next)) ∧
      (initializer = none ↔ ∃ semicolon, written.initializer = [semicolon]) ∧
      (condition = none ↔ written.condition = []) ∧
      (increment = none ↔ written.increment = [])) ∧
    ((bare disk output world).performAllBy .usual actions =
        (bare disk output world).performAll actions ∧
      ∀ session action,
        outcomeBy? .usual session action = session.outcome? action) ∧
    (((bare disk output world).performAll actions).machine.Agrees
        ((bare disk output world).performAllBy (.direct iterations)
          actions).machine ∧
      ∀ action,
        ((bare disk output world).performAllBy (.direct iterations)
            actions).outcomeBy? (.direct iterations) action =
          ((bare disk output world).performAll actions).outcome? action) ∧
    ∀ initializer condition increment body, body.declared? = none →
      (∃ others : Iterations, others.Reads body increment) ∧
      (iterations.Reads body increment →
        ∀ context machine result, (∀ after, result ≠ .error .exhausted after) →
          ((∃ steps,
              (Evaluator.direct iterations context steps).exec
                (Stmt.forLoop initializer condition increment body) machine =
              result) ↔
            ∃ steps limit,
              (Evaluator.direct iterations context steps).forDirectly
                initializer condition increment body limit machine =
              result)) ∧
      (∀ source first program next scopes,
        Program.compile source first = (.ok program, next) →
        program.Places
          (.stmt (Stmt.forLoop initializer condition increment body)) scopes →
        (∀ node ∈ optionalReferences condition,
          program.distances[node.id]? =
            Scope.distance? node.token.lexeme
              (Scope.ofInitializer initializer scopes)) ∧
        (∀ node ∈ optionalReferences increment,
          program.distances[node.id]? =
            (Scope.distance? node.token.lexeme
              (Scope.ofInitializer initializer scopes)).map (· + 1)) ∧
        program.Places (.stmt body)
          (Scope.ofRound increment (Scope.ofInitializer initializer scopes))) ∧
      ∀ context steps (machine : Machine) start after, ∀ initial ∈ initializer,
        exec context steps initial
            { machine with
              store := machine.store.allocate
                ⟨NameMap.empty, some machine.active⟩
              active := machine.store.nextFrame } = .ok .normal start →
        ComesRound context (Expr.forCondition condition)
          (body.forRepeated increment) start after →
        after.active = machine.store.nextFrame ∧
          after.store.parent? machine.store.nextFrame =
            some machine.active := by
  refine ⟨fun depth cursor made after => Grammar.forTokens_of_statement,
    fun written initializer condition increment body first next spells =>
      ⟨fun keyword finish => spells.parses, spells.absent_iff⟩,
    ⟨performAllBy_usual _ actions, outcomeBy?_usual⟩,
    direct_agrees lends iterations,
    fun initializer condition increment body plain =>
      ⟨Iterations.exists_reads plain increment,
        fun reads context machine result finished =>
          Evaluator.exec_forLoop_iff reads initializer condition finished,
        ?_, ?_⟩⟩
  · intro source first program next scopes compiles places
    have compiled := Program.compiled_of_compile compiles
    exact ⟨compiled.distances_condition places,
      compiled.distances_increment plain places, compiled.places_round places⟩
  · intro context steps machine start after initial _ initialized comes
    exact comes.active_eq initialized

/-- A function that is declared in the body of a loop reads its variable when
the loop is over. -/
def looping : List HostAction :=
  [.run .heeding 20
    ("var kept; for (var go = true; go; go = false) " ++
      "\x7b fun f() \x7b print go; \x7d kept = f; \x7d kept();").toUTF8]

/-- The tokens of `(start; more; next) round;`. -/
def loopClauses : ForTokens where
  left := ⟨.symbol .leftParen, "(", 1⟩
  initializer :=
    [⟨.identifier "start", "start", 1⟩, ⟨.symbol .semicolon, ";", 1⟩]
  condition := [⟨.identifier "more", "more", 1⟩]
  semicolon := ⟨.symbol .semicolon, ";", 1⟩
  increment := [⟨.identifier "next", "next", 1⟩]
  right := ⟨.symbol .rightParen, ")", 1⟩
  body := [⟨.identifier "round", "round", 1⟩, ⟨.symbol .semicolon, ";", 1⟩]

/-- Each of the clauses spells a reference. -/
theorem loopClauses_spells :
    loopClauses.Spells
      (some (.expression (.reference 0 ⟨.identifier "start", "start", 1⟩)))
      (some (.reference 1 ⟨.identifier "more", "more", 1⟩))
      (some (.reference 2 ⟨.identifier "next", "next", 1⟩))
      (.expression (.reference 3 ⟨.identifier "round", "round", 1⟩)) 0 4 := by
  have reference {name : Token} {first : NodeId} (isName : name.IsIdentifier) :
      Phrase.Derives (.expr 0 (.reference first name)) first [name]
        (first + 1) :=
    (Phrase.Derives.reference isName).alone.loosen (Nat.zero_le 7)
      (Nat.le_refl 7)
  exact .intro rfl (.evaluated (reference ⟨"start", rfl⟩) rfl)
    (.present (reference ⟨"more", rfl⟩))
    rfl (.present (reference ⟨"next", rfl⟩)) rfl
      (.expression (reference ⟨"round", rfl⟩) rfl)

/-- A loop is parsed to what its clauses spell, and executed as it is written or
as ever, it shares its variable with the function. -/
theorem for_loop_shares_its_variable :
    parseProgram
        (⟨.keyword .forWord, "for", 1⟩ :: loopClauses.all ++
          [⟨.endOfInput, "", 1⟩]) 0 =
      (.ok [Stmt.forLoop
        (some (.expression (.reference 0 ⟨.identifier "start", "start", 1⟩)))
        (some (.reference 1 ⟨.identifier "more", "more", 1⟩))
        (some (.reference 2 ⟨.identifier "next", "next", 1⟩))
        (.expression (.reference 3 ⟨.identifier "round", "round", 1⟩))], 4) ∧
    (quiet.performAllBy (.direct .always) looping).machine.output.written =
      "false\n".toUTF8 ∧
      (quiet.performAll looping).machine.output.written = "false\n".toUTF8 := by
  have lends : quiet.Lends looping := ⟨fun _ _ => nofun, trivial⟩
  obtain ⟨-, parses, -, ⟨agreeing, -⟩, -⟩ :=
    for_loops_run_as_written _ _ _ lends .always
  have agrees : (quiet.performAll looping).machine.Agrees
      (quiet.performAllBy (.direct .always) looping).machine := agreeing
  have isSealed :
      Sealed (⟨.keyword .forWord, "for", 1⟩ :: loopClauses.all)
        ⟨.endOfInput, "", 1⟩ :=
    ⟨rfl, by simp [ForTokens.all, loopClauses]⟩
  have writes :
      (quiet.performAllBy (.direct .always) looping).machine.output.written =
        "false\n".toUTF8 := by
    decide +kernel
  refine ⟨(parses _ _ _ _ _ _ _ loopClauses_spells).1 _ _ rfl isSealed,
    writes, ?_⟩
  rw [← agrees.output, writes]

end Session

end LoxScript
