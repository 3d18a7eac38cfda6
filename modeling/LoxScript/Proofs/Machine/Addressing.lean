import LoxScript.Proofs.Machine.Declaration
import LoxScript.Proofs.Machine.Tasks

namespace LoxScript

/-!
# The evaluator stays where the analysis was

A task is ready if the code it is about stands, in a program that the machine
knows, in scopes that the active frame fits.  Doing a ready task keeps the
machine sound, and every task that it asks for on the way is ready again.  So
the frames around a node at run time are those of the scopes that the analysis
had there.
-/

open Run

variable (offered : ByteArray → Prop)

/-- The part belongs to a program that the machine knows, and the active frame
fits the scopes around it. -/
def Machine.Located (machine : Machine) (part : Part) : Prop :=
  ∃ program scopes,
    machine.Knows offered program ∧ program.Places part scopes ∧
      machine.Fits scopes

/-- The active frame fits the scopes around an expression.  The superclass of a
class is read before the class has its name, which is not that of the
superclass. -/
def Machine.FitsAt (machine : Machine) (expr : Expr) (scopes : List Scope) :
    Prop :=
  machine.Fits scopes ∨
    ∃ id name declared outside,
      expr = .reference id name ∧ name.lexeme ≠ declared.lexeme ∧
        scopes = Scope.declaring (some declared) outside ∧ machine.Fits outside

namespace Task

/-- The task can be done in the machine. -/
def Ready (machine : Machine) : Task → Prop
  | .eval expr =>
      ∃ program scopes,
        machine.Knows offered program ∧ program.Places (.expr expr) scopes ∧
          machine.FitsAt expr scopes
  | .evalAll exprs => machine.Located offered (.exprs exprs)
  | .apply callee arguments =>
      callee.Sound offered machine ∧
        (∀ argument ∈ arguments, argument.Sound offered machine) ∧
        callee.arity = arguments.length
  | .call function arguments =>
      function.Sound offered machine ∧
        (∀ argument ∈ arguments, argument.Sound offered machine) ∧
        function.arity = arguments.length
  | .result function flow =>
      function.Sound offered machine ∧ flow.Sound offered machine
  | .exec statement => machine.Located offered (.stmt statement)
  | .execAll statements => machine.Located offered (.stmts statements)
  | .execLoop condition body =>
      machine.Located offered (.stmt (.loop condition body))

/-- What a task may have done, given what it yields. -/
def Good (before : Machine) : (task : Task) → task.Out → Machine → Prop
  | .eval _ => fun (value : Value) after => value.Sound offered after
  | .evalAll _ =>
      fun (values : List Value) after => ∀ value ∈ values,
        value.Sound offered after
  | .apply _ _ => fun (value : Value) after => value.Sound offered after
  | .call _ _ => fun (value : Value) after => value.Sound offered after
  | .result _ _ => fun (value : Value) after => value.Sound offered after
  | .exec statement => fun (flow : Flow) after =>
      flow.Sound offered after ∧
        (flow = .normal → Declares statement.declared? before after)
  | .execAll _ => fun (flow : Flow) after => flow.Sound offered after
  | .execLoop _ _ => fun (flow : Flow) after =>
      flow.Sound offered after ∧ (flow = .normal → Declares none before after)

/-- The frame that may get new names while a task is done. -/
def opened (machine : Machine) : Task → Option FrameId
  | .exec _ => some machine.active
  | .execAll _ => some machine.active
  | .execLoop _ _ => some machine.active
  | _ => none

end Task

/-- Ready tasks, done in at most so many steps, behave. -/
def Works (context : Context) (steps : Nat) : Prop :=
  ∀ (task : Task) (machine : Machine),
    machine.Sound offered context → task.Ready offered machine →
    Behaves offered context (task.opened machine)
      (task.run context steps) machine (task.Good offered machine)

variable {offered} {context : Context} {machine after : Machine} {steps : Nat}

namespace Machine.Located

variable {part other : Part}

/-- What a located part includes is located. -/
theorem included
    (located : machine.Located offered part)
    (includes : part.Includes other) :
    machine.Located offered other := by
  obtain ⟨program, scopes, knows, places, fits⟩ := located
  obtain ⟨first, next, compiled, -⟩ := knows.compiled
  exact ⟨program, scopes, knows, compiled.places_included places includes, fits⟩

/-- A located part stays located while no frame is open. -/
theorem advance
    (located : machine.Located offered part)
    (sound : machine.Sound offered context)
    (advances : machine.Advances offered context none after) :
    after.Located offered part := by
  obtain ⟨program, scopes, knows, places, fits⟩ := located
  exact ⟨program, scopes, knows.later advances.precedes, places,
    fits.advance sound advances⟩

/-- A located expression can be evaluated. -/
theorem ready
    {expr : Expr}
    (located : machine.Located offered (.expr expr)) :
    (Task.eval expr).Ready offered machine := by
  obtain ⟨program, scopes, knows, places, fits⟩ := located
  exact ⟨program, scopes, knows, places, .inl fits⟩

/-- A located part that declares nothing stays located when it is done. -/
theorem again
    {statement : Stmt}
    (located : machine.Located offered part)
    (precedes : machine.Precedes after)
    (plain : statement.declared? = none)
    (declares : Declares statement.declared? machine after) :
    after.Located offered part := by
  obtain ⟨program, scopes, knows, places, fits⟩ := located
  rw [plain] at declares
  exact ⟨program, scopes, knows.later precedes, places, declares scopes fits⟩

/-- A located statement is orderly. -/
theorem orderly
    {statement : Stmt}
    (located : machine.Located offered (.stmt statement)) :
    statement.Orderly := by
  obtain ⟨program, scopes, knows, ⟨analysis, visits, -⟩, -⟩ := located
  obtain ⟨first, next, compiled, -⟩ := knows.compiled
  exact compiled.part_orderly visits

end Machine.Located

/-- An expression that is ready and not a name is located. -/
theorem Task.Ready.located
    {expr : Expr}
    (ready : (Task.eval expr).Ready offered machine)
    (compound : ∀ id name, expr ≠ .reference id name) :
    machine.Located offered (.expr expr) := by
  obtain ⟨program, scopes, knows, places, fits | ⟨id, name, _, _, same, _⟩⟩ :=
    ready
  · exact ⟨program, scopes, knows, places, fits⟩
  · exact absurd same (compound id name)

namespace Works

variable (works : Works offered context steps)
  (sound : machine.Sound offered context)

include works sound

/-- What a successful evaluation leaves behind. -/
theorem eval_ok
    {expr : Expr}
    {value : Value}
    (ready : (Task.eval expr).Ready offered machine)
    (yields : eval context steps expr machine = .ok value after) :
    machine.Advances offered context none after ∧ value.Sound offered after :=
  Leads.ok (works (.eval expr) machine sound ready) yields

/-- What a successful evaluation of several expressions leaves behind. -/
theorem evalAll_ok
    {exprs : List Expr}
    {values : List Value}
    (ready : (Task.evalAll exprs).Ready offered machine)
    (yields : evalAll context steps exprs machine = .ok values after) :
    machine.Advances offered context none after ∧
      ∀ value ∈ values, value.Sound offered after :=
  Leads.ok (works (.evalAll exprs) machine sound ready) yields

/-- What a successful execution leaves behind. -/
theorem exec_ok
    {statement : Stmt}
    {flow : Flow}
    (ready : (Task.exec statement).Ready offered machine)
    (yields : exec context steps statement machine = .ok flow after) :
    machine.Advances offered context (some machine.active) after ∧
      flow.Sound offered after ∧
        (flow = .normal → Declares statement.declared? machine after) :=
  Leads.ok (works (.exec statement) machine sound ready) yields

/-- The left of two operands is evaluated, and the right one is located after
that. -/
theorem located_after
    {expr : Expr}
    {part : Part}
    {value : Value}
    (located : machine.Located offered part)
    (ready : (Task.eval expr).Ready offered machine)
    (yields : eval context steps expr machine = .ok value after) :
    after.Sound offered context ∧ after.Located offered part := by
  obtain ⟨advances, -⟩ := eval_ok works sound ready yields
  exact ⟨advances.sound, located.advance sound advances⟩

end Works

namespace NameMap

/-- What is found in a map that is filled from a list. -/
theorem find?_foldl_insert
    (entries : List (String × α))
    (map : NameMap α)
    (name : String) :
    (entries.foldl (fun map entry => map.insert entry.1 entry.2) map).contains
      name =
        (decide (name ∈ entries.map Prod.fst) || map.contains name) ∧
      ∀ value,
        (entries.foldl (fun map entry => map.insert entry.1 entry.2) map).find?
          name =
            some value →
          (name, value) ∈ entries ∨ map.find? name = some value := by
  induction entries generalizing map with
  | nil =>
      exact ⟨by simp, fun value found => .inr found⟩
  | cons entry rest inductionHypothesis =>
      obtain ⟨contained, comes⟩ :=
        inductionHypothesis (map.insert entry.1 entry.2)
      refine ⟨?_, ?_⟩
      · rw [List.foldl_cons, contained, contains_insert]
        by_cases here : entry.1 = name
        · simp [here]
        · have same : name ∈ (entry :: rest).map Prod.fst ↔
              name ∈ rest.map Prod.fst := by
            rw [List.map_cons, List.mem_cons, or_iff_right (Ne.symm here)]
          rw [decide_eq_decide.mpr same, decide_eq_false here, Bool.false_or]
      · intro value found
        rcases comes value found with later | earlier
        · exact .inl (List.mem_cons_of_mem entry later)
        · rw [find?_insert] at earlier
          split at earlier
          · rename_i same
            cases earlier
            exact .inl (by simp [← same])
          · exact .inr earlier

/-- The names of a map that is filled from a list. -/
theorem contains_ofList
    (entries : List (String × α))
    (name : String) :
    (ofList entries).contains name = decide (name ∈ entries.map Prod.fst) := by
  rw [ofList, (find?_foldl_insert entries empty name).1]
  simp [contains, empty, find?, findIn]

/-- The values of a map that is filled from a list. -/
theorem mem_of_find?_ofList
    {entries : List (String × α)}
    {name : String}
    {value : α}
    (found : (ofList entries).find? name = some value) :
    (name, value) ∈ entries := by
  rcases (find?_foldl_insert entries empty name).2 value found with
    member | impossible
  · exact member
  · cases impossible

end NameMap

/-- The values in the frame of a call are the arguments. -/
theorem mem_of_find?_callFrame
    {function : Function}
    {arguments : List Value}
    {name : String}
    {value : Value}
    (found : (callFrame function arguments).bindings.find? name = some value) :
    value ∈ arguments :=
  (List.of_mem_zip (NameMap.mem_of_find?_ofList found)).2

/-- The names in the frame of a complete call are those of the parameters. -/
theorem contains_callFrame
    {function : Function}
    {arguments : List Value}
    (complete : function.arity = arguments.length)
    (name : String) :
    (callFrame function arguments).bindings.contains name =
      decide (name ∈ function.declaration.params.map Token.lexeme) := by
  have enough : (function.declaration.params.map Token.lexeme).length ≤
      arguments.length := by
    rw [List.length_map]
    exact Nat.le_of_eq complete
  rw [callFrame, NameMap.contains_ofList, List.map_fst_zip enough]

/-- The machine in a new frame. -/
def Machine.entering (machine : Machine) (added : Frame) : Machine :=
  { machine with
    store := machine.store.allocate added
    active := machine.store.nextFrame }

/-- In the frame of a complete call, the active frame fits the scope of the
parameters. -/
theorem fits_callFrame
    {function : Function}
    {arguments : List Value}
    {scopes : List Scope}
    (sound : machine.Sound offered context)
    (complete : function.arity = arguments.length)
    (isName : ∀ param ∈ function.declaration.params, param.IsName)
    (fits : machine.store.Fits function.closure scopes) :
    (machine.entering (callFrame function arguments)).Fits
      (Scope.ofParams function.declaration.params NameMap.empty :: scopes) := by
  have grows :=
    Store.Grows.allocate machine.store (callFrame function arguments)
  have plain := Scope.plain_ofParams isName
  have names (name : String) :
      (machine.store.allocate (callFrame function arguments)).holds
        machine.store.nextFrame name =
        decide (name ∈ function.declaration.params.map Token.lexeme) := by
    rw [Store.holds, Store.lookup?_allocate_nextFrame,
      ← contains_callFrame complete]
    rfl
  have ready (name : String) :
      (Scope.ofParams function.declaration.params NameMap.empty).find? name =
        some true ↔
        name ∈ function.declaration.params.map Token.lexeme := by
    rw [Scope.find?_ofParams]
    split
    · rename_i member
      simp [member]
    · rename_i missing
      simp [missing, NameMap.find?, NameMap.empty, NameMap.findIn]
  refine ⟨⟨⟨?_, ?_, ?_⟩, function.closure, ?_,
    fits.grow sound.rooted grows⟩, ?_⟩
  · intro name isReady
    exact (names name).trans (decide_eq_true ((ready name).mp isReady))
  · intro contained
    rw [plain.lacksThis] at contained
    cases contained
  · intro contained
    rw [plain.lacksSuper] at contained
    cases contained
  · exact Store.parent?_allocate_nextFrame machine.store _
  · rintro _ ⟨⟩ name unready
    exact (names name).trans (decide_eq_false fun member =>
      unready ((ready name).mpr member))

/-- In the frame of a block, the active frame fits an empty scope. -/
theorem fits_block
    {scopes : List Scope}
    (sound : machine.Sound offered context)
    (fits : machine.Fits scopes) :
    (machine.entering ⟨NameMap.empty, some machine.active⟩).Fits
      (NameMap.empty :: scopes) := by
  have grows :=
    Store.Grows.allocate machine.store ⟨NameMap.empty, some machine.active⟩
  refine ⟨⟨⟨?_, ?_, ?_⟩, machine.active, ?_,
    fits.chain.grow sound.rooted grows⟩, ?_⟩
  · intro name isReady
    cases isReady
  · intro contained
    cases contained
  · intro contained
    cases contained
  · exact Store.parent?_allocate_nextFrame machine.store _
  · rintro _ ⟨⟩ name unready
    exact congrArg Option.isSome
      (Store.lookup?_allocate_nextFrame machine.store _ name)

/-- The active frame does not count for what the machine holds. -/
theorem Machine.Sound.setActive
    (sound : machine.Sound offered context)
    (frame : FrameId)
    (requiring : List String) :
    Machine.Sound offered context
      { machine with active := frame, requiring := requiring } :=
  sound.grow (.ofStore (.refl _) rfl rfl) sound.unfiled (fun _ _ _ => .inl)
    fun _ _ _ => .inl

/-- In a machine that knows a program, its statements are located in the global
frame. -/
theorem located_program
    {program : Program}
    (knows : machine.Knows offered program)
    (isGlobal : machine.active = globalFrame) :
    machine.Located offered (.stmts program.statements) := by
  refine ⟨program, [], knows, Program.Compiled.places_statements program,
    isGlobal, ?_⟩
  intro scope isHead
  cases isHead

/-- An initializer is evaluated while its name is not yet there. -/
theorem located_initializer
    {name : Token}
    {initializer : Expr}
    (located :
      machine.Located offered (.stmt (.varDecl name (some initializer)))) :
    machine.Located offered (.expr initializer) := by
  have isName : name.IsName := by
    simpa [Stmt.Orderly] using located.orderly
  obtain ⟨program, scopes, knows, places, fits⟩ := located
  obtain ⟨first, next, compiled, -⟩ := knows.compiled
  obtain ⟨free, placesInitializer⟩ := compiled.places_initializer places
  refine ⟨program, _, knows, placesInitializer, ?_⟩
  cases scopes with
  | nil =>
      exact fits
  | cons scope outer =>
      obtain ⟨⟨isMatch, hasParent⟩, isExact⟩ := fits
      have absent : scope.find? name.lexeme ≠ some true := by
        intro ready
        have contained := free scope rfl
        simp [NameMap.contains, ready] at contained
      refine ⟨⟨⟨?_, ?_, ?_⟩, hasParent⟩, ?_⟩
      · intro wanted ready
        rw [NameMap.find?_insert] at ready
        split at ready
        · cases ready
        · exact isMatch.names wanted ready
      · intro contained
        refine isMatch.this ?_
        simpa [NameMap.contains_insert, isName.ne_this] using contained
      · intro contained
        refine isMatch.super ?_
        simpa [NameMap.contains_insert, isName.ne_super] using contained
      · rintro _ ⟨⟩ wanted unready
        rw [NameMap.find?_insert] at unready
        split at unready
        · rename_i same
          exact isExact scope rfl wanted (same ▸ absent)
        · exact isExact scope rfl wanted unready

/-- A superclass is read before the class has its name. -/
theorem ready_superclass
    {name : Token}
    {named : SuperclassRef}
    {methods : List FunctionDecl}
    (located :
      machine.Located offered (.stmt (.classDecl name (some named) methods))) :
    (Task.eval named.expr).Ready offered machine := by
  obtain ⟨program, scopes, knows, places, fits⟩ := located
  obtain ⟨first, next, compiled, -⟩ := knows.compiled
  obtain ⟨different, placesNamed⟩ := compiled.places_superclass places
  exact ⟨program, _, knows, placesNamed,
    .inr ⟨named.id, named.name, name, scopes, rfl, different, rfl, fits⟩⟩

/-- The statements after the first one are located where the first one has
declared its name. -/
theorem located_rest
    {first : Stmt}
    {rest : List Stmt}
    (located : machine.Located offered (.stmts (first :: rest)))
    (precedes : machine.Precedes after)
    (declares : Declares first.declared? machine after) :
    after.Located offered (.stmts rest) := by
  obtain ⟨program, scopes, knows, places, fits⟩ := located
  obtain ⟨_, _, compiled, -⟩ := knows.compiled
  exact ⟨program, _, knows.later precedes, compiled.places_rest places,
    declares scopes fits⟩

/-- The body of a function is located in the frame of a complete call. -/
theorem located_body
    {function : Function}
    {arguments : List Value}
    (sound : machine.Sound offered context)
    (isSound : function.Sound offered machine)
    (complete : function.arity = arguments.length) :
    (machine.entering (callFrame function arguments)).Located offered
      (.stmts function.declaration.body) := by
  obtain ⟨program, scopes, knows, places, fits, -⟩ := isSound
  obtain ⟨_, _, compiled, -⟩ := knows.compiled
  obtain ⟨analysis, visits, rfl⟩ := places
  have orderly : function.declaration.Orderly := compiled.part_orderly visits
  have isName : ∀ param ∈ function.declaration.params, param.IsName := by
    revert orderly
    cases function.declaration
    intro orderly
    simp only [FunctionDecl.Orderly] at orderly
    exact orderly.1
  refine ⟨program, _, knows.later ?_, compiled.places_body
    ⟨analysis, visits, rfl⟩, fits_callFrame sound complete isName fits⟩
  exact .ofStore (.allocate _ _) rfl rfl

/-- The statements of a block are located in the frame of the block. -/
theorem located_block
    {body : List Stmt}
    (sound : machine.Sound offered context)
    (located : machine.Located offered (.stmt (.block body))) :
    (machine.entering ⟨NameMap.empty, some machine.active⟩).Located offered
      (.stmts body) := by
  obtain ⟨program, scopes, knows, places, fits⟩ := located
  refine ⟨program, _, knows.later ?_, Program.Compiled.places_block places,
    fits_block sound fits⟩
  exact .ofStore (.allocate _ _) rfl rfl

/-- A new frame with sound values is entered. -/
theorem sound_entering
    {added : Frame}
    (sound : machine.Sound offered context)
    (contents : ∀ name value, added.bindings.find? name = some value →
      value.Sound offered machine) :
    (machine.entering added).Sound offered context :=
  (machine.advances_allocate sound contents none).sound.setActive _ _

/-- The frame of a call is entered. -/
theorem sound_entering_call
    {arguments : List Value}
    (sound : machine.Sound offered context)
    (areSound : ∀ argument ∈ arguments, argument.Sound offered machine)
    (function : Function) :
    (machine.entering (callFrame function arguments)).Sound offered context :=
  sound_entering sound fun _ value found =>
    areSound value (mem_of_find?_callFrame found)

/-- The frame of a block is entered. -/
theorem sound_entering_block
    (sound : machine.Sound offered context) :
    (machine.entering ⟨NameMap.empty, some machine.active⟩).Sound offered
      context := by
  refine sound_entering sound ?_
  intro name value found
  cases found

/-- What is done in a new frame opens no other frame. -/
theorem behaves_inNew
    {step : Run α}
    {good final : α → Machine → Prop}
    {added : Frame}
    (inner :
      Behaves offered context (some machine.store.nextFrame) step
        (machine.entering added) good)
    (kept : ∀ value inside, good value inside →
      final value { inside with active := machine.active }) :
    Behaves offered context none (allocate added >>= fun frame =>
      inFrame frame step) machine
      final := by
  have comesBack {inside : Machine}
      (advances :
        (machine.entering added).Advances offered context
          (some machine.store.nextFrame) inside) :
      machine.Advances offered context none
        { inside with active := machine.active } := by
    have enters : machine.Precedes (machine.entering added) :=
      .ofStore (.allocate _ added) rfl rfl
    refine ⟨enters.trans ⟨advances.precedes.grows, advances.precedes.nodes,
      advances.precedes.distances⟩, advances.sound.setActive _ _, rfl, ?_⟩
    exact .ofNew advances.steady
  cases outcome : step (machine.entering added) with
  | ok value inside =>
      obtain ⟨advances, isGood⟩ := Leads.ok inner outcome
      refine .ofOk ?_ (comesBack advances) (kept value inside isGood)
      refine (bind_of_ok rfl).trans ?_
      unfold Machine.entering at outcome
      simp only [inFrame, outcome]
  | error halt inside =>
      have fails :
          (allocate added >>= fun frame => inFrame frame step) machine =
          .error halt { inside with active := machine.active } := by
        refine (bind_of_ok rfl).trans ?_
        unfold Machine.entering at outcome
        simp only [inFrame, outcome]
      exact .ofError fails (comesBack (Leads.error inner outcome))

/-- The active frame does not count for what a flow returns. -/
theorem Flow.Sound.setActive
    {flow : Flow}
    (isSound : flow.Sound offered machine)
    (frame : FrameId)
    (requiring : List String) :
    flow.Sound offered
      { machine with active := frame, requiring := requiring } := by
  cases flow with
  | normal => trivial
  | returned value => cases value <;> exact isSound

/-- The body of a function is executed in the frame of a complete call. -/
theorem Works.behaves_body
    {function : Function}
    {arguments : List Value}
    (works : Works offered context steps)
    (sound : machine.Sound offered context)
    (ready : (Task.call function arguments).Ready offered machine) :
    Behaves offered context none
      (allocate (callFrame function arguments) >>= fun frame =>
        inFrame frame (execAll context steps function.declaration.body))
      machine fun flow after => flow.Sound offered after := by
  obtain ⟨isSound, areSound, complete⟩ := ready
  have inner := works (.execAll function.declaration.body) _
    (sound_entering_call sound areSound function)
    (located_body sound isSound complete)
  exact behaves_inNew inner fun flow inside isFlow => isFlow.setActive _ _

/-- Where a loop's guard and body have passed, the loop is located again. -/
theorem located_again
    {condition : Expr}
    {body : Stmt}
    (located : machine.Located offered (.stmt (.loop condition body)))
    (precedes : machine.Precedes after)
    (declares : Declares body.declared? machine after) :
    after.Located offered (.stmt (.loop condition body)) := by
  have orderly := located.orderly
  simp only [Stmt.Orderly] at orderly
  exact located.again precedes orderly.1 declares

/-- Every task that a ready task asks for is ready. -/
theorem Calls.ready
    {task other : Task}
    (works : Works offered context steps)
    (sound : machine.Sound offered context)
    (ready : task.Ready offered machine)
    (calls : Calls context steps task machine other after) :
    after.Sound offered context ∧ other.Ready offered after := by
  cases calls with
  | grouping => exact ⟨sound, ((ready.located nofun).included .grouping).ready⟩
  | operand => exact ⟨sound, ((ready.located nofun).included .operand).ready⟩
  | binaryLeft =>
      exact ⟨sound, ((ready.located nofun).included .binaryLeft).ready⟩
  | binaryRight yields =>
      have located := ready.located nofun
      obtain ⟨soundAfter, locatedAfter⟩ :=
        works.located_after sound (located.included .binaryRight)
        (located.included .binaryLeft).ready yields
      exact ⟨soundAfter, locatedAfter.ready⟩
  | logicalLeft =>
      exact ⟨sound, ((ready.located nofun).included .logicalLeft).ready⟩
  | logicalRight yields =>
      have located := ready.located nofun
      obtain ⟨soundAfter, locatedAfter⟩ :=
        works.located_after sound (located.included .logicalRight)
        (located.included .logicalLeft).ready yields
      exact ⟨soundAfter, locatedAfter.ready⟩
  | assigned => exact ⟨sound, ((ready.located nofun).included .assigned).ready⟩
  | callee => exact ⟨sound, ((ready.located nofun).included .callee).ready⟩
  | arguments yields =>
      have located := ready.located nofun
      exact works.located_after sound (located.included .arguments)
        (located.included .callee).ready yields
  | applied yieldsCallee yieldsArguments callable complete =>
      have located := ready.located nofun
      have readyCallee := (located.included .callee).ready
      obtain ⟨advances, isSound⟩ := works.eval_ok sound readyCallee yieldsCallee
      have readyArguments :=
        (located.included .arguments).advance sound advances
      obtain ⟨further, areSound⟩ :=
        works.evalAll_ok advances.sound readyArguments yieldsArguments
      have isCallee :=
        (isSound.later further.precedes advances.sound.rooted).callee callable
      exact ⟨further.sound, isCallee, areSound, complete⟩
  | object => exact ⟨sound, ((ready.located nofun).included .object).ready⟩
  | holder => exact ⟨sound, ((ready.located nofun).included .holder).ready⟩
  | stored yields =>
      have located := ready.located nofun
      obtain ⟨soundAfter, locatedAfter⟩ := works.located_after sound
        (located.included .stored) (located.included .holder).ready yields
      exact ⟨soundAfter, locatedAfter.ready⟩
  | firstExpr =>
      exact ⟨sound, (Machine.Located.included ready .firstExpr).ready⟩
  | restExprs yields =>
      exact works.located_after sound
        (Machine.Located.included ready .restExprs)
        (Machine.Located.included ready .firstExpr).ready yields
  | function => exact ⟨sound, ready⟩
  | @initializer _ _ _ object _ initializer bound _ allocates
    isInitializer binds =>
      obtain ⟨isClass, areSound, complete⟩ := ready
      cases allocates
      have advances := machine.advances_allocateInstance sound none
      have isClassAfter :=
        Class.Sound.later advances.precedes sound.rooted isClass
      obtain ⟨further, isBound⟩ := Leads.ok
        (behaves_bind advances.sound (isClassAfter _ initializer isInitializer)
          isClassAfter)
        binds
      have both := advances.trans further
      refine ⟨both.sound, isBound, ?_, ?_⟩
      · intro argument member
        exact (areSound argument member).later both.precedes sound.rooted
      · cases binds
        simp only [Callee.arity, Class.arity, isInitializer] at complete
        exact complete
  | body allocates =>
      cases allocates
      obtain ⟨isSound, areSound, complete⟩ := ready
      exact ⟨sound_entering_call sound areSound _,
        located_body sound isSound complete⟩
  | result allocates yields =>
      obtain ⟨advances, isFlow⟩ :=
        Leads.ok (works.behaves_body sound ready)
          ((bind_of_ok allocates).trans yields)
      obtain ⟨isSound, -, -⟩ := ready
      exact ⟨advances.sound, isSound.later advances.precedes sound.rooted,
        isFlow⟩
  | printed => exact ⟨sound, (Machine.Located.included ready .printed).ready⟩
  | stated => exact ⟨sound, (Machine.Located.included ready .stated).ready⟩
  | initialized => exact ⟨sound, (located_initializer ready).ready⟩
  | block allocates =>
      cases allocates
      exact ⟨sound_entering_block sound, located_block sound ready⟩
  | condition =>
      exact ⟨sound, (Machine.Located.included ready .condition).ready⟩
  | thenBranch yields =>
      exact works.located_after sound
        (Machine.Located.included ready .thenBranch)
        (Machine.Located.included ready .condition).ready yields
  | elseBranch yields =>
      exact works.located_after sound
        (Machine.Located.included ready .elseBranch)
        (Machine.Located.included ready .condition).ready yields
  | loop => exact ⟨sound, ready⟩
  | returned => exact ⟨sound, (Machine.Located.included ready .returned).ready⟩
  | superclass => exact ⟨sound, ready_superclass ready⟩
  | required loads =>
      obtain ⟨advances, knows⟩ :=
        Leads.ok (behaves_loadRequired sound _ _) loads
      refine ⟨advances.sound.setActive _ _, located_program ?_ rfl⟩
      exact knows.later (.ofStore (.refl _) rfl rfl)
  | firstStmt => exact ⟨sound, Machine.Located.included ready .firstStmt⟩
  | restStmts yields =>
      obtain ⟨advances, -, declares⟩ :=
        works.exec_ok sound (Machine.Located.included ready .firstStmt) yields
      exact ⟨advances.sound, located_rest ready advances.precedes
        (declares rfl)⟩
  | guard => exact ⟨sound, (Machine.Located.included ready .guard).ready⟩
  | repeated yields =>
      exact works.located_after sound (Machine.Located.included ready .repeated)
        (Machine.Located.included ready .guard).ready yields
  | again yieldsGuard _ yieldsBody =>
      have readyGuard := (Machine.Located.included ready .guard).ready
      obtain ⟨soundMiddle, locatedMiddle⟩ :=
        works.located_after sound ready readyGuard yieldsGuard
      obtain ⟨advances, -, declares⟩ :=
        works.exec_ok soundMiddle (locatedMiddle.included .repeated) yieldsBody
      exact ⟨advances.sound, located_again locatedMiddle advances.precedes
        (declares rfl)⟩

/-- The outcome of an operator. -/
theorem behaves_ofExcept
    {outcome : Except RuntimeError Value}
    (sound : machine.Sound offered context)
    (isAtom : ∀ value, outcome = .ok value → value.IsAtom) :
    Behaves offered context none (Run.ofExcept outcome) machine
      fun value after => value.Sound offered after := by
  cases outcome with
  | ok value => exact .ofPure sound (isAtom value rfl).sound
  | error error => exact .ofFail sound error

namespace Works

variable (works : Works offered context steps)
  (sound : machine.Sound offered context)

include works sound

/-- A task that is asked for behaves. -/
theorem asked
    {task other : Task}
    (ready : task.Ready offered machine)
    (calls : Calls context steps task machine other after) :
    Behaves offered context (other.opened after) (other.run context steps) after
      (other.Good offered after) := by
  obtain ⟨soundAfter, readyAfter⟩ := calls.ready works sound ready
  exact works other after soundAfter readyAfter

/-- Evaluating an expression with one more step. -/
theorem behaves_eval
    {expr : Expr}
    (ready : (Task.eval expr).Ready offered machine) :
    Behaves offered context none (eval context (steps + 1) expr) machine
      fun value after => value.Sound offered after := by
  cases expr with
  | literal value =>
      exact .ofPure sound (Value.isAtom_ofLiteral value).sound
  | grouping inner =>
      exact works.asked sound ready .grouping
  | unary operator operand =>
      refine Behaves.andThen (works.asked sound ready .operand) ?_
      intro value after _ advances _
      exact behaves_ofExcept advances.sound fun _ => Operator.isAtom_unary
  | binary left operator right =>
      refine Behaves.andThen (works.asked sound ready .binaryLeft) ?_
      intro first middle yields advances _
      refine Behaves.andThen (works.asked sound ready (.binaryRight yields)) ?_
      intro second after _ further _
      exact behaves_ofExcept further.sound fun _ => Operator.isAtom_binary
  | logical left operator right =>
      refine Behaves.andThen (works.asked sound ready .logicalLeft) ?_
      intro first middle yields advances isSound
      by_cases settled : Operator.isSettled operator first = true
      · simp only [settled, if_true]
        exact .ofPure advances.sound isSound
      · simp only [settled]
        exact works.asked sound ready
          (.logicalRight yields (by simpa using settled))
  | reference id name =>
      exact behaves_readVariable sound id name
  | assign id name value =>
      refine Behaves.andThen (works.asked sound ready .assigned) ?_
      intro stored middle _ advances isSound
      have isName : name.IsName := by
        obtain ⟨program, scopes, knows, ⟨analysis, visits, -⟩, -⟩ := ready
        obtain ⟨first, next, compiled, -⟩ := knows.compiled
        exact (compiled.node_handed visits rfl).2
      refine Behaves.andThen
        (behaves_assignVariable advances.sound isName isSound id) ?_
      intro _ after _ further _
      exact .ofPure further.sound
        (isSound.later further.precedes advances.sound.rooted)
  | call callee paren arguments =>
      refine Behaves.andThen (works.asked sound ready .callee) ?_
      intro called middle yieldsCallee advances _
      refine Behaves.andThen
        (works.asked sound ready (.arguments yieldsCallee)) ?_
      intro passed last yieldsArguments further _
      cases callable : called.callee? with
      | none =>
          exact .ofFail further.sound _
      | some callee =>
          by_cases complete : callee.arity = passed.length
          · have checks : checkArity callee passed paren last =
                .ok () last := by
              unfold checkArity
              rw [if_pos complete]
              rfl
            have passes : Behaves offered context none
                (checkArity callee passed paren) last
                fun _ after => after = last :=
              .ofOk checks (.refl further.sound _) rfl
            refine passes.andThen ?_
            rintro _ _ - - rfl
            exact works.asked sound ready
              (.applied yieldsCallee yieldsArguments callable complete)
          · have fails : checkArity callee passed paren last =
                .error (.failed (.arity callee.arity passed.length paren.line))
                  last := by
              unfold checkArity
              rw [if_neg complete]
              rfl
            exact .ofError (bind_of_error fails) (.refl further.sound _)
  | get object name =>
      refine Behaves.andThen (works.asked sound ready .object) ?_
      intro found after _ advances isSound
      split
      · exact behaves_getProperty advances.sound isSound name
      · exact .ofFail advances.sound _
  | set object name value =>
      refine Behaves.andThen (works.asked sound ready .holder) ?_
      intro found middle yields advances _
      split
      · refine Behaves.andThen (works.asked sound ready (.stored yields)) ?_
        intro stored last _ further isSound
        refine Behaves.andThen
          (behaves_setField further.sound isSound _ name.lexeme) ?_
        intro _ after _ final _
        exact .ofPure final.sound
          (isSound.later final.precedes further.sound.rooted)
      · exact .ofFail advances.sound _
  | thisRef id keyword =>
      exact behaves_readVariable sound id keyword
  | superRef id keyword method =>
      exact behaves_readSuper sound id keyword method

/-- Evaluating expressions with one more step. -/
theorem behaves_evalAll
    {exprs : List Expr}
    (ready : (Task.evalAll exprs).Ready offered machine) :
    Behaves offered context none (evalAll context (steps + 1) exprs) machine
      fun values after => ∀ value ∈ values, value.Sound offered after := by
  cases exprs with
  | nil =>
      refine .ofPure sound ?_
      intro value member
      cases member
  | cons first rest =>
      refine Behaves.andThen (works.asked sound ready .firstExpr) ?_
      intro value middle yields advances isSound
      refine Behaves.andThen (works.asked sound ready (.restExprs yields)) ?_
      intro values after _ further areSound
      refine .ofPure further.sound ?_
      intro other member
      rcases List.mem_cons.mp member with rfl | later
      · exact isSound.later further.precedes advances.sound.rooted
      · exact areSound other later

/-- Applying what can be called with one more step. -/
theorem behaves_apply
    {callee : Callee}
    {arguments : List Value}
    (ready : (Task.apply callee arguments).Ready offered machine) :
    Behaves offered context none (apply context (steps + 1) callee arguments)
      machine
      fun value after => value.Sound offered after := by
  cases callee with
  | native native =>
      exact behaves_callNative sound ready.2.1 native
  | function function =>
      exact works.asked sound ready .function
  | blueprint blueprint =>
      have isClass : blueprint.Sound offered machine := ready.1
      have advances := machine.advances_allocateInstance sound none
      have allocates : Behaves offered context none
          (allocateInstance blueprint) machine
          fun object after => object = ⟨machine.store.nextInstance, blueprint⟩ ∧
            after = { machine with store := machine.store.allocateInstance } :=
        .ofOk rfl advances ⟨rfl, rfl⟩
      refine allocates.andThen ?_
      rintro _ _ - - ⟨rfl, rfl⟩
      have isClassAfter :=
        Class.Sound.later advances.precedes sound.rooted isClass
      cases found : blueprint.initializer? with
      | none =>
          exact .ofPure advances.sound isClassAfter
      | some initializer =>
          refine Behaves.andThen
            (behaves_bind advances.sound (isClassAfter _ initializer found)
              isClassAfter) ?_
          intro bound bindAfter binds binding _
          refine Behaves.andThen
            (works.asked sound ready (.initializer rfl found binds)) ?_
          intro _ after _ further _
          have both := binding.precedes.trans further.precedes
          exact .ofPure further.sound
            (Class.Sound.later both advances.sound.rooted isClassAfter)

/-- Calling a function with one more step. -/
theorem behaves_call
    {function : Function}
    {arguments : List Value}
    (ready : (Task.call function arguments).Ready offered machine) :
    Behaves offered context none (call context (steps + 1) function arguments)
      machine
      fun value after => value.Sound offered after := by
  have inSequence : call context (steps + 1) function arguments =
      ((allocate (callFrame function arguments) >>= fun frame =>
        inFrame frame (execAll context steps function.declaration.body)) >>=
          fun flow =>
            callResult function flow) := by
    rw [bind_assoc]
    rfl
  rw [inSequence]
  refine (works.behaves_body sound ready).andThen ?_
  intro flow after _ advances isFlow
  exact behaves_callResult advances.sound isFlow function

/-- Executing statements with one more step. -/
theorem behaves_execAll
    {statements : List Stmt}
    (ready : (Task.execAll statements).Ready offered machine) :
    Behaves offered context (some machine.active)
      (execAll context (steps + 1) statements)
      machine fun flow after => flow.Sound offered after := by
  cases statements with
  | nil =>
      exact .ofPure sound trivial
  | cons first rest =>
      refine Behaves.andThen (works.asked sound ready .firstStmt) ?_
      intro flow middle yields advances isGood
      cases flow with
      | returned value =>
          exact .ofPure advances.sound isGood.1
      | normal =>
          have behaves := works.asked sound ready (.restStmts yields)
          rw [← advances.active]
          exact behaves

/-- Executing a loop with one more step. -/
theorem behaves_execLoop
    {condition : Expr}
    {body : Stmt}
    (ready : (Task.execLoop condition body).Ready offered machine) :
    Behaves offered context (some machine.active)
      (execLoop context (steps + 1) condition body) machine fun flow after =>
        flow.Sound offered after ∧
          (flow = .normal → Declares none machine after) := by
  have plain : body.declared? = none := by
    have orderly := Machine.Located.orderly ready
    simp only [Stmt.Orderly] at orderly
    exact orderly.1
  refine Behaves.beforeOpen (works.asked sound ready .guard) ?_
  intro value middle yields advances _
  by_cases truthy : value.isTruthy = true
  · simp only [truthy, if_true]
    rw [← advances.active]
    refine Behaves.andThen
      (works.asked sound ready (.repeated yields truthy)) ?_
    intro flow last yieldsBody further isGood
    cases flow with
    | returned value =>
        exact .ofPure further.sound ⟨isGood.1, nofun⟩
    | normal =>
        have behaves :=
          works.asked sound ready (.again yields truthy yieldsBody)
        rw [← further.active]
        refine behaves.weaken ?_
        rintro flow after - - ⟨isFlow, declares⟩
        refine ⟨isFlow, fun isNormal others fitsOthers => ?_⟩
        have passed := isGood.2 rfl others (fitsOthers.advance sound advances)
        rw [plain] at passed
        exact declares isNormal others passed
  · simp only [truthy]
    exact .ofPure advances.sound
      ⟨trivial, fun _ others fitsOthers => fitsOthers.advance sound advances⟩

end Works

/-- A required source is executed in the global frame and opens no local one. -/
theorem behaves_required
    {step : Run α}
    {good : α → Machine → Prop}
    {path : String}
    (inner :
      Behaves offered context (some globalFrame) step
        { machine with
          requiring := path :: machine.requiring, active :=
            globalFrame } good) :
    Behaves offered context none
      (whileRequiring path (inFrame globalFrame step)) machine
      fun _ _ => True := by
  let entered : Machine :=
    { machine with
      requiring := path :: machine.requiring, active := globalFrame }
  have comesBack {inside : Machine}
      (advances : entered.Advances offered context (some globalFrame) inside) :
      machine.Advances offered context none
        { inside with
          active := machine.active, requiring := inside.requiring.tail } := by
    refine ⟨⟨advances.precedes.grows, advances.precedes.nodes,
      advances.precedes.distances⟩, advances.sound.setActive _ _, rfl, ?_⟩
    intro frame name present isLocal _
    refine advances.steady frame name present isLocal ?_
    intro same
    cases same
    exact isLocal rfl
  cases outcome : step entered with
  | ok value inside =>
      have yields : whileRequiring path (inFrame globalFrame step) machine =
          .ok value
            { inside with
              active := machine.active, requiring :=
                inside.requiring.tail } := by
        unfold entered at outcome
        simp only [whileRequiring, inFrame, outcome]
      exact .ofOk yields (comesBack (Leads.ok inner outcome).1) trivial
  | error halt inside =>
      have fails : whileRequiring path (inFrame globalFrame step) machine =
          .error halt
            { inside with
              active := machine.active, requiring :=
                inside.requiring.tail } := by
        unfold entered at outcome
        simp only [whileRequiring, inFrame, outcome]
      exact .ofError fails (comesBack (Leads.error inner outcome))

/-- A step that opens no frame declares nothing. -/
theorem Machine.Advances.declares
    (advances : machine.Advances offered context none after)
    (sound : machine.Sound offered context) :
    Declares none machine after :=
  fun _ fits => fits.advance sound advances

namespace Works

variable (works : Works offered context steps)
  (sound : machine.Sound offered context)

include works sound

/-- Executing a statement that evaluates an expression and goes on without
opening a frame. -/
theorem behaves_afterEval
    {expr : Expr}
    {statement : Stmt}
    {next : Value → Run Flow}
    (ready : (Task.exec statement).Ready offered machine)
    (plain : statement.declared? = none)
    (calls : Calls context steps (.exec statement) machine (.eval expr) machine)
    (behavesNext :
      ∀ value after, after.Sound offered context → value.Sound offered after →
        Behaves offered context none (next value) after
          fun flow last => flow.Sound offered last) :
    Behaves offered context (some machine.active)
      (eval context steps expr >>= next) machine
      fun flow after =>
        flow.Sound offered after ∧
          (flow = .normal → Declares statement.declared? machine after) := by
  have behaves : Behaves offered context none
      (eval context steps expr >>= next) machine
      fun flow after => flow.Sound offered after := by
    refine Behaves.andThen (works.asked sound ready calls) ?_
    intro value after _ advances isSound
    exact behavesNext value after advances.sound isSound
  refine (behaves.weaken ?_).widen _
  intro flow after _ advances isFlow
  rw [plain]
  exact ⟨isFlow, fun _ => advances.declares sound⟩

/-- Executing a statement with one more step. -/
theorem behaves_exec
    {statement : Stmt}
    (ready : (Task.exec statement).Ready offered machine) :
    Behaves offered context (some machine.active)
      (exec context (steps + 1) statement) machine
      fun flow after =>
        flow.Sound offered after ∧
          (flow = .normal → Declares statement.declared? machine after) := by
  have orderly := Machine.Located.orderly ready
  cases statement with
  | print value =>
      refine works.behaves_afterEval sound ready rfl .printed ?_
      intro shown after soundAfter _
      refine (behaves_write soundAfter _).andThen ?_
      intro _ last _ further _
      exact .ofPure further.sound trivial
  | expression value =>
      refine works.behaves_afterEval sound ready rfl .stated ?_
      intro _ after soundAfter _
      exact .ofPure soundAfter trivial
  | varDecl name initializer =>
      have isName : name.IsName := by simpa [Stmt.Orderly] using orderly
      cases initializer with
      | none =>
          refine Behaves.andThen (behaves_define sound isName trivial) ?_
          rintro _ _ - advances rfl
          exact .ofPure advances.sound
            ⟨trivial, fun _ others fits => fits.define sound.rooted isName .nil⟩
      | some initializer =>
          refine Behaves.beforeOpen (works.asked sound ready .initialized) ?_
          intro value middle _ advances isSound
          rw [← advances.active]
          have permitted : middle.active = globalFrame ∨
              ¬ Reserved name.lexeme :=
            .inr isName.notReserved
          have isSoundAfter :
              value.Sound offered (middle.defining name value) :=
            isSound.later (Machine.precedes_define permitted middle value)
              advances.sound.rooted
          refine Behaves.andThen
            (behaves_define advances.sound isName isSoundAfter) ?_
          rintro _ _ - further rfl
          refine .ofPure further.sound ⟨trivial, fun _ others fits => ?_⟩
          exact (fits.advance sound advances).define advances.sound.rooted
            isName value
  | block body =>
      have inner := works.asked sound ready (.block rfl)
      have behaves : Behaves offered context none
          (exec context (steps + 1) (.block body))
          machine fun flow after => flow.Sound offered after :=
        behaves_inNew inner fun flow inside isFlow =>
          Flow.Sound.setActive isFlow _ _
      refine (behaves.weaken ?_).widen _
      intro flow after _ advances isFlow
      exact ⟨isFlow, fun _ => advances.declares sound⟩
  | conditional condition thenBranch elseBranch =>
      have nothing :
          (Stmt.conditional condition thenBranch elseBranch).declared? = none :=
          rfl
      refine Behaves.beforeOpen (works.asked sound ready .condition) ?_
      intro value middle yields advances _
      -- Branches declare nothing, so what is declared is declared by neither of
      -- them.
      have afterBranch {branch : Stmt} {steps : Nat}
          (plain : branch.declared? = none)
          (behaves : Behaves offered context (some middle.active)
            (exec context steps branch) middle
            fun flow after => flow.Sound offered after ∧
              (flow = .normal → Declares branch.declared? middle after)) :
          Behaves offered context (some machine.active)
            (exec context steps branch) middle
            fun flow after => flow.Sound offered after ∧
              (flow = .normal → Declares none machine after) := by
        rw [← advances.active]
        refine behaves.weaken ?_
        rintro flow after - - ⟨isFlow, declares⟩
        rw [plain] at declares
        exact ⟨isFlow, fun isNormal others fits =>
          declares isNormal others (fits.advance sound advances)⟩
      by_cases truthy : value.isTruthy = true
      · simp only [truthy, if_true]
        have plain : thenBranch.declared? = none := by
          cases elseBranch <;> simp only [Stmt.Orderly] at orderly
          · exact orderly.1
          · exact orderly.1.1
        exact afterBranch plain
          (works.asked sound ready (.thenBranch yields truthy))
      · simp only [truthy]
        cases elseBranch with
        | none =>
            exact .ofPure advances.sound
              ⟨trivial, fun _ => advances.declares sound⟩
        | some branch =>
            simp only [Stmt.Orderly] at orderly
            exact afterBranch orderly.2.1
              (works.asked sound ready
                (.elseBranch yields (by simpa using truthy)))
  | loop condition body =>
      exact works.asked sound ready .loop
  | funDecl declaration =>
      simp only [Stmt.Orderly] at orderly
      obtain ⟨program, scopes, knows, places, fits⟩ := ready
      refine Behaves.andThen
        (behaves_declareFunction sound knows places fits orderly.1) ?_
      intro _ after _ advances declares
      exact .ofPure advances.sound ⟨trivial, fun _ => declares⟩
  | ret keyword value =>
      cases value with
      | none =>
          exact .ofPure sound ⟨trivial, nofun⟩
      | some value =>
          refine works.behaves_afterEval sound ready rfl .returned ?_
          intro _ after soundAfter isSound
          exact .ofPure soundAfter isSound
  | classDecl name superclass methods =>
      simp only [Stmt.Orderly] at orderly
      obtain ⟨program, scopes, knows, places, fits⟩ := ready
      refine Behaves.andThen
        (behaves_declareClass sound knows places fits orderly.1) ?_
      intro _ after _ advances declares
      exact .ofPure advances.sound ⟨trivial, fun _ => declares⟩
  | require keyword path =>
      refine Behaves.beforeOpen (behaves_loadRequired sound keyword path) ?_
      intro program middle loads advances _
      have inner := works.asked sound ready (.required loads)
      refine Behaves.beforeOpen (behaves_required inner) ?_
      intro _ after _ further _
      exact .ofPure further.sound
        ⟨trivial, fun _ => (advances.trans further).declares sound⟩

end Works

/-- However many steps there are, ready tasks behave. -/
theorem works_always
    (offered : ByteArray → Prop)
    (context : Context)
    (steps : Nat) :
    Works offered context steps := by
  induction steps with
  | zero =>
      intro task machine sound ready
      cases task with
      | result function flow => exact behaves_callResult sound ready.2 function
      | _ => exact .ofExhausted sound
  | succ steps inductionHypothesis =>
      intro task machine sound ready
      cases task with
      | eval expr => exact inductionHypothesis.behaves_eval sound ready
      | evalAll exprs => exact inductionHypothesis.behaves_evalAll sound ready
      | apply callee arguments =>
          exact inductionHypothesis.behaves_apply sound ready
      | call function arguments =>
          exact inductionHypothesis.behaves_call sound ready
      | result function flow => exact behaves_callResult sound ready.2 function
      | exec statement => exact inductionHypothesis.behaves_exec sound ready
      | execAll statements =>
          exact inductionHypothesis.behaves_execAll sound ready
      | execLoop condition body =>
          exact inductionHypothesis.behaves_execLoop sound ready

/-- Every task that is reached from a ready one is ready. -/
theorem Reaches.ready
    {start task : Task}
    {initial : Machine}
    (reaches : Reaches context start initial task machine)
    (sound : initial.Sound offered context)
    (ready : start.Ready offered initial) :
    machine.Sound offered context ∧ task.Ready offered machine := by
  induction reaches with
  | here => exact ⟨sound, ready⟩
  | call _ _ calls inductionHypothesis =>
      obtain ⟨soundHere, readyHere⟩ := inductionHypothesis
      exact calls.ready (works_always offered context _) soundHere readyHere

end LoxScript
