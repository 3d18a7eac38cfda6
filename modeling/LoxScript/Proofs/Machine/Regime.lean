import LoxScript.Proofs.Machine.Addressing
import LoxScript.Proofs.Machine.Stages
import LoxScript.Proofs.Scope.Inside

namespace LoxScript

/-!
# Regimes

Many a statement about runs says of every machine what it keeps of earlier ones,
and of code and values where and with what they may be executed.  A regime gives
these notions, and its laws say for every elementary change, every new frame and
every way to read a value that they are respected.  From the laws of a regime it
follows that all runs obey it.
-/

open Run

/-- What is asked of machines, of their values and of the code that is executed
in a frame. -/
structure Regime where
  /-- What the later machine keeps of the earlier one. -/
  keeps : Machine → Machine → Prop
  /-- What holds of every machine. -/
  intact : Machine → Prop
  function : Machine → Function → Prop
  /-- The function is a method of this name, which is not bound yet. -/
  method : Machine → String → Function → Prop
  blueprint : Machine → Class → Prop
  object : Machine → Instance → Prop
  /-- The identity may be that of a function or a class that is made. -/
  fresh : Machine → Nat → Prop
  /-- The part may be executed in the frame. -/
  hosts : Machine → FrameId → Part → Prop

namespace Regime

variable (regime : Regime)

/-- The machine is intact after the change, and keeps what it has to. -/
structure Moves (before after : Machine) : Prop where
  keeps : regime.keeps before after
  intact : regime.intact after

/-- Whatever can be called through the value is as asked. -/
def value (machine : Machine) : Value → Prop
  | .function called => regime.function machine called
  | .blueprint called => regime.blueprint machine called
  | .object held => regime.object machine held
  | _ => True

/-- What can be called is as asked. -/
def callee (machine : Machine) : Callee → Prop
  | .function called => regime.function machine called
  | .native _ => True
  | .blueprint called => regime.blueprint machine called

/-- What a statement returns is as asked. -/
def flow (machine : Machine) : Flow → Prop
  | .normal => True
  | .returned value => regime.value machine value

/-- The task may be done in the machine. -/
def admits (machine : Machine) : Task → Prop
  | .eval expr => regime.hosts machine machine.active (.expr expr)
  | .evalAll exprs => regime.hosts machine machine.active (.exprs exprs)
  | .apply callee arguments =>
      regime.callee machine callee ∧ ∀ argument ∈ arguments,
        regime.value machine argument
  | .call function arguments =>
      regime.function machine function ∧ ∀ argument ∈ arguments,
        regime.value machine argument
  | .result function flow =>
      regime.function machine function ∧ regime.flow machine flow
  | .exec statement => regime.hosts machine machine.active (.stmt statement)
  | .execAll statements =>
      regime.hosts machine machine.active (.stmts statements)
  | .execLoop condition body =>
      regime.hosts machine machine.active (.stmt (.loop condition body))

/-- What the task yields is as asked. -/
def yields (machine : Machine) : (task : Task) → task.Out → Prop
  | .eval _ => fun (value : Value) => regime.value machine value
  | .evalAll _ =>
      fun (values : List Value) => ∀ value ∈ values, regime.value machine value
  | .apply _ _ => fun (value : Value) => regime.value machine value
  | .call _ _ => fun (value : Value) => regime.value machine value
  | .result _ _ => fun (value : Value) => regime.value machine value
  | .exec _ => fun (flow : Flow) => regime.flow machine flow
  | .execAll _ => fun (flow : Flow) => regime.flow machine flow
  | .execLoop _ _ => fun (flow : Flow) => regime.flow machine flow

/-- What holds at a stage. -/
def meets : Stage → Prop
  | .task task machine => regime.admits machine task
  | .bound name method object bound _ machine =>
      regime.method machine name method ∧ regime.object machine object ∧
        machine.store.frames[bound.closure]? =
          some (.ofThis object method.closure) ∧
        bound.declaration = method.declaration ∧
          bound.isInitializer = method.isInitializer
  | .inherited named superclass declaring machine =>
      readVariable named.id named.name declaring =
        .ok (.blueprint superclass) declaring ∧
        machine.store.frames[declaring.store.nextFrame]? =
          some (.ofSuper superclass declaring.active)
  | .called function _ value machine =>
      regime.value machine value ∧
        (function.isInitializer = true →
          machine.store.lookup? function.closure "this" = some value)

/-- Between two machines these stages are passed. -/
structure Passes (before : Machine) (stages : List Stage) (after : Machine) :
    Prop where
  moves : regime.Moves before after
  reached : ∀ stage ∈ stages, regime.Moves before stage.start
  within : ∀ stage ∈ stages, regime.Moves stage.start stage.machine
  kept : ∀ stage ∈ stages, regime.keeps stage.machine after
  ordered :
    stages.Pairwise fun earlier later =>
      regime.keeps earlier.machine later.start
  meets : ∀ stage ∈ stages, regime.meets stage

/-- The regime is respected by all elementary changes of machines, by the frames
that are made and by all values that are read.  The stages that are passed may
be relied on to be allowed. -/
structure Lawful (context : Context) (allowed : Stage → Prop) : Prop where
  refl : ∀ machine, regime.keeps machine machine
  trans :
    ∀ {before middle after}, regime.keeps before middle →
      regime.keeps middle after →
      regime.keeps before after
  /-- Nothing but variables, fields and nodes counts. -/
  aside :
    ∀ {before after : Machine}, after.store = before.store →
      after.distances = before.distances → after.nextNode = before.nextNode →
        regime.keeps before after
  intactAside :
    ∀ {before after : Machine}, after.store = before.store →
      after.distances = before.distances → after.nextNode = before.nextNode →
        regime.intact before → regime.intact after
  /-- What is as asked stays so. -/
  laterFunction :
    ∀ {before after function}, regime.keeps before after →
      regime.function before function →
      regime.function after function
  laterMethod :
    ∀ {before after name method}, regime.keeps before after →
      regime.method before name method → regime.method after name method
  laterBlueprint :
    ∀ {before after blueprint}, regime.keeps before after →
      regime.blueprint before blueprint → regime.blueprint after blueprint
  laterObject :
    ∀ {before after object}, regime.keeps before after →
      regime.object before object →
      regime.object after object
  laterCode :
    ∀ {before after frame part}, regime.keeps before after →
      regime.hosts before frame part →
      regime.hosts after frame part
  laterFresh :
    ∀ {before after identity}, regime.keeps before after →
      regime.fresh before identity →
      regime.fresh after identity
  covered :
    ∀ {machine frame} {whole part : Part}, regime.hosts machine frame whole →
      whole.Covers part → regime.hosts machine frame part
  /-- What is read is as asked. -/
  readLocal :
    ∀ {machine part distance name value}, regime.intact machine →
      regime.hosts machine machine.active part →
      machine.store.lookupAt? machine.active distance name = some value →
        regime.value machine value
  readGlobal :
    ∀ {machine name value}, regime.intact machine →
      machine.store.lookup? globalFrame name = some value →
        regime.value machine value
  readField :
    ∀ {machine object name value}, regime.intact machine →
      regime.object machine object →
      machine.store.field? object.identity name = some value →
      regime.value machine value
  readThis :
    ∀ {machine function value}, regime.intact machine →
      regime.function machine function →
      machine.store.lookup? function.closure "this" = some value →
      regime.value machine value
  classOf :
    ∀ {machine object}, regime.object machine object →
      regime.blueprint machine object.blueprint
  methodOf :
    ∀ {machine blueprint name method}, regime.blueprint machine blueprint →
      blueprint.findMethod? name = some method →
        regime.method machine name method
  /-- Natives yield what is as asked. -/
  native :
    ∀ {machine native arguments value world},
      allowed (.task (.apply (.native native) arguments) machine) →
      regime.intact machine →
      (∀ argument ∈ arguments, regime.value machine argument) →
      performNative context.natives native.slot arguments machine.world =
        (.ok value, world) →
        regime.value machine value
  /-- Statements define the names that they declare. -/
  define :
    ∀ {machine statement name value}, regime.intact machine →
      regime.hosts machine machine.active (.stmt statement) →
      statement.declared? = some name →
      regime.value machine value →
      regime.Moves machine (machine.defining name value)
  assign :
    ∀ {machine id name expr value frame}, regime.intact machine →
      regime.hosts machine machine.active (.expr (.assign id name expr)) →
      regime.value machine value →
      ((∃ distance,
        machine.store.holderAt? machine.active distance name.lexeme =
          some frame) ∨
          frame = globalFrame ∧
            machine.store.holds globalFrame name.lexeme = true) →
        regime.Moves machine
          { machine with store := machine.store.define frame name.lexeme value }
  setField :
    ∀ {machine object name value}, regime.intact machine →
      regime.object machine object →
      regime.value machine value →
        regime.Moves machine
          { machine with
            store := machine.store.setField object.identity name value }
  skipIdentity :
    ∀ {machine}, regime.intact machine →
      let after := { machine with store := machine.store.skipIdentity }
      regime.Moves machine after ∧ regime.fresh after machine.store.nextIdentity
  allocateInstance :
    ∀ {machine blueprint}, regime.intact machine →
      regime.blueprint machine blueprint →
      let after := { machine with store := machine.store.allocateInstance }
      regime.Moves machine after ∧
        regime.object after ⟨machine.store.nextInstance, blueprint⟩
  /-- The frames of blocks, calls and bound methods. -/
  block :
    ∀ {machine body}, regime.intact machine →
      regime.hosts machine machine.active (.stmt (.block body)) →
      let after :=
        { machine with
          store := machine.store.allocate ⟨NameMap.empty, some machine.active⟩ }
      regime.Moves machine after ∧
        regime.hosts after machine.store.nextFrame (.stmts body)
  call :
    ∀ {machine function arguments}, regime.intact machine →
      regime.function machine function →
      (∀ argument ∈ arguments, regime.value machine argument) →
      let after :=
        { machine with
          store := machine.store.allocate (callFrame function arguments) }
      regime.Moves machine after ∧
        regime.hosts after machine.store.nextFrame
          (.stmts function.declaration.body)
  bind :
    ∀ {machine name method object bound after}, regime.intact machine →
      regime.method machine name method → regime.object machine object →
      Run.bind method object machine = .ok bound after →
      allowed (.bound name method object bound machine after) →
        regime.Moves machine after ∧ regime.function after bound
  closure :
    ∀ {machine declaration}, regime.intact machine →
      regime.hosts machine machine.active (.stmt (.funDecl declaration)) →
        ∀ identity, regime.fresh machine identity →
          regime.function machine ⟨identity, declaration, machine.active, false⟩
  /-- The methods of a class that is declared, and the frame that they see. -/
  methods :
    ∀ {machine name superclass methods parent closure framed},
      regime.intact machine →
      regime.hosts machine machine.active
        (.stmt (.classDecl name superclass methods)) →
      allowed (.task (.exec (.classDecl name superclass methods)) machine) →
      findSuperclass name superclass machine = .ok parent machine →
      (∀ found ∈ parent, regime.blueprint machine found) →
      regime.Moves machine (machine.defining name .nil) →
      methodFrame parent (machine.defining name .nil) = .ok closure framed →
      (∀ named ∈ superclass, ∀ found ∈ parent,
        allowed (.inherited named found machine framed)) →
        regime.Moves (machine.defining name .nil) framed ∧
          ∀ declaration ∈ methods, ∀ {later}, regime.keeps framed later →
            ∀ identity, regime.fresh later identity →
              regime.method later declaration.name.lexeme
                ⟨identity, declaration, closure, declaration.isInitializer⟩
  assemble :
    ∀ {machine identity name parent table}, regime.fresh machine identity →
      (∀ found ∈ parent, regime.blueprint machine found) →
      (∀ wanted method, table.find? wanted = some method →
        regime.method machine wanted method) →
      regime.blueprint machine ⟨identity, name, parent, table⟩
  /-- Programs are executed in the global frame. -/
  rejected :
    ∀ {machine source error next}, regime.intact machine →
      Program.compile source machine.nextNode = (.error error, next) →
        regime.Moves machine { machine with nextNode := next }
  loaded :
    ∀ {machine source program next}, regime.intact machine →
      Program.compile source machine.nextNode = (.ok program, next) →
        regime.Moves machine (machine.load program next) ∧
          regime.hosts (machine.load program next) globalFrame
            (.stmts program.statements)

end Regime

/-- However the step ends, these stages are passed until then; a value is as
wanted. -/
def Run.Obeys
    (regime : Regime)
    (stages : List Stage)
    (step : Run α)
    (machine : Machine)
    (good : α → Machine → Prop) : Prop :=
  Leads step machine (fun value after => regime.Passes machine stages after ∧
    good value after) (fun _ after => regime.Passes machine stages after)

namespace Regime

variable {regime : Regime} {context : Context} {allowed : Stage → Prop}
variable {before middle after machine : Machine} {stages others : List Stage}

section Lawful

variable (lawful : regime.Lawful context allowed)

include lawful

/-- A machine moves to itself. -/
theorem Lawful.stay
    (intact : regime.intact machine) :
    regime.Moves machine machine :=
  ⟨lawful.refl machine, intact⟩

/-- One move after the other. -/
theorem Lawful.andMoves
    (moves : regime.Moves before middle)
    (movesNext : regime.Moves middle after) :
    regime.Moves before after :=
  ⟨lawful.trans moves.keeps movesNext.keeps, movesNext.intact⟩

/-- A change of something else is a move. -/
theorem Lawful.movesAside
    (intact : regime.intact before)
    (store : after.store = before.store)
    (distances : after.distances = before.distances)
    (nextNode : after.nextNode = before.nextNode) :
    regime.Moves before after :=
  ⟨lawful.aside store distances nextNode, lawful.intactAside store distances
    nextNode intact⟩

/-- Values that are as asked stay so. -/
theorem Lawful.laterValue
    {value : Value}
    (keeps : regime.keeps before after)
    (isValue : regime.value before value) :
    regime.value after value := by
  cases value with
  | function called => exact lawful.laterFunction keeps isValue
  | blueprint called => exact lawful.laterBlueprint keeps isValue
  | object held => exact lawful.laterObject keeps isValue
  | _ => trivial

/-- So does what is returned. -/
theorem Lawful.laterFlow
    {flow : Flow}
    (keeps : regime.keeps before after)
    (isFlow : regime.flow before flow) :
    regime.flow after flow := by
  cases flow with
  | normal => trivial
  | returned value => exact lawful.laterValue keeps isFlow

end Lawful

/-- What a value can be called as is as asked, if the value is. -/
theorem value.callee
    {value : Value}
    {callee : Callee}
    (isValue : regime.value machine value)
    (callable : value.callee? = some callee) :
    regime.callee machine callee := by
  cases value <;> cases callable <;> exact isValue

/-- A value that refers to nothing is as asked. -/
theorem value_of_isAtom
    {value : Value}
    (isAtom : value.IsAtom) :
    regime.value machine value := by
  cases value with
  | function function => cases isAtom
  | blueprint blueprint => cases isAtom
  | object object => cases isAtom
  | _ => trivial

namespace Passes

/-- Nothing is passed that is listed. -/
theorem nil
    (moves : regime.Moves before after) :
    regime.Passes before [] after :=
  ⟨moves, by simp, by simp, by simp, .nil, by simp⟩

variable (lawful : regime.Lawful context allowed)

include lawful

/-- One stage is passed. -/
theorem single
    (stage : Stage)
    (intact : regime.intact stage.start)
    (moves : regime.Moves stage.start stage.machine)
    (meets : regime.meets stage) :
    regime.Passes stage.start [stage] stage.machine where
  moves := moves
  reached := by simpa using lawful.stay intact
  within := by simpa using moves
  kept := by simpa using lawful.refl stage.machine
  ordered := by simp
  meets := by simpa using meets

/-- What is passed first, and what is passed then. -/
theorem append
    (passes : regime.Passes before stages middle)
    (passesNext : regime.Passes middle others after) :
    regime.Passes before (stages ++ others) after where
  moves := lawful.andMoves passes.moves passesNext.moves
  reached stage member := by
    rcases List.mem_append.mp member with earlier | later
    · exact passes.reached stage earlier
    · exact lawful.andMoves passes.moves (passesNext.reached stage later)
  within stage member :=
    (List.mem_append.mp member).elim (passes.within stage)
      (passesNext.within stage)
  kept stage member := by
    rcases List.mem_append.mp member with earlier | later
    · exact lawful.trans (passes.kept stage earlier) passesNext.moves.keeps
    · exact passesNext.kept stage later
  ordered := by
    refine List.pairwise_append.mpr ⟨passes.ordered, passesNext.ordered, ?_⟩
    intro earlier member later memberLater
    exact lawful.trans (passes.kept earlier member)
      (passesNext.reached later memberLater).keeps
  meets stage member :=
    (List.mem_append.mp member).elim (passes.meets stage)
      (passesNext.meets stage)

/-- What else is changed before and afterwards does not count. -/
theorem between
    {earlier last : Machine}
    (passes : regime.Passes before stages after)
    (moves : regime.Moves earlier before)
    (movesNext : regime.Moves after last) :
    regime.Passes earlier stages last := by
  have passesBoth :=
    (Passes.nil moves).append lawful (passes.append lawful (.nil movesNext))
  simpa using passesBoth

end Passes

end Regime

namespace Run.Obeys

variable {regime : Regime} {context : Context} {allowed : Stage → Prop}
variable {machine after : Machine} {stages others : List Stage} {step : Run α}
variable {good : α → Machine → Prop}

/-- A step that yields a value. -/
theorem ofOk
    {value : α}
    (yields : step machine = .ok value after)
    (moves : regime.Moves machine after)
    (holds : good value after) :
    Obeys regime [] step machine good := by
  unfold Obeys Leads
  rw [yields]
  exact ⟨.nil moves, holds⟩

/-- A step that fails. -/
theorem ofError
    {halt : Halt}
    (fails : step machine = .error halt after)
    (moves : regime.Moves machine after) :
    Obeys regime [] step machine good := by
  unfold Obeys Leads
  rw [fails]
  exact .nil moves

/-- What a step yields may be asked less of. -/
theorem weaken
    {final : α → Machine → Prop}
    (obeys : Obeys regime stages step machine good)
    (implies : ∀ value after, step machine = .ok value after →
      good value after →
      final value after) :
    Obeys regime stages step machine final := by
  unfold Obeys Leads at obeys ⊢
  split at obeys
  · exact ⟨obeys.1, implies _ _ ‹_› obeys.2⟩
  · exact obeys

/-- A step that looks at the machine first. -/
theorem look
    {next : Machine → Run α}
    (obeys : Obeys regime stages (next machine) machine good) :
    Obeys regime stages (get >>= next) machine good :=
  obeys

variable (lawful : regime.Lawful context allowed)

include lawful

/-- A step that only yields a value. -/
theorem ofPure
    {value : α}
    (intact : regime.intact machine)
    (holds : good value machine) :
    Obeys regime [] (pure value) machine good :=
  ofOk rfl (lawful.stay intact) holds

/-- A step that only fails. -/
theorem ofThrow
    (intact : regime.intact machine)
    (halt : Halt) :
    Obeys regime [] (throw halt) machine good :=
  ofError rfl (lawful.stay intact)

/-- One step after the other. -/
theorem andThen
    {next : α → Run β}
    {rest : α → Machine → List Stage}
    {final : β → Machine → Prop}
    (obeys : Obeys regime stages step machine good)
    (obeysNext :
      ∀ value after, step machine = .ok value after →
        regime.Passes machine stages after →
        good value after →
        Obeys regime (rest value after) (next value) after final) :
    Obeys regime (stages ++ step.onwards machine rest)
      (step >>= next) machine final := by
  unfold Obeys Leads at obeys ⊢
  unfold onwards
  cases outcome : step machine with
  | error halt middle =>
      simp only [outcome] at obeys
      rw [bind_of_error outcome]
      simpa using obeys
  | ok value middle =>
      simp only [outcome] at obeys
      have next := obeysNext value middle outcome obeys.1 obeys.2
      rw [bind_of_ok outcome]
      unfold Obeys Leads at next
      split at next
      · exact ⟨obeys.1.append lawful next.1, next.2⟩
      · exact obeys.1.append lawful next

/-- Nothing is passed in the second step. -/
theorem followed
    {next : α → Run β}
    {final : β → Machine → Prop}
    (obeys : Obeys regime stages step machine good)
    (obeysNext :
      ∀ value after, step machine = .ok value after →
        regime.Passes machine stages after →
        good value after → Obeys regime [] (next value) after final) :
    Obeys regime stages (step >>= next) machine final := by
  have both : Obeys regime (stages ++ step.onwards machine fun _ _ => [])
      (step >>= next)
      machine final :=
    obeys.andThen lawful obeysNext
  have none : step.onwards machine (fun _ _ => ([] : List Stage)) = [] := by
    unfold onwards
    cases step machine <;> rfl
  rwa [none, List.append_nil] at both

/-- Nothing is passed in the first step. -/
theorem behind
    {next : α → Run β}
    {rest : α → Machine → List Stage}
    {final : β → Machine → Prop}
    (obeys : Obeys regime [] step machine good)
    (obeysNext :
      ∀ value after, step machine = .ok value after →
        regime.Moves machine after →
        good value after →
        Obeys regime (rest value after) (next value) after final) :
    Obeys regime (step.onwards machine rest) (step >>= next) machine final :=
  obeys.andThen lawful fun value after yields passes holds =>
    obeysNext value after yields passes.moves holds

/-- The evaluator comes to a task first. -/
theorem task
    {task : Task}
    (obeys : Obeys regime stages step machine good)
    (intact : regime.intact machine)
    (admits : regime.admits machine task) :
    Obeys regime (.task task machine :: stages) step machine good := by
  have passed : regime.Passes machine [.task task machine] machine :=
    .single lawful (.task task machine) intact (lawful.stay intact) admits
  unfold Obeys Leads at obeys ⊢
  split at obeys
  · exact ⟨passed.append lawful obeys.1, obeys.2⟩
  · exact passed.append lawful obeys

/-- What a step has yielded is noted. -/
theorem noting
    (note : α → Machine → Stage)
    (obeys : Obeys regime stages step machine good)
    (starts : ∀ value after, (note value after).start = after)
    (ends : ∀ value after, (note value after).machine = after)
    (meets : ∀ value after, step machine = .ok value after → good value after →
      regime.meets (note value after)) :
    Obeys regime (stages ++ step.onwards machine fun value after =>
      [note value after]) step machine
      good := by
  unfold Obeys Leads onwards at *
  cases outcome : step machine with
  | error halt after =>
      rw [outcome] at obeys
      simpa using obeys
  | ok value after =>
      rw [outcome] at obeys
      obtain ⟨passes, holds⟩ := obeys
      refine ⟨passes.append lawful ?_, holds⟩
      have stays := lawful.stay passes.moves.intact
      have passed : regime.Passes (note value after).start [note value after]
          (note value after).machine := by
        refine .single lawful _ ?_ ?_ (meets value after outcome holds)
        · rw [starts]
          exact passes.moves.intact
        · rw [starts, ends]
          exact stays
      rwa [starts, ends] at passed

/-- A step in another frame. -/
theorem inFrame
    {frame : FrameId}
    (intact : regime.intact machine)
    (obeys : Obeys regime stages step { machine with active := frame } good) :
    Obeys regime stages (Run.inFrame frame step) machine
      fun value after => ∃ inside, good value inside ∧
      regime.keeps inside after := by
  have enters : regime.Moves machine { machine with active := frame } :=
    lawful.movesAside intact rfl rfl rfl
  unfold Obeys Leads Run.inFrame at *
  cases outcome : step { machine with active := frame } with
  | ok value inside =>
      simp only [outcome] at obeys ⊢
      have leaves :
          regime.Moves inside { inside with active := machine.active } :=
        lawful.movesAside obeys.1.moves.intact rfl rfl rfl
      exact ⟨obeys.1.between lawful enters leaves, inside, obeys.2,
        leaves.keeps⟩
  | error halt inside =>
      simp only [outcome] at obeys ⊢
      exact obeys.between lawful enters
        (lawful.movesAside obeys.moves.intact rfl rfl rfl)

/-- A step as part of a required source. -/
theorem whileRequiring
    {path : String}
    (intact : regime.intact machine)
    (obeys :
      Obeys regime stages step
        { machine with requiring := path :: machine.requiring } good) :
    Obeys regime stages (Run.whileRequiring path step) machine
      fun _ _ => True := by
  have enters : regime.Moves machine
      { machine with requiring := path :: machine.requiring } :=
    lawful.movesAside intact rfl rfl rfl
  unfold Obeys Leads Run.whileRequiring at *
  cases outcome :
    step { machine with requiring := path :: machine.requiring } with
  | ok value inside =>
      simp only [outcome] at obeys ⊢
      have leaves : regime.Moves inside
          { inside with requiring := inside.requiring.tail } :=
        lawful.movesAside obeys.1.moves.intact rfl rfl rfl
      exact ⟨obeys.1.between lawful enters leaves, trivial⟩
  | error halt inside =>
      simp only [outcome] at obeys ⊢
      exact obeys.between lawful enters
        (lawful.movesAside obeys.moves.intact rfl rfl rfl)

end Run.Obeys

end LoxScript
