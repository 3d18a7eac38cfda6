import LoxScript.Proofs.Compilation
import LoxScript.Proofs.Machine.Distances
import LoxScript.Proofs.Scope.Table

namespace LoxScript

/-!
# What happens during a task

The trace of a task lists in order what happens while the evaluator does it: the
tasks that it comes to and the sources that it parses, each with the machine at
that moment.  Machines of a trace only ever recall: identities are handed out in
ascending order, and a node keeps the distance that it has, or that it has none.
-/

open Run

/-- The distances that a tree is resolved with; a tree that is rejected has
none. -/
def Program.tableOf (statements : List Stmt) : Distances :=
  match resolveProgram statements with
  | .ok distances => distances
  | .error _ => {}

/-- Something that happens while the evaluator works, and the machine at that
moment. -/
inductive Event where
  /-- The evaluator comes to a task. -/
  | task (task : Task) (machine : Machine)
  /-- A source was parsed; its distances, if it has any, are yet to be
  merged. -/
  | parsed (statements : List Stmt) (machine : Machine)

namespace Event

def machine : Event → Machine
  | .task _ machine => machine
  | .parsed _ machine => machine

/-- The identities of the nodes of what is parsed. -/
def ids : Event → List NodeId
  | .task _ _ => []
  | .parsed statements _ => identities (Stmt.referencesAll statements)

/-- The distances that what is parsed is resolved with. -/
def table : Event → Distances
  | .task _ _ => {}
  | .parsed statements _ => Program.tableOf statements

end Event

/-- What is parsed when the source is compiled. -/
def Machine.parsed (machine : Machine) (source : ByteArray) : List Event :=
  match Program.tokens source with
  | .error _ => []
  | .ok tokens =>
      match (parseProgram tokens machine.nextNode).1 with
      | .error _ => []
      | .ok statements => [.parsed statements machine]

/-- What comes after a step that yields a value. -/
def Run.onwards (step : Run α) (machine : Machine)
    (next : α → Machine → List β) : List β :=
  match step machine with
  | .ok value after => next value after
  | .error _ _ => []

/-- What comes after a step comes after the value that the step yields. -/
theorem Run.mem_onwards_iff
    {step : Run α}
    {machine : Machine}
    {next : α → Machine → List β}
    {item : β} :
    item ∈ step.onwards machine next ↔
      ∃ value after, step machine = .ok value after ∧
        item ∈ next value after := by
  unfold Run.onwards
  cases step machine <;> simp [and_assoc]

namespace Task

/-- The tasks that a task asks for in order, with the machine each is asked for
in, where what comes before takes at most `steps` steps. -/
def calls (context : Context) (steps : Nat) : Task → Machine →
    List (Task × Machine)
  | .eval (.literal _), _ => []
  | .eval (.grouping inner), m => [(.eval inner, m)]
  | .eval (.unary _ operand), m => [(.eval operand, m)]
  | .eval (.binary left _ right), m =>
      (.eval left, m) ::
        (LoxScript.eval context steps left).onwards m fun _ n =>
          [(.eval right, n)]
  | .eval (.logical left operator right), m =>
      (.eval left, m) ::
        (LoxScript.eval context steps left).onwards m fun value n =>
          if Operator.isSettled operator value then [] else [(.eval right, n)]
  | .eval (.reference _ _), _ => []
  | .eval (.assign _ _ value), m => [(.eval value, m)]
  | .eval (.call callee _ arguments), m =>
      (.eval callee, m) ::
        (LoxScript.eval context steps callee).onwards m fun value n =>
          (.evalAll arguments, n) ::
            (LoxScript.evalAll context steps arguments).onwards n
              fun values k =>
                match value.callee? with
                | none => []
                | some callable =>
                    if callable.arity = values.length then
                      [(.apply callable values, k)] else []
  | .eval (.get object _), m => [(.eval object, m)]
  | .eval (.set object _ value), m =>
      (.eval object, m) ::
        (LoxScript.eval context steps object).onwards m fun held n =>
          match held with
          | .object _ => [(.eval value, n)]
          | _ => []
  | .eval (.thisRef _ _), _ => []
  | .eval (.superRef _ _ _), _ => []
  | .evalAll [], _ => []
  | .evalAll (first :: rest), m =>
      (.eval first, m) ::
        (LoxScript.eval context steps first).onwards m fun _ n =>
          [(.evalAll rest, n)]
  | .apply (.native _) _, _ => []
  | .apply (.function function) arguments, m => [(.call function arguments, m)]
  | .apply (.blueprint blueprint) arguments, m =>
      (allocateInstance blueprint).onwards m fun object n =>
        match blueprint.initializer? with
        | none => []
        | some initializer =>
            (Run.bind initializer object).onwards n fun bound k =>
              [(.call bound arguments, k)]
  | .call function arguments, m =>
      (allocate (callFrame function arguments)).onwards m fun frame n =>
        (.execAll function.declaration.body, { n with active := frame }) ::
          (inFrame frame
            (LoxScript.execAll context steps function.declaration.body)).onwards
            n
            fun flow k => [(.result function flow, k)]
  | .result _ _, _ => []
  | .exec (.print value), m => [(.eval value, m)]
  | .exec (.expression value), m => [(.eval value, m)]
  | .exec (.varDecl _ none), _ => []
  | .exec (.varDecl _ (some initializer)), m => [(.eval initializer, m)]
  | .exec (.block body), m =>
      (allocate ⟨NameMap.empty, some m.active⟩).onwards m fun frame n =>
        [(.execAll body, { n with active := frame })]
  | .exec (.conditional condition thenBranch elseBranch), m =>
      (.eval condition, m) ::
        (LoxScript.eval context steps condition).onwards m fun value n =>
          if value.isTruthy then [(.exec thenBranch, n)]
          else
            match elseBranch with
            | some branch => [(.exec branch, n)]
            | none => []
  | .exec (.loop condition body), m => [(.execLoop condition body, m)]
  | .exec (.funDecl _), _ => []
  | .exec (.ret _ none), _ => []
  | .exec (.ret _ (some value)), m => [(.eval value, m)]
  | .exec (.classDecl _ none _), _ => []
  | .exec (.classDecl _ (some named) _), m => [(.eval named.expr, m)]
  | .exec (.require keyword path), m =>
      (loadRequired context keyword path).onwards m fun program n =>
        [(.execAll program.statements,
          { n with requiring := path :: n.requiring, active := globalFrame })]
  | .execAll [], _ => []
  | .execAll (first :: rest), m =>
      (.exec first, m) ::
        (LoxScript.exec context steps first).onwards m fun flow n =>
          match flow with
          | .normal => [(.execAll rest, n)]
          | .returned _ => []
  | .execLoop condition body, m =>
      (.eval condition, m) ::
        (LoxScript.eval context steps condition).onwards m fun value n =>
          if value.isTruthy then
            (.exec body, n) ::
              (LoxScript.exec context steps body).onwards n fun flow k =>
                match flow with
                | .normal => [(.execLoop condition body, k)]
                | .returned _ => []
          else []

/-- The listed tasks are those that are asked for. -/
theorem mem_calls_iff
    {context : Context}
    {steps : Nat}
    {task other : Task}
    {m n : Machine} :
    (other, n) ∈ task.calls context steps m ↔
      Calls context steps task m other n := by
  constructor
  · intro member
    unfold calls at member
    split at member
    all_goals
      simp only [List.mem_cons, List.not_mem_nil, or_false, mem_onwards_iff,
        Prod.mk.injEq] at member
    all_goals grind [intro Calls, = Run.mem_onwards_iff]
  · intro calls
    cases calls <;> simp_all [Task.calls, Run.onwards]

/-- What a task parses itself: a source that it requires and that is not being
executed. -/
def parsing (context : Context) : Task → Machine → List Event
  | .exec (.require _ path), machine =>
      if machine.requiring.contains path then []
      else
        match context.library path with
        | .error _ => []
        | .ok source => machine.parsed source
  | _, _ => []

/-- What happens while a task is done in a number of steps. -/
def trace (context : Context) : Nat → Task → Machine → List Event
  | 0, task, machine => [.task task machine]
  | steps + 1, task, machine =>
      .task task machine ::
        (task.parsing context machine ++
          (task.calls context steps machine).flatMap fun call =>
            trace context steps call.1 call.2)

end Task

namespace Program

variable {source : ByteArray} {program : Program} {first next : NodeId}

/-- The distances of an accepted program are those that its tree is resolved
with. -/
theorem tableOf_of_compiled
    (compiled : program.Compiled first next) :
    tableOf program.statements = program.distances := by
  simp only [tableOf, compiled.resolved]

/-- A tree is resolved with distances for its own nodes only. -/
theorem unfiled_tableOf
    {statements : List Stmt}
    (made : Stmt.MadeAll first statements next)
    (id : NodeId)
    (outside : id < first ∨ next ≤ id) :
    (tableOf statements)[id]? = none := by
  unfold tableOf
  cases resolved : resolveProgram statements with
  | error error => exact Std.TreeMap.getElem?_emptyc
  | ok distances =>
      have compiled : Compiled ⟨statements, distances⟩ first next :=
        ⟨made.1, made.2, resolved⟩
      exact compiled.unfiled outside

end Program

namespace Machine

variable {before middle after machine : Machine} {events others : List Event}
variable {source : ByteArray} {program : Program} {next : NodeId}

/-- Between two machines these events happen: no node is parsed twice, and from
when it is parsed a node has the distance that its tree is resolved with. -/
structure Traces (before : Machine) (events : List Event) (after : Machine) :
    Prop where
  recalls : before.Recalls after
  reached : ∀ event ∈ events, before.Recalls event.machine
  within : ∀ event ∈ events, ∀ id ∈ event.ids, before.nextNode ≤ id ∧
    id < after.nextNode
  distinct : (events.flatMap Event.ids).Nodup
  own : ∀ event ∈ events, ∀ id, id < event.machine.nextNode →
    event.table[id]? = none
  ordered :
    events.Pairwise fun earlier later =>
      ∀ id ∈ earlier.ids,
        later.machine.distances[id]? = earlier.table[id]? ∧
          later.table[id]? = none
  kept : ∀ event ∈ events, ∀ id ∈ event.ids,
    after.distances[id]? = event.table[id]?

namespace Traces

/-- Nothing happens that is listed. -/
theorem nil
    (recalls : before.Recalls after) :
    before.Traces [] after :=
  ⟨recalls, by simp, by simp, by simp, by simp, .nil, by simp⟩

/-- The evaluator comes to a task first. -/
theorem task
    (task : Task)
    (traces : before.Traces events after) :
    before.Traces (.task task before :: events) after where
  recalls := traces.recalls
  reached := List.forall_mem_cons.mpr ⟨.refl before, traces.reached⟩
  within := List.forall_mem_cons.mpr ⟨nofun, traces.within⟩
  distinct := traces.distinct
  own := List.forall_mem_cons.mpr
    ⟨fun _ _ => Std.TreeMap.getElem?_emptyc, traces.own⟩
  ordered := .cons (fun _ _ => nofun) traces.ordered
  kept := List.forall_mem_cons.mpr ⟨nofun, traces.kept⟩

/-- What happens first, and what happens then. -/
theorem append
    (traces : before.Traces events middle)
    (tracesNext : middle.Traces others after) :
    before.Traces (events ++ others) after where
  recalls := traces.recalls.trans tracesNext.recalls
  reached event member := by
    rcases List.mem_append.mp member with earlier | later
    · exact traces.reached event earlier
    · exact traces.recalls.trans (tracesNext.reached event later)
  within event member id isNode := by
    rcases List.mem_append.mp member with earlier | later
    · obtain ⟨above, below⟩ := traces.within event earlier id isNode
      exact ⟨above, Nat.lt_of_lt_of_le below tracesNext.recalls.nodes⟩
    · obtain ⟨above, below⟩ := tracesNext.within event later id isNode
      exact ⟨Nat.le_trans traces.recalls.nodes above, below⟩
  distinct := by
    rw [List.flatMap_append, List.nodup_append]
    refine ⟨traces.distinct, tracesNext.distinct,
      fun id isEarlier other isLater same => ?_⟩
    obtain ⟨event, member, isNode⟩ := List.mem_flatMap.mp isEarlier
    obtain ⟨event', member', isNode'⟩ := List.mem_flatMap.mp isLater
    have below := (traces.within event member id isNode).2
    have above := (tracesNext.within event' member' other isNode').1
    exact Nat.lt_irrefl id (Nat.lt_of_lt_of_le below (same ▸ above))
  own event member :=
    (List.mem_append.mp member).elim (traces.own event) (tracesNext.own event)
  ordered := by
    refine List.pairwise_append.mpr ⟨traces.ordered, tracesNext.ordered, ?_⟩
    intro earlier member later memberLater id isNode
    have below := (traces.within earlier member id isNode).2
    have reached := tracesNext.reached later memberLater
    exact ⟨(reached.distances id below).trans
      (traces.kept earlier member id isNode),
      tracesNext.own later memberLater id
        (Nat.lt_of_lt_of_le below reached.nodes)⟩
  kept event member id isNode := by
    rcases List.mem_append.mp member with earlier | later
    · have below := (traces.within event earlier id isNode).2
      exact (tracesNext.recalls.distances id below).trans
        (traces.kept event earlier id isNode)
    · exact tracesNext.kept event later id isNode

/-- Nothing but identities and distances counts. -/
theorem congr
    {beforeOther afterOther : Machine}
    (traces : before.Traces events after)
    (recalls : beforeOther.Recalls afterOther)
    (nodes : beforeOther.nextNode = before.nextNode)
    (distances : beforeOther.distances = before.distances)
    (nodesAfter : afterOther.nextNode = after.nextNode)
    (distancesAfter : afterOther.distances = after.distances) :
    beforeOther.Traces events afterOther where
  recalls := recalls
  reached event member := by
    exact Recalls.trans (.ofSame nodes.symm distances.symm)
      (traces.reached event member)
  within := by
    rw [nodes, nodesAfter]
    exact traces.within
  distinct := traces.distinct
  own := traces.own
  ordered := traces.ordered
  kept := by
    rw [distancesAfter]
    exact traces.kept

end Traces

/-- A tree is parsed. -/
theorem traces_of_made
    {statements : List Stmt}
    (made : Stmt.MadeAll machine.nextNode statements next)
    (recalls : machine.Recalls after)
    (nodes : after.nextNode = next)
    (filed :
      ∀ id, machine.nextNode ≤ id →
        after.distances[id]? = (Program.tableOf statements)[id]?) :
    machine.Traces [.parsed statements machine] after := by
  have within : ∀ id ∈ identities (Stmt.referencesAll statements),
      machine.nextNode ≤ id ∧ id < next := by
    intro id isNode
    obtain ⟨reference, member, rfl⟩ := List.mem_map.mp isNode
    exact made.1.within reference member
  refine ⟨recalls, ?_, ?_, ?_, ?_, by simp, ?_⟩
  · simpa [Event.machine] using Recalls.refl machine
  · simpa [Event.ids, nodes] using within
  · simpa [Event.ids, identities] using made.1.distinct
  · simpa [Event.machine, Event.table] using fun id below =>
      Program.unfiled_tableOf made id (.inl below)
  · simpa [Event.ids, Event.table] using fun id isNode =>
      filed id (within id isNode).1

/-- A source that is rejected may have been parsed. -/
theorem traces_rejected
    {error : StaticError}
    (unfiled : machine.Unfiled)
    (rejected :
      Program.compile source machine.nextNode = (.error error, next)) :
    machine.Traces (machine.parsed source)
      { machine with nextNode := next } := by
  have rises := Program.compile_rises source machine.nextNode
  rw [rejected] at rises
  have recalls := Recalls.hand rises
  unfold Program.compile at rejected
  unfold Machine.parsed
  cases scanned : Program.tokens source with
  | error fault => exact .nil recalls
  | ok tokens =>
      simp only [scanned] at rejected ⊢
      cases parsed : parseProgram tokens machine.nextNode with
      | mk result last =>
          simp only [parsed] at rejected ⊢
          cases result with
          | error fault => exact .nil recalls
          | ok statements =>
              obtain ⟨isError, rfl⟩ := Prod.mk.inj rejected
              have made :=
                parseProgram_made (Program.spelled_of_tokens scanned) parsed
              refine traces_of_made made recalls rfl fun id above =>
                (unfiled id above).trans ?_
              unfold Program.tableOf
              cases resolved : resolveProgram statements with
              | error fault => exact Std.TreeMap.getElem?_emptyc.symm
              | ok distances =>
                  rw [Program.ofStatements_of_resolved resolved] at isError
                  cases isError

/-- A source that is accepted is parsed. -/
theorem parsed_of_accepted
    (accepted : Program.compile source machine.nextNode = (.ok program, next)) :
    machine.parsed source = [.parsed program.statements machine] := by
  obtain ⟨tokens, scanned, parsed, -⟩ := Program.compile_eq_ok_iff.mp accepted
  unfold Machine.parsed
  simp only [scanned, parsed]

/-- A source that is accepted was parsed, and its distances are merged. -/
theorem traces_load
    (unfiled : machine.Unfiled)
    (accepted : Program.compile source machine.nextNode = (.ok program, next)) :
    machine.Traces (machine.parsed source) (machine.load program next) := by
  have compiled := Program.compiled_of_compile accepted
  rw [parsed_of_accepted accepted]
  refine traces_of_made (Program.compile_made accepted).1 (.load accepted) rfl
    fun id above => ?_
  rw [unfiled.loaded program next above, Program.tableOf_of_compiled compiled]

end Machine

namespace Run

/-- However the step ends, these are the events until then. -/
def Traced (events : List Event) (step : Run α) (machine : Machine) : Prop :=
  machine.Unfiled →
    Leads step machine (fun _ after => machine.Traces events after)
      (fun _ after => machine.Traces events after)

/-- What comes onwards from a step, changed item by item. -/
theorem flatMap_onwards
    (step : Run α)
    (machine : Machine)
    (next : α → Machine → List β)
    (change : β → List γ) :
    (step.onwards machine next).flatMap change =
      step.onwards machine fun value after =>
        (next value after).flatMap change := by
  unfold onwards
  cases step machine <;> rfl

/-- What comes onwards from a step in two ways. -/
theorem onwards_append
    (step : Run α)
    (machine : Machine)
    (first second : α → Machine → List β) :
    step.onwards machine first ++ step.onwards machine second =
      step.onwards machine fun value after =>
        first value after ++ second value after := by
  unfold onwards
  cases step machine <;> rfl

end Run

end LoxScript
