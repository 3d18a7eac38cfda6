import Mathlib
import LoxScript.Proofs.Machine.Changes
import LoxScript.Proofs.Machine.Composition
import LoxScript.Proofs.Machine.Requiring

namespace LoxScript

/-!
# A limit on the output only cuts it off

The same task is done twice: with an output that accepts everything, and with
one that accepts so many bytes in all.  As long as no more is written, both do
the same.  The print that writes more is the last thing that the second one
does.
-/

open Run

namespace Sink

variable {sink : Sink} {limit : Nat}

/-- The sink with what it holds if it accepts so many bytes in all. -/
def truncated (limit : Nat) (sink : Sink) : Sink :=
  { sink with written := sink.written.extract 0 limit, limit := some limit }

/-- The bytes of a text that is no longer are all of it. -/
theorem extract_of_size_le
    {bytes : ByteArray}
    (within : bytes.size ≤ limit) :
    bytes.extract 0 limit = bytes := by
  refine ByteArray.ext ?_
  simpa only [ByteArray.data_extract] using Array.extract_eq_self_of_le within

/-- What is written beyond the limit does not count. -/
theorem extract_append_of_le
    {bytes more : ByteArray}
    (beyond : limit ≤ bytes.size) :
    (bytes ++ more).extract 0 limit = bytes.extract 0 limit := by
  rw [ByteArray.extract_append, Nat.zero_sub, Nat.sub_eq_zero_of_le beyond]
  simp

/-- A sink that holds no more than the limit is given it. -/
theorem truncated_of_le
    (within : sink.written.size ≤ limit) :
    sink.truncated limit = { sink with limit := some limit } := by
  rw [truncated, extract_of_size_le within]

/-- Writing to a sink with a limit writes as much of what is written without
it. -/
theorem append_truncated
    (free : sink.limit = none)
    (within : sink.written.size ≤ limit)
    (bytes : ByteArray) :
    (sink.truncated limit).append bytes =
      (sink.append bytes).truncated limit := by
  rw [truncated_of_le within]
  simp only [append, free, truncated, ByteArray.extract_append,
    extract_of_size_le within, Nat.zero_sub]

/-- A sink with a limit accepts what stays within it. -/
theorem accepts_truncated_iff
    (within : sink.written.size ≤ limit)
    (size : Nat) :
    (sink.truncated limit).accepts size = true ↔
      sink.written.size + size ≤ limit := by
  rw [truncated_of_le within]
  simp [accepts]

end Sink

namespace Machine

variable {limit : Nat} {machine middle after : Machine}

/-- The machine with an output that accepts so many bytes in all. -/
def limited (limit : Nat) (machine : Machine) : Machine :=
  { machine with output := machine.output.truncated limit }

/-- The output accepts everything. -/
def Free (machine : Machine) : Prop :=
  machine.output.limit = none

/-- No more is written than so many bytes. -/
def KeepsTo (limit : Nat) (machine : Machine) : Prop :=
  machine.output.written.size ≤ limit

/-- Of an output that accepts everything, nothing is lost. -/
def Adds (before after : Machine) : Prop :=
  before.Free →
    ∃ bytes, after.output =
      { before.output with written := before.output.written ++ bytes }

namespace Adds

/-- An output that accepts everything goes on to do so. -/
theorem free
    (adds : machine.Adds after)
    (free : machine.Free) :
    after.Free := by
  obtain ⟨bytes, output⟩ := adds free
  rw [Free, output]
  exact free

/-- What keeps to a limit did so before. -/
theorem keepsTo
    (adds : machine.Adds after)
    (free : machine.Free)
    (keeps : after.KeepsTo limit) :
    machine.KeepsTo limit := by
  obtain ⟨bytes, output⟩ := adds free
  rw [KeepsTo, output, ByteArray.size_append] at keeps
  exact Nat.le_of_add_right_le keeps

/-- Beyond the limit nothing counts. -/
theorem truncated_eq
    (adds : machine.Adds after)
    (free : machine.Free)
    (beyond : ¬ machine.KeepsTo limit) :
    after.output.truncated limit = machine.output.truncated limit := by
  obtain ⟨bytes, output⟩ := adds free
  rw [output, Sink.truncated, Sink.truncated]
  simp only [Sink.extract_append_of_le (Nat.le_of_not_le beyond)]

end Adds

/-- Nothing that is done takes back what is written. -/
theorem respected_adds : Machine.Respected Machine.Adds where
  refl machine _ := ⟨.empty, by simp⟩
  trans first second free := by
    obtain ⟨bytes, output⟩ := first free
    obtain ⟨more, outputNext⟩ := second (Adds.free first free)
    exact ⟨bytes ++ more, by rw [outputNext, output, ByteArray.append_assoc]⟩
  change {before _} changes free := by
    cases changes with
    | append bytes =>
        refine ⟨bytes, ?_⟩
        simp only [Sink.append, show before.output.limit = none from free]
    | _ =>
        exact ⟨.empty, by simp [Machine.compile, Machine.load, Machine.learn]⟩
  inFrame _ entered := entered
  whileRequiring _ entered := entered

/-- The machines agree in all but the output and where they are. -/
structure SameContents (machine other : Machine) : Prop where
  store : machine.store = other.store
  distances : machine.distances = other.distances
  world : machine.world = other.world
  nextNode : machine.nextNode = other.nextNode

/-- A machine is known by its contents, its output and where it is. -/
theorem SameContents.eq
    {other : Machine}
    (same : machine.SameContents other) :
    other =
      { machine with
        active := other.active
        requiring := other.requiring
        output := other.output } := by
  obtain ⟨store, distances, world, nextNode⟩ := same
  cases machine
  cases other
  simp_all

end Machine

/-- The machine that the step leaves, however it ends. -/
def Run.left (step : Run α) (machine : Machine) : Machine :=
  match step machine with
  | .ok _ after => after
  | .error _ after => after

/-- The outcome of a step with a limit on the output. -/
def Run.outcomeLimited
    (limit : Nat) :
    EStateM.Result Halt Machine α → EStateM.Result Halt Machine α
  | .ok value after => .ok value (after.limited limit)
  | .error halt after => .error halt (after.limited limit)

/-- Done with a limit on the output, the step does the same as without it,
unless more is written than the limit allows.  Then it fails, with what is
written up to the limit, and is left in the contents of a machine that crosses
the limit. -/
structure Run.Truncates
    (limit : Nat)
    (crosses : Machine → Prop)
    (step : Run α)
    (machine : Machine) : Prop where
  adds : machine.Adds (step.left machine)
  whole : machine.Free → (step.left machine).KeepsTo limit →
    step (machine.limited limit) = outcomeLimited limit (step machine)
  cut : machine.Free → machine.KeepsTo limit →
    ¬ (step.left machine).KeepsTo limit →
    ∃ last crossing,
      step (machine.limited limit) = .error (.failed (.output .full)) last ∧
        last.output = (step.left machine).output.truncated limit ∧
        crosses crossing ∧ crossing.SameContents last

section Steps

variable {limit : Nat} {crosses : Machine → Prop} {machine : Machine}

/-- The machine after a step that yields a value. -/
theorem Run.left_of_ok
    {step : Run α}
    {value : α}
    {after : Machine}
    (yields : step machine = .ok value after) :
    step.left machine = after := by
  rw [Run.left, yields]

/-- The machine after a step that fails. -/
theorem Run.left_of_error
    {step : Run α}
    {halt : Halt}
    {after : Machine}
    (fails : step machine = .error halt after) :
    step.left machine = after := by
  rw [Run.left, fails]

/-- A relation that a step keeps holds of the machine that it leaves. -/
theorem Run.Keeps.left
    {related : Machine → Machine → Prop}
    {step : Run α}
    (keeps : Keeps related step)
    (machine : Machine) :
    related machine (step.left machine) := by
  cases outcome : step machine with
  | ok value after => exact left_of_ok outcome ▸ keeps.ok outcome
  | error halt after => exact left_of_error outcome ▸ keeps.error outcome

/-- A silent step leaves the output and the sources that are being executed as
they are. -/
theorem Run.Silent.unchanged
    {step : Run α}
    (silent : Silent step)
    (machine : Machine) :
    (step.left machine).output = machine.output ∧
      (step.left machine).requiring = machine.requiring ∧
      (step.left machine).world = machine.world := by
  have same := silent machine machine.requiring machine.output machine.world
  have unchanged : machine.aside machine.requiring machine.output
      machine.world = machine := rfl
  rw [unchanged] at same
  cases outcome : step machine with
  | ok value after =>
      rw [outcome] at same
      injection same with _ sameMachine
      rw [left_of_ok outcome, sameMachine]
      exact ⟨rfl, rfl, rfl⟩
  | error halt after =>
      rw [outcome] at same
      injection same with _ sameMachine
      rw [left_of_error outcome, sameMachine]
      exact ⟨rfl, rfl, rfl⟩

namespace Run.Truncates

/-- What crosses the limit may be said in other words. -/
theorem weaken
    {step : Run α}
    {crossesToo : Machine → Prop}
    (truncates : Truncates limit crosses step machine)
    (includes : ∀ crossing, crosses crossing → crossesToo crossing) :
    Truncates limit crossesToo step machine where
  adds := truncates.adds
  whole := truncates.whole
  cut free keeps beyond := by
    obtain ⟨last, crossing, fails, output, isCrossing, same⟩ :=
      truncates.cut free keeps beyond
    exact ⟨last, crossing, fails, output, includes crossing isCrossing, same⟩

/-- A step that writes nothing. -/
theorem ofSilent
    {step : Run α}
    (silent : Silent step) :
    Truncates limit crosses step machine := by
  obtain ⟨output, requiring, world⟩ := silent.unchanged machine
  refine ⟨fun _ => ⟨.empty, by simp [output]⟩, fun _ _ => ?_,
    fun _ keeps beyond => ?_⟩
  · have same :=
      silent machine machine.requiring (machine.output.truncated limit)
      machine.world
    have isLimited :
        machine.aside machine.requiring (machine.output.truncated limit)
          machine.world = machine.limited limit := rfl
    rw [← isLimited, same]
    cases outcome : step machine with
    | ok value after =>
        rw [left_of_ok outcome] at output requiring world
        rw [outcomeAside, outcomeLimited, Machine.aside, Machine.limited,
          output, ← requiring, ← world]
    | error halt after =>
        rw [left_of_error outcome] at output requiring world
        rw [outcomeAside, outcomeLimited, Machine.aside, Machine.limited,
          output, ← requiring, ← world]
  · rw [Machine.KeepsTo, output] at beyond
    exact absurd keeps beyond

/-- One step after the other: what is written beyond the limit is cut off in the
first one, or else in the second one. -/
theorem andThen
    {step : Run α}
    {next : α → Run β}
    (truncates : Truncates limit crosses step machine)
    (truncatesNext : ∀ value after, step machine = .ok value after →
      Truncates limit crosses (next value) after) :
    Truncates limit crosses (step >>= next) machine := by
  cases outcome : step machine with
  | error halt middle =>
      have both : (step >>= next) machine = .error halt middle :=
        bind_of_error outcome
      have same := left_of_error outcome
      refine ⟨?_, fun free keeps => ?_, fun free keeps beyond => ?_⟩
      all_goals rw [left_of_error both] at *
      · exact same ▸ truncates.adds
      · have fails := truncates.whole free (same ▸ keeps)
        rw [outcome] at fails
        rw [both]
        exact bind_of_error fails
      · obtain ⟨last, crossing, fails, output, isCrossing, contents⟩ :=
          truncates.cut free keeps (same ▸ beyond)
        exact ⟨last, crossing, bind_of_error fails, same ▸ output, isCrossing,
          contents⟩
  | ok value middle =>
      have both : (step >>= next) machine = next value middle :=
        bind_of_ok outcome
      have sameFirst := left_of_ok outcome
      have same : (step >>= next).left machine = (next value).left middle := by
        rw [Run.left, both, Run.left]
      have adds : machine.Adds middle := sameFirst ▸ truncates.adds
      have second := truncatesNext value middle outcome
      have goesOn (free : machine.Free) (keeps : middle.KeepsTo limit) :
          (step >>= next) (machine.limited limit) =
            next value (middle.limited limit) := by
        have first := truncates.whole free (sameFirst ▸ keeps)
        rw [outcome] at first
        exact bind_of_ok first
      refine ⟨?_, fun free keeps => ?_, fun free keeps beyond => ?_⟩
      · rw [same]
        exact Machine.respected_adds.trans adds second.adds
      · rw [same] at keeps
        rw [goesOn free (second.adds.keepsTo (adds.free free) keeps), both]
        exact second.whole (adds.free free) keeps
      · rw [same] at beyond ⊢
        by_cases within : middle.KeepsTo limit
        · obtain ⟨last, crossing, fails, output, isCrossing, contents⟩ :=
            second.cut (adds.free free) within beyond
          exact ⟨last, crossing, (goesOn free within).trans fails, output,
            isCrossing, contents⟩
        · obtain ⟨last, crossing, fails, output, isCrossing, contents⟩ :=
            truncates.cut free keeps (sameFirst ▸ within)
          refine ⟨last, crossing, bind_of_error fails, ?_, isCrossing, contents⟩
          rw [output, sameFirst,
            second.adds.truncated_eq (adds.free free) within]

/-- A step that looks at the rest of the machine first. -/
theorem look
    {next : Machine → Run α}
    (alike : next (machine.limited limit) = next machine)
    (truncates : Truncates limit crosses (next machine) machine) :
    Truncates limit crosses (get >>= next) machine where
  adds := truncates.adds
  whole free keeps := by
    rw [bind_get, bind_get, alike]
    exact truncates.whole free keeps
  cut free keeps beyond := by
    rw [bind_get, alike]
    exact truncates.cut free keeps beyond

/-- A step in another frame. -/
theorem inFrame
    {step : Run α}
    {frame : FrameId}
    (truncates :
      Truncates limit crosses step { machine with active := frame }) :
    Truncates limit crosses (Run.inFrame frame step) machine := by
  have same : (Run.inFrame frame step).left machine =
      { step.left { machine with active := frame } with
        active := machine.active } := by
    simp only [Run.left, Run.inFrame]
    cases step { machine with active := frame } <;> rfl
  refine ⟨?_, fun free keeps => ?_, fun free keeps beyond => ?_⟩
  all_goals rw [same] at *
  · exact truncates.adds
  · have inside : step { machine.limited limit with active := frame } = _ :=
      truncates.whole free keeps
    simp only [Run.inFrame, inside]
    cases step { machine with active := frame } <;> rfl
  · obtain ⟨last, crossing, fails, output, isCrossing, contents⟩ :=
      truncates.cut free keeps beyond
    have inside : step { machine.limited limit with active := frame } = _ :=
      fails
    refine ⟨{ last with active := machine.active }, crossing, ?_, output,
      isCrossing,
      ⟨contents.store, contents.distances, contents.world, contents.nextNode⟩⟩
    simp only [Run.inFrame, inside]
    rfl

/-- A step of a required source. -/
theorem whileRequiring
    {step : Run α}
    {path : String}
    (truncates :
      Truncates limit crosses step
        { machine with requiring := path :: machine.requiring }) :
    Truncates limit crosses (Run.whileRequiring path step) machine := by
  have same : (Run.whileRequiring path step).left machine =
      { step.left { machine with requiring := path :: machine.requiring } with
        requiring :=
          (step.left
            { machine with
              requiring := path :: machine.requiring }).requiring.tail } := by
    simp only [Run.left, Run.whileRequiring]
    cases step { machine with requiring := path :: machine.requiring } <;> rfl
  refine ⟨?_, fun free keeps => ?_, fun free keeps beyond => ?_⟩
  all_goals rw [same] at *
  · exact truncates.adds
  · have inside :
        step
        { machine.limited limit with requiring := path :: machine.requiring } =
        _ :=
      truncates.whole free keeps
    simp only [Run.whileRequiring]
    rw [show (machine.limited limit).requiring = machine.requiring from rfl,
      inside]
    cases step { machine with requiring := path :: machine.requiring } <;> rfl
  · obtain ⟨last, crossing, fails, output, isCrossing, contents⟩ :=
      truncates.cut free keeps beyond
    have inside :
        step
        { machine.limited limit with requiring := path :: machine.requiring } =
        _ :=
      fails
    refine ⟨{ last with requiring := last.requiring.tail }, crossing, ?_,
      output, isCrossing,
      ⟨contents.store, contents.distances, contents.world, contents.nextNode⟩⟩
    simp only [Run.whileRequiring]
    rw [show (machine.limited limit).requiring = machine.requiring from rfl,
      inside]

end Run.Truncates

/-- Steps are cut off by a limit as they are composed. -/
theorem composes_truncates
    (limit : Nat)
    (crosses : Machine → Prop) :
    Composes fun step machine => Truncates limit crosses step machine where
  silent := .ofSilent
  andThen := .andThen
  look alike truncates := .look (alike _ _ _) truncates
  inFrame := .inFrame
  whileRequiring := .whileRequiring

/-- A write is accepted or it fails, and is kept as far as there is room. -/
theorem Run.write_eq
    (text : String)
    (machine : Machine) :
    write text machine =
      if machine.output.accepts text.toUTF8.size then
        .ok () { machine with output := machine.output.append text.toUTF8 }
      else
        .error (.failed (.output .full))
          { machine with output := machine.output.append text.toUTF8 } := by
  unfold write
  rw [bind_get]
  simp only [Sink.writeFault?]
  cases machine.output.accepts text.toUTF8.size <;> rfl

/-- Writing, in a machine that crosses the limit if the text goes beyond it. -/
theorem truncates_write
    (text : String)
    (isCrossing : machine.KeepsTo limit →
      limit < machine.output.written.size + text.toUTF8.size →
        crosses machine) :
    Truncates limit crosses (write text) machine := by
  generalize isBytes : text.toUTF8 = bytes at isCrossing
  have accepted (free : machine.Free) :
      write text machine = .ok ()
        { machine with output := machine.output.append bytes } := by
    rw [write_eq, isBytes, if_pos (by rw [Sink.accepts, free])]
  have written (free : machine.Free) :
      (machine.output.append bytes).written = machine.output.written ++ bytes :=
    Sink.written_append_of_accepts (by rw [Sink.accepts, free])
  have goesOn (free : machine.Free) (within : machine.KeepsTo limit) :
      write text (machine.limited limit) =
        if machine.output.written.size + bytes.size ≤ limit then
          .ok () (Machine.limited limit
            { machine with output := machine.output.append bytes })
        else
          .error (.failed (.output .full))
            (Machine.limited limit
              { machine with output := machine.output.append bytes }) := by
    rw [write_eq, isBytes]
    simp only [Machine.limited, Sink.accepts_truncated_iff within,
      Sink.append_truncated free within]
  have adds : machine.Adds ((write text).left machine) :=
    (Machine.respected_adds.keeps_write text).left machine
  refine ⟨adds, fun free keeps => ?_, fun free keeps beyond => ?_⟩
  · have within := adds.keepsTo free keeps
    rw [left_of_ok (accepted free), Machine.KeepsTo, written free,
      ByteArray.size_append] at keeps
    rw [goesOn free within, if_pos keeps, accepted free]
    rfl
  · rw [left_of_ok (accepted free)] at beyond ⊢
    rw [Machine.KeepsTo, written free, ByteArray.size_append] at beyond
    rw [goesOn free keeps, if_neg beyond]
    exact ⟨_, machine, rfl, rfl, isCrossing keeps (Nat.lt_of_not_le beyond),
      ⟨rfl, rfl, rfl, rfl⟩⟩

/-- Loading a required source. -/
theorem truncates_loadRequired
    (context : Context)
    (keyword : Token)
    (path : String)
    (crosses : Machine → Prop) :
    Truncates limit crosses (loadRequired context keyword path) machine := by
  rw [loadRequired_eq_look]
  exact .look rfl
    (.ofSilent (silent_loadAmid context keyword path machine.requiring))

/-- Calling a native. -/
theorem truncates_callNative
    (context : Context)
    (native : Native)
    (arguments : List Value)
    (crosses : Machine → Prop) :
    Truncates limit crosses (callNative context native arguments) machine := by
  refine .andThen ⟨fun _ => ⟨.empty, by simp [Run.left, modifyGet_eq]⟩,
    fun _ _ => rfl, ?_⟩
    fun outcome after _ => ?_
  · exact fun _ keeps beyond => absurd keeps beyond
  · cases outcome with
    | ok value => exact .ofSilent (.ofPure value)
    | error reason => exact .ofSilent (.ofFail _)

end Steps

/-- Doing the task, the evaluator comes to a print whose text goes beyond the
limit: this is the machine in which the text is written. -/
def Task.Crosses
    (context : Context)
    (limit : Nat)
    (task : Task)
    (machine crossing : Machine) : Prop :=
  ∃ value start steps shown,
    Reaches context task machine (.exec (.print value)) start ∧
      LoxScript.eval context steps value start = .ok shown crossing ∧
      crossing.KeepsTo limit ∧
      limit < crossing.output.written.size + (shown.text ++ "\n").toUTF8.size

section Tasks

variable {context : Context} {steps limit : Nat} {task other : Task}
  {machine after : Machine}

/-- What a task asks for crosses the limit in no other machine than the task. -/
theorem Task.Crosses.before
    {crossing : Machine}
    (calls : Calls context steps task machine other after)
    (crosses : other.Crosses context limit after crossing) :
    task.Crosses context limit machine crossing := by
  obtain ⟨value, start, fewer, shown, reaches, yields, keeps, beyond⟩ := crosses
  exact ⟨value, start, fewer, shown, reaches.before calls, yields, keeps,
    beyond⟩

/-- Every task is cut off by a limit at a print that it comes to. -/
theorem truncates_task
    (context : Context)
    (limit steps : Nat)
    (task : Task)
    (machine : Machine) :
    Truncates limit (task.Crosses context limit machine)
      (task.run context steps) machine := by
  induction steps generalizing task machine with
  | zero => exact (composes_truncates limit _).task_zero task machine
  | succ steps inductionHypothesis =>
      refine (composes_truncates limit _).task_succ ?_ ?_ ?_ ?_
      · intro other after calls
        exact (inductionHypothesis other after).weaken fun _ crosses =>
          crosses.before calls
      · rintro value shown after rfl yields
        refine truncates_write _ fun keeps beyond => ?_
        exact ⟨value, machine, steps, shown, .here, yields, keeps, beyond⟩
      · intro keyword path _
        exact truncates_loadRequired context keyword path _
      · exact fun native arguments _ =>
          truncates_callNative context native arguments _

/-- With a limit, a step yields a value exactly if it yields the value without,
and keeps to the limit. -/
theorem Run.Truncates.ok_iff
    {crosses : Machine → Prop}
    {step : Run α}
    {value : α}
    (truncates : Truncates limit crosses step machine)
    (free : machine.Free)
    (within : machine.KeepsTo limit) :
    step (machine.limited limit) = .ok value after ↔
      ∃ last, step machine = .ok value last ∧ last.KeepsTo limit ∧
        after = last.limited limit := by
  constructor
  · intro yields
    by_cases keeps : (step.left machine).KeepsTo limit
    · rw [truncates.whole free keeps] at yields
      cases outcome : step machine with
      | ok found last =>
          rw [outcome] at yields
          cases yields
          rw [left_of_ok outcome] at keeps
          exact ⟨last, rfl, keeps, rfl⟩
      | error halt last =>
          rw [outcome] at yields
          cases yields
    · obtain ⟨last, crossing, fails, -⟩ := truncates.cut free within keeps
      rw [fails] at yields
      cases yields
  · rintro ⟨last, yields, keeps, rfl⟩
    rw [truncates.whole free (by rwa [left_of_ok yields]), yields]
    rfl

/-- What a task asks for is asked for when no less is written. -/
theorem Calls.adds
    (calls : Calls context steps task machine other after) :
    machine.Adds after := by
  obtain ⟨middle, adds, seats⟩ := calls.between Machine.respected_adds
  cases seats <;> exact adds

/-- A step that yields a value takes back nothing that is written. -/
theorem Run.Truncates.addsTo
    {crosses : Machine → Prop}
    {step : Run α}
    {value : α}
    (truncates : Truncates limit crosses step machine)
    (yields : step machine = .ok value after) :
    machine.Adds after :=
  left_of_ok yields ▸ truncates.adds

/-- With a limit, a step yields what it yields without, if it keeps to the
limit. -/
theorem Run.Truncates.ok
    {crosses : Machine → Prop}
    {step : Run α}
    {value : α}
    (truncates : Truncates limit crosses step machine)
    (free : machine.Free)
    (yields : step machine = .ok value after)
    (keeps : after.KeepsTo limit) :
    step (machine.limited limit) = .ok value (after.limited limit) :=
  (truncates.ok_iff free ((truncates.addsTo yields).keepsTo free keeps)).mpr
    ⟨after, yields, keeps, rfl⟩

/-- The body of a function is cut off by a limit. -/
theorem truncates_body
    (context : Context)
    (limit steps : Nat)
    (frame : FrameId)
    (body : List Stmt)
    (machine : Machine) :
    Truncates limit (fun _ => True) (inFrame frame (execAll context steps body))
      machine :=
  .inFrame ((truncates_task context limit steps (.execAll body) _).weaken
    fun _ _ => trivial)

/-- With a limit, a task asks for what it asks for without as long as it keeps
to the limit. -/
theorem Calls.limited
    (calls : Calls context steps task machine other after)
    (free : machine.Free)
    (keeps : after.KeepsTo limit) :
    Calls context steps task (machine.limited limit) other
      (after.limited limit) := by
  have truncates (task : Task) {machine : Machine} :=
    truncates_task context limit steps task machine
  cases calls with
  | binaryRight left =>
      exact .binaryRight ((truncates (.eval _)).ok free left keeps)
  | logicalRight left unsettled =>
      exact .logicalRight ((truncates (.eval _)).ok free left keeps) unsettled
  | arguments callee =>
      exact .arguments ((truncates (.eval _)).ok free callee keeps)
  | applied callee arguments isCallable fits =>
      have freeMiddle := ((truncates (.eval _)).addsTo callee).free free
      have keepsMiddle :=
        ((truncates (.evalAll _)).addsTo arguments).keepsTo freeMiddle keeps
      exact .applied ((truncates (.eval _)).ok free callee keepsMiddle)
        ((truncates (.evalAll _)).ok freeMiddle arguments keeps) isCallable fits
  | stored object => exact .stored ((truncates (.eval _)).ok free object keeps)
  | restExprs first =>
      exact .restExprs ((truncates (.eval _)).ok free first keeps)
  | initializer allocates isInitializer binds =>
      cases allocates
      cases binds
      exact .initializer rfl isInitializer rfl
  | body allocates =>
      cases allocates
      exact .body rfl
  | block allocates =>
      cases allocates
      exact .block rfl
  | result allocates flow =>
      cases allocates
      refine .result rfl
        (Run.Truncates.ok (truncates_body context limit steps _ _ _)
          ?_ flow keeps)
      exact free
  | thenBranch condition holds =>
      exact .thenBranch ((truncates (.eval _)).ok free condition keeps) holds
  | elseBranch condition fails =>
      exact .elseBranch ((truncates (.eval _)).ok free condition keeps) fails
  | required loads =>
      exact .required
        ((truncates_loadRequired context _ _ (fun _ => True)).ok
          free loads keeps)
  | restStmts first =>
      exact .restStmts ((truncates (.exec _)).ok free first keeps)
  | repeated condition holds =>
      exact .repeated ((truncates (.eval _)).ok free condition keeps) holds
  | again condition holds body =>
      have freeMiddle := ((truncates (.eval _)).addsTo condition).free free
      have keepsMiddle :=
        ((truncates (.exec _)).addsTo body).keepsTo freeMiddle keeps
      exact .again ((truncates (.eval _)).ok free condition keepsMiddle) holds
        ((truncates (.exec _)).ok freeMiddle body keeps)
  | _ => constructor

/-- With a limit, a task asks for nothing that it does not ask for without while
it keeps to the limit. -/
theorem Calls.of_limited
    (calls : Calls context steps task (machine.limited limit) other after)
    (free : machine.Free)
    (within : machine.KeepsTo limit) :
    ∃ last, Calls context steps task machine other last ∧ last.KeepsTo limit ∧
      after = last.limited limit := by
  have truncates (task : Task) {machine : Machine} :=
    truncates_task context limit steps task machine
  cases calls with
  | binaryRight left =>
      obtain ⟨last, yields, keeps, rfl⟩ :=
        ((truncates (.eval _)).ok_iff free within).mp left
      exact ⟨last, .binaryRight yields, keeps, rfl⟩
  | logicalRight left unsettled =>
      obtain ⟨last, yields, keeps, rfl⟩ :=
        ((truncates (.eval _)).ok_iff free within).mp left
      exact ⟨last, .logicalRight yields unsettled, keeps, rfl⟩
  | arguments callee =>
      obtain ⟨last, yields, keeps, rfl⟩ :=
        ((truncates (.eval _)).ok_iff free within).mp callee
      exact ⟨last, .arguments yields, keeps, rfl⟩
  | applied callee arguments isCallable fits =>
      obtain ⟨middle, yields, keepsMiddle, rfl⟩ :=
        ((truncates (.eval _)).ok_iff free within).mp callee
      have freeMiddle := ((truncates (.eval _)).addsTo yields).free free
      obtain ⟨last, yieldsAll, keeps, rfl⟩ :=
        ((truncates (.evalAll _)).ok_iff freeMiddle keepsMiddle).mp arguments
      exact ⟨last, .applied yields yieldsAll isCallable fits, keeps, rfl⟩
  | stored object =>
      obtain ⟨last, yields, keeps, rfl⟩ :=
        ((truncates (.eval _)).ok_iff free within).mp object
      exact ⟨last, .stored yields, keeps, rfl⟩
  | restExprs first =>
      obtain ⟨last, yields, keeps, rfl⟩ :=
        ((truncates (.eval _)).ok_iff free within).mp first
      exact ⟨last, .restExprs yields, keeps, rfl⟩
  | initializer allocates isInitializer binds =>
      cases allocates
      cases binds
      exact ⟨_, .initializer rfl isInitializer rfl, within, rfl⟩
  | body allocates =>
      cases allocates
      exact ⟨_, .body rfl, within, rfl⟩
  | block allocates =>
      cases allocates
      exact ⟨_, .block rfl, within, rfl⟩
  | result allocates flow =>
      rename_i function arguments _ _ _
      cases allocates
      have truncatesBody :=
        truncates_body context limit steps machine.store.nextFrame
        function.declaration.body
        { machine with
          store := machine.store.allocate (callFrame function arguments) }
      obtain ⟨last, yields, keeps, rfl⟩ :=
        (truncatesBody.ok_iff free within).mp flow
      exact ⟨last, .result rfl yields, keeps, rfl⟩
  | thenBranch condition holds =>
      obtain ⟨last, yields, keeps, rfl⟩ :=
        ((truncates (.eval _)).ok_iff free within).mp condition
      exact ⟨last, .thenBranch yields holds, keeps, rfl⟩
  | elseBranch condition fails =>
      obtain ⟨last, yields, keeps, rfl⟩ :=
        ((truncates (.eval _)).ok_iff free within).mp condition
      exact ⟨last, .elseBranch yields fails, keeps, rfl⟩
  | required loads =>
      obtain ⟨last, yields, keeps, rfl⟩ :=
        ((truncates_loadRequired context _ _ fun _ => True).ok_iff free
          within).mp loads
      exact ⟨_, .required yields, keeps, rfl⟩
  | restStmts first =>
      obtain ⟨last, yields, keeps, rfl⟩ :=
        ((truncates (.exec _)).ok_iff free within).mp first
      exact ⟨last, .restStmts yields, keeps, rfl⟩
  | repeated condition holds =>
      obtain ⟨last, yields, keeps, rfl⟩ :=
        ((truncates (.eval _)).ok_iff free within).mp condition
      exact ⟨last, .repeated yields holds, keeps, rfl⟩
  | again condition holds body =>
      obtain ⟨middle, yields, keepsMiddle, rfl⟩ :=
        ((truncates (.eval _)).ok_iff free within).mp condition
      have freeMiddle := ((truncates (.eval _)).addsTo yields).free free
      obtain ⟨last, yieldsBody, keeps, rfl⟩ :=
        ((truncates (.exec _)).ok_iff freeMiddle keepsMiddle).mp body
      exact ⟨last, .again yields holds yieldsBody, keeps, rfl⟩
  | _ => exact ⟨machine, by constructor, within, rfl⟩

/-- The evaluator takes back nothing that is written. -/
theorem Reaches.adds
    {start : Task}
    (reaches : Reaches context start machine other after) :
    machine.Adds after := by
  induction reaches with
  | here => exact Machine.respected_adds.refl machine
  | call _ _ calls inductionHypothesis =>
      exact Machine.respected_adds.trans inductionHypothesis calls.adds

/-- With a limit, the evaluator comes to what it comes to without while it keeps
to the limit, and to nothing else. -/
theorem Task.reaches_limited_iff
    {start : Task}
    (free : machine.Free)
    (within : machine.KeepsTo limit) :
    Reaches context start (machine.limited limit) other after ↔
      ∃ last, Reaches context start machine other last ∧ last.KeepsTo limit ∧
        after = last.limited limit := by
  constructor
  · intro reaches
    induction reaches with
    | here => exact ⟨machine, .here, within, rfl⟩
    | call steps _ calls inductionHypothesis =>
        obtain ⟨middle, reaches, keepsMiddle, rfl⟩ := inductionHypothesis
        obtain ⟨last, callsFree, keeps, rfl⟩ :=
          calls.of_limited (reaches.adds.free free) keepsMiddle
        exact ⟨last, .call steps reaches callsFree, keeps, rfl⟩
  · rintro ⟨last, reaches, keeps, rfl⟩
    induction reaches with
    | here => exact .here
    | call steps reaches calls inductionHypothesis =>
        have freeMiddle := reaches.adds.free free
        exact .call steps
          (inductionHypothesis (calls.adds.keepsTo freeMiddle keeps))
          (calls.limited freeMiddle keeps)

end Tasks

end LoxScript
