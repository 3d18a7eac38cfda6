import LoxScript.Host.Standard
import LoxScript.Host.Toolbox
import LoxScript.Proofs.Machine.Composition

namespace LoxScript

/-!
# Tasks do not look at the wish to stop

The wish to stop is part of the world, which only natives look at.  If they do
not look at the wish either, it makes no difference to a task whether it is
there when the task starts: in either case the task ends alike, in machines that
are the same but for the wish.  The same holds of all tasks that the task comes
to, so a wish that comes up anywhere on the way cuts none of them short.
-/

open Run

/-- The machine in a world in which the wish to stop is there, or is not. -/
def Machine.wishing (wish : Bool) (machine : Machine) : Machine :=
  { machine with world := { machine.world with cancelled := wish } }

/-- The native does the same whether the wish to stop is there or not; it may
express the wish or withdraw it. -/
def HostNative.Heedless (native : HostNative) : Prop :=
  ∀ arguments world wish,
    (native.body arguments { world with cancelled := wish }).1 =
      (native.body arguments world).1 ∧
      (native.body arguments { world with cancelled := wish }).2.resume =
        (native.body arguments world).2.resume

/-- The standard natives do not look at the wish to stop. -/
theorem Standard.heedless_natives :
    ∀ entry ∈ Standard.natives, entry.2.Heedless := by
  intro entry member arguments world wish
  simp only [Standard.natives, List.mem_cons, List.not_mem_nil,
    or_false] at member
  rcases member with rfl | rfl | rfl
  · exact ⟨rfl, rfl⟩
  · simp only [Standard.sleep]
    split
    · -- The first split is on the sign of the duration, the second on its
      -- limit.
      split <;> split <;> exact ⟨rfl, rfl⟩
    · exact ⟨rfl, rfl⟩
  · simp only [Standard.randN]
    split
    · split
      · exact ⟨rfl, rfl⟩
      · split <;> exact ⟨rfl, rfl⟩
    · exact ⟨rfl, rfl⟩

/-- The natives for hosts to pick from do not look at the wish to stop. -/
theorem Toolbox.heedless_of_body?
    {tool key : String}
    {body : NativeBody}
    (picked : Toolbox.body? tool key = some body)
    (name : String)
    (arity : Nat) :
    HostNative.Heedless ⟨name, arity, body⟩ := by
  intro arguments world wish
  unfold Toolbox.body? at picked
  split at picked <;> cases picked
  · simp only [Toolbox.double]
    split <;> exact ⟨rfl, rfl⟩
  · exact ⟨rfl, rfl⟩
  · simp only [Toolbox.fail]
    split <;> exact ⟨rfl, rfl⟩
  all_goals exact ⟨rfl, rfl⟩

/-- The outcome of a step with the wish withdrawn. -/
def Run.outcomeResumed :
    EStateM.Result Halt Machine α → EStateM.Result Halt Machine α
  | .ok value after => .ok value (after.wishing false)
  | .error halt after => .error halt (after.wishing false)

/-- The step ends alike whether the wish to stop is there at its start or not,
but for the wish. -/
def Run.Disregards (step : Run α) (machine : Machine) : Prop :=
  ∀ wish, outcomeResumed (step (machine.wishing wish)) =
    outcomeResumed (step machine)

section Wishes

variable {machine after : Machine}

/-- Machines that are the same but for the wish. -/
theorem Machine.eq_wishing
    {other : Machine}
    (same : other.wishing false = machine.wishing false) :
    other = machine.wishing other.world.cancelled := by
  obtain ⟨store, active, distances, output,
      ⟨wish, clock, entropy, drawn, tallies⟩, requiring, next⟩ :=
    other
  simp only [Machine.wishing, Machine.mk.injEq, World.mk.injEq] at same ⊢
  simp [same]

namespace Run.Disregards

variable {step : Run α}

/-- A step that looks at the store, the scope and the distances only. -/
theorem ofSilent
    (silent : Silent step) :
    Disregards step machine := by
  intro wish
  have here := silent machine machine.requiring machine.output machine.world
  have there := silent machine machine.requiring machine.output
    { machine.world with cancelled := wish }
  have isHere : machine.aside machine.requiring machine.output machine.world =
      machine := rfl
  have isThere : machine.aside machine.requiring machine.output
      { machine.world with cancelled := wish } = machine.wishing wish := rfl
  rw [isHere] at here
  rw [isThere] at there
  rw [there, here]
  cases step machine <;> rfl

/-- A step that yields a value yields it whatever the wish, and leaves the same
machine but for the wish. -/
theorem ok
    {value : α}
    (disregards : Disregards step machine)
    (yields : step machine = .ok value after)
    (wish : Bool) :
    ∃ later, step (machine.wishing wish) = .ok value (after.wishing later) := by
  have same := disregards wish
  rw [yields] at same
  cases outcome : step (machine.wishing wish) with
  | ok found last =>
      rw [outcome] at same
      injection same with sameValue sameMachine
      exact ⟨last.world.cancelled,
        by rw [sameValue, ← Machine.eq_wishing sameMachine]⟩
  | error halt last =>
      rw [outcome] at same
      cases same

/-- A step that fails does so whatever the wish, and leaves the same machine but
for the wish. -/
theorem error
    {halt : Halt}
    (disregards : Disregards step machine)
    (fails : step machine = .error halt after)
    (wish : Bool) :
    ∃ later, step (machine.wishing wish) =
      .error halt (after.wishing later) := by
  have same := disregards wish
  rw [fails] at same
  cases outcome : step (machine.wishing wish) with
  | error found last =>
      rw [outcome] at same
      injection same with sameHalt sameMachine
      exact ⟨last.world.cancelled,
        by rw [sameHalt, ← Machine.eq_wishing sameMachine]⟩
  | ok value last =>
      rw [outcome] at same
      cases same

/-- One step after the other. -/
theorem andThen
    {next : α → Run β}
    (disregards : Disregards step machine)
    (disregardsNext :
      ∀ value after, step machine = .ok value after →
        Disregards (next value) after) :
    Disregards (step >>= next) machine := by
  intro wish
  cases outcome : step machine with
  | ok value after =>
      obtain ⟨later, outcomeThere⟩ := disregards.ok outcome wish
      rw [bind_of_ok outcome, bind_of_ok outcomeThere]
      exact disregardsNext value after outcome later
  | error halt after =>
      obtain ⟨later, outcomeThere⟩ := disregards.error outcome wish
      rw [bind_of_error outcome, bind_of_error outcomeThere]
      rfl

/-- A step that looks at the machine first, but not at the wish. -/
theorem look
    {next : Machine → Run α}
    (alike : ∀ wish, next (machine.wishing wish) = next machine)
    (disregards : Disregards (next machine) machine) :
    Disregards (get >>= next) machine := by
  intro wish
  rw [bind_get, bind_get, alike wish]
  exact disregards wish

/-- A step in another frame. -/
theorem inFrame
    {frame : FrameId}
    (disregards : Disregards step { machine with active := frame }) :
    Disregards (Run.inFrame frame step) machine := by
  intro wish
  unfold Run.inFrame
  cases outcome : step { machine with active := frame } with
  | ok value after =>
      obtain ⟨later, inside⟩ := disregards.ok outcome wish
      have outcomeThere : step { machine.wishing wish with active := frame } =
          .ok value (after.wishing later) := inside
      rw [outcomeThere]
      rfl
  | error halt after =>
      obtain ⟨later, inside⟩ := disregards.error outcome wish
      have outcomeThere : step { machine.wishing wish with active := frame } =
          .error halt (after.wishing later) := inside
      rw [outcomeThere]
      rfl

/-- A step of a required source. -/
theorem whileRequiring
    {path : String}
    (disregards :
      Disregards step { machine with requiring := path :: machine.requiring }) :
    Disregards (Run.whileRequiring path step) machine := by
  intro wish
  unfold Run.whileRequiring
  cases outcome :
    step { machine with requiring := path :: machine.requiring } with
  | ok value after =>
      obtain ⟨later, inside⟩ := disregards.ok outcome wish
      have outcomeThere :
          step
            { machine.wishing wish with
              requiring := path :: machine.requiring } =
            .ok value (after.wishing later) := inside
      rw [show (machine.wishing wish).requiring = machine.requiring from rfl,
        outcomeThere]
      rfl
  | error halt after =>
      obtain ⟨later, inside⟩ := disregards.error outcome wish
      have outcomeThere :
          step
            { machine.wishing wish with
              requiring := path :: machine.requiring } =
            .error halt (after.wishing later) := inside
      rw [show (machine.wishing wish).requiring = machine.requiring from rfl,
        outcomeThere]
      rfl

end Run.Disregards

/-- The wish is disregarded by what is composed of steps that disregard it. -/
theorem composes_disregards :
    Composes Disregards where
  silent := .ofSilent
  andThen := .andThen
  look alike disregards := .look (fun _ => alike _ _ _) disregards
  inFrame := .inFrame
  whileRequiring := .whileRequiring

/-- Writing to the output. -/
theorem disregards_write
    (text : String) :
    Disregards (write text) machine := by
  refine .look (fun _ => rfl) (.andThen (fun _ => rfl) fun _ after _ => ?_)
  split <;> exact fun _ => rfl

/-- Loading a required source. -/
theorem disregards_loadRequired
    (context : Context)
    (keyword : Token)
    (path : String) :
    Disregards (loadRequired context keyword path) machine := by
  rw [loadRequired_eq_look]
  exact .look (fun _ => rfl)
    (.ofSilent (silent_loadAmid context keyword path machine.requiring))

/-- Calling a native that does not look at the wish. -/
theorem disregards_callNative
    {context : Context}
    (heedless : ∀ native ∈ context.natives, native.Heedless)
    (native : Native)
    (arguments : List Value) :
    Disregards (callNative context native arguments) machine := by
  have performs (wish : Bool) :
      (performNative context.natives native.slot arguments
        (machine.wishing wish).world).1 =
          (performNative context.natives native.slot arguments
            machine.world).1 ∧
        (performNative context.natives native.slot arguments
            (machine.wishing wish).world).2.resume =
          (performNative context.natives native.slot arguments
            machine.world).2.resume := by
    unfold performNative
    split
    · rename_i found isFound
      exact heedless found (List.mem_of_getElem? isFound) arguments
        machine.world wish
    · exact ⟨rfl, rfl⟩
  refine .andThen (fun wish => ?_) fun outcome after _ => ?_
  · obtain ⟨sameResult, sameWorld⟩ := performs wish
    rw [modifyGet_eq, modifyGet_eq]
    dsimp only [outcomeResumed]
    rw [sameResult]
    exact congrArg
      (fun world => EStateM.Result.ok _ { machine with world := world })
      sameWorld
  · cases outcome <;> exact fun _ => rfl

/-- If natives do not look at the wish to stop, no task does: whether the wish
is there at the start or not, the task ends alike, in machines that are the same
but for the wish. -/
theorem disregards_task
    {context : Context}
    (heedless : ∀ native ∈ context.natives, native.Heedless)
    (steps : Nat)
    (task : Task)
    (machine : Machine) :
    Disregards (task.run context steps) machine := by
  induction steps generalizing task machine with
  | zero => exact composes_disregards.task_zero task machine
  | succ steps inductionHypothesis =>
      refine composes_disregards.task_succ ?_ ?_ ?_ ?_
      · exact fun other after _ => inductionHypothesis other after
      · exact fun value shown after _ _ => disregards_write _
      · exact fun keyword path _ => disregards_loadRequired context keyword path
      · exact fun native arguments _ =>
          disregards_callNative heedless native arguments

end Wishes

end LoxScript
