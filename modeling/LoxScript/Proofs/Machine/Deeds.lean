import LoxScript.Proofs.Machine.Chronicle

namespace LoxScript

/-!
# What runs do to names and fields

The deeds of a run are fields that are set, declarations that are completed and
natives that are made globals; with them are listed the tasks that the evaluator
comes to, the programs that it loads and the values that expressions have.  From
one deed to the next, frames keep their names and instances their fields.  So
what a frame or an instance has follows from what it had and from the deeds
since.
-/

open Run

/-- Something that a run does, or comes to. -/
inductive Deed where
  /-- The evaluator comes to a task. -/
  | task (task : Task) (machine : Machine)
  /-- The program of a source is about to be executed. -/
  | included (program : Program) (machine : Machine)
  /-- A field of an instance is about to be set. -/
  | set (object : Instance) (name : String) (value : Value) (machine : Machine)
  /-- A declaration that was come to in the first machine is completed in the
  second. -/
  | declared (statement : Stmt) (start : Machine) (machine : Machine)
  /-- An expression has its value. -/
  | yielded (expr : Expr) (value : Value) (machine : Machine)
  /-- A native of the host has become a global. -/
  | merged (native : Native) (machine : Machine)

/-- The chronicle of deeds. -/
def doing : Chronicle Deed where
  comes task machine := [.task task machine]
  loads context keyword path machine :=
    (loadRequired context keyword path).onwards machine fun program after =>
      [.included program after]
  sets object name value machine := [.set object name value machine]
  declares statement start machine := [.declared statement start machine]
  yields expr value machine := [.yielded expr value machine]

/-- The statement declares this name in the scope it stands in. -/
def Stmt.Declares (statement : Stmt) (name : String) : Prop :=
  ∃ token, statement.declared? = some token ∧ name = token.lexeme

/-- What is done while a task is done in a number of steps. -/
def Task.deeds (context : Context) (steps : Nat) (task : Task)
    (machine : Machine) : List Deed :=
  doing.list context steps task machine

/-- What a task does itself, where what comes before takes at most `steps`
steps. -/
inductive Task.Does (context : Context) (steps : Nat) : Task → Machine →
    Deed → Prop where
  | comes {task machine} : Does context steps task machine (.task task machine)
  | includes {keyword path machine program after} :
      loadRequired context keyword path machine = .ok program after →
      Does context steps (.exec (.require keyword path)) machine
        (.included program after)
  | sets {object name value machine found middle stored after} :
      LoxScript.eval context steps object machine = .ok (.object found) middle →
      LoxScript.eval context steps value middle = .ok stored after →
      Does context steps (.eval (.set object name value)) machine
        (.set found name.lexeme stored after)
  | yields {expr machine value after} :
      LoxScript.eval context (steps + 1) expr machine = .ok value after →
      Does context steps (.eval expr) machine (.yielded expr value after)
  | declares {statement machine flow after} :
      statement.declared? ≠ none →
      LoxScript.exec context (steps + 1) statement machine = .ok flow after →
      Does context steps (.exec statement) machine
        (.declared statement machine after)

/-- What is done while a task is done, the task does itself or a task does that
it asks for. -/
theorem Task.mem_deeds_succ_iff
    {context : Context}
    {steps : Nat}
    {task : Task}
    {machine : Machine}
    {deed : Deed} :
    deed ∈ task.deeds context (steps + 1) machine ↔
      Does context steps task machine deed ∨
        ∃ other after, Calls context steps task machine other after ∧
          deed ∈ other.deeds context steps after := by
  unfold deeds
  rw [Chronicle.mem_list_succ_iff]
  constructor
  · rintro (comes | opens | inner | closes)
    · cases List.mem_singleton.mp comes
      exact .inl .comes
    · unfold Chronicle.opening at opens
      split at opens
      · obtain ⟨program, after, loads, included⟩ := mem_onwards_iff.mp opens
        cases List.mem_singleton.mp included
        exact .inl (.includes loads)
      · cases opens
    · exact .inr inner
    · unfold Chronicle.closing at closes
      split at closes
      · rcases List.mem_append.mp closes with stores | yields
        · unfold Chronicle.storing at stores
          split at stores
          · obtain ⟨held, middle, holds, sets⟩ := mem_onwards_iff.mp stores
            split at sets
            · obtain ⟨stored, after, evaluates, isSet⟩ :=
                mem_onwards_iff.mp sets
              cases List.mem_singleton.mp isSet
              exact .inl (.sets holds evaluates)
            · cases sets
          · cases stores
        · obtain ⟨value, after, evaluates, isYielded⟩ :=
            mem_onwards_iff.mp yields
          cases List.mem_singleton.mp isYielded
          exact .inl (.yields evaluates)
      · split at closes
        · rename_i name declares
          obtain ⟨flow, after, executes, isDeclared⟩ :=
            mem_onwards_iff.mp closes
          cases List.mem_singleton.mp isDeclared
          exact .inl (.declares (by simp [declares]) executes)
        · cases closes
      · cases closes
  · rintro (does | inner)
    · cases does with
      | comes => exact .inl (.head _)
      | includes loads =>
          exact .inr (.inl (mem_onwards_iff.mpr ⟨_, _, loads, .head _⟩))
      | sets holds evaluates =>
          exact .inr (.inr (.inr (List.mem_append_left _ (mem_onwards_iff.mpr
            ⟨_, _, holds, mem_onwards_iff.mpr ⟨_, _, evaluates, .head _⟩⟩))))
      | yields evaluates =>
          exact .inr (.inr (.inr (List.mem_append_right _ (mem_onwards_iff.mpr
            ⟨_, _, evaluates, .head _⟩))))
      | @declares statement _ _ _ declares executes =>
          refine .inr (.inr (.inr ?_))
          unfold Chronicle.closing
          dsimp only
          split
          · exact mem_onwards_iff.mpr ⟨_, _, executes, .head _⟩
          · exact absurd ‹_› declares
    · exact .inr (.inr (.inl inner))

namespace Deed

/-- The machine at the moment of the deed. -/
def machine : Deed → Machine
  | .task _ machine => machine
  | .included _ machine => machine
  | .set _ _ _ machine => machine
  | .declared _ _ machine => machine
  | .yielded _ _ machine => machine
  | .merged _ machine => machine

/-- The deed gives the frame this name. -/
def Names (frame : FrameId) (name : String) : Deed → Prop
  | .declared statement start _ =>
      frame = start.active ∧ statement.Declares name
  | .merged native _ => frame = globalFrame ∧ name = native.name
  | _ => False

/-- What the deed gives the field of the instance, if it sets that field. -/
def sets? (object : InstanceId) (name : String) : Deed → Option Value
  | .set held field value _ =>
      if held.identity = object ∧ field = name then some value else none
  | _ => none

/-- The instance is there of which the deed sets a field. -/
def Effective : Deed → Prop
  | .set held _ _ machine => held.identity < machine.store.nextInstance
  | _ => True

/-- The value that was stored last in the field of the instance. -/
def lastSet? (object : InstanceId) (name : String) (deeds : List Deed) :
    Option Value :=
  (deeds.filterMap (sets? object name)).getLast?

/-- A value that is stored later counts, or else one that is stored earlier. -/
theorem lastSet?_append
    (object : InstanceId)
    (name : String)
    (earlier later : List Deed) :
    lastSet? object name (earlier ++ later) =
      (lastSet? object name later).or (lastSet? object name earlier) := by
  unfold lastSet?
  rw [List.filterMap_append, List.getLast?_append]

/-- The first deed counts if no later one does. -/
theorem lastSet?_cons
    (object : InstanceId)
    (name : String)
    (deed : Deed)
    (rest : List Deed) :
    lastSet? object name (deed :: rest) =
      (lastSet? object name rest).or (deed.sets? object name) := by
  rw [← List.singleton_append, lastSet?_append]
  cases sets : deed.sets? object name <;> simp [lastSet?, sets]

end Deed

/-- Frames, instances and identities that there were are still there. -/
structure Store.Retains (before after : Store) : Prop where
  frames : before.nextFrame ≤ after.nextFrame
  instances : before.nextInstance ≤ after.nextInstance
  identities : before.nextIdentity ≤ after.nextIdentity

/-- Every frame that there was has the names that it had and those that are
added, and no others. -/
structure Store.NamesGrow
    (added : FrameId → String → Prop)
    (before after : Store) : Prop where
  frames : before.nextFrame ≤ after.nextFrame
  names :
    ∀ frame < before.nextFrame, ∀ name,
      after.holds frame name = true ↔ before.holds frame name = true ∨
        added frame name

/-- The later store has these names in addition, and the same fields. -/
structure Store.Gains
    (added : FrameId → String → Prop)
    (before after :
      Store) : Prop extends Store.NamesGrow added before after where
  instances : before.nextInstance ≤ after.nextInstance
  fields : ∀ object name, after.field? object name = before.field? object name
  identities : before.nextIdentity ≤ after.nextIdentity

/-- The later store has the same names and fields. -/
def Store.Still (before after : Store) : Prop :=
  before.Gains (fun _ _ => False) after

/-- What the deed makes of the store. -/
def Deed.Takes (before after : Store) : Deed → Prop
  | .task _ machine => before = machine.store ∧ after = machine.store
  | .included _ machine => before = machine.store ∧ after = machine.store
  | .yielded _ _ machine => before = machine.store ∧ after = machine.store
  | .set object name value machine =>
      before = machine.store ∧
        after = machine.store.setField object.identity name value
  | .declared statement start machine =>
      after = machine.store ∧
        before.Gains
          (fun frame name => (Deed.declared statement start machine).Names
            frame name) after
  | .merged native machine =>
      after = machine.store ∧
        before.Gains
          (fun frame name => (Deed.merged native machine).Names frame name)
          after

/-- Between the stores these deeds are done, and nothing else happens to names
and fields. -/
inductive Store.Records : Store → List Deed → Store → Prop where
  | still {before after : Store} :
      before.Still after → Records before [] after
  | deed {before start next after : Store} {deed : Deed} {rest : List Deed} :
      before.Still start → deed.Takes start next → Records next rest after →
      Records before (deed :: rest) after

namespace Store

variable {added more : FrameId → String → Prop}
  {before middle after store : Store}

namespace Retains

theorem refl
    (store : Store) :
    store.Retains store :=
  ⟨Nat.le_refl _, Nat.le_refl _, Nat.le_refl _⟩

theorem trans
    (retains : before.Retains middle)
    (retainsThen : middle.Retains after) :
    before.Retains after :=
  ⟨Nat.le_trans retains.frames retainsThen.frames,
    Nat.le_trans retains.instances retainsThen.instances,
    Nat.le_trans retains.identities retainsThen.identities⟩

/-- A field is set. -/
theorem setField
    (store : Store)
    (object : InstanceId)
    (name : String)
    (value : Value) :
    store.Retains (store.setField object name value) := by
  refine ⟨Nat.le_refl _, ?_, Nat.le_refl _⟩
  simp [nextInstance, Store.setField]

end Retains

namespace Gains

/-- Gaining names removes nothing. -/
theorem retains
    (gains : before.Gains added after) :
    before.Retains after :=
  ⟨gains.frames, gains.instances, gains.identities⟩

/-- More names may be said to be added if none of them is. -/
theorem congr
    (gains : before.Gains added after)
    (same : ∀ frame name, added frame name ↔ more frame name) :
    before.Gains more after :=
  { gains with
    names := fun frame present name =>
      (gains.names frame present name).trans (by rw [same]) }

/-- What is gained first and what is gained then. -/
theorem trans
    (gains : before.Gains added middle)
    (gainsMore : middle.Gains more after) :
    before.Gains (fun frame name => added frame name ∨ more frame name)
      after where
  frames := Nat.le_trans gains.frames gainsMore.frames
  names frame present name := by
    rw [gainsMore.names frame (Nat.lt_of_lt_of_le present gains.frames),
      gains.names frame present, or_assoc]
  instances := Nat.le_trans gains.instances gainsMore.instances
  fields object name :=
    (gainsMore.fields object name).trans (gains.fields object name)
  identities := Nat.le_trans gains.identities gainsMore.identities

/-- Nothing is gained then. -/
theorem andStill
    (gains : before.Gains added middle)
    (still : middle.Still after) :
    before.Gains added after :=
  (gains.trans still).congr fun _ _ => by rw [or_false]

/-- A name gets a value in one frame. -/
theorem define
    (store : Store)
    (frame : FrameId)
    (name : String)
    (value : Value) :
    store.Gains (fun other wanted => other = frame ∧ wanted = name)
      (store.define frame name value) where
  frames := by simp
  names other present wanted := by
    have isPresent : frame = other → frame < store.frames.size := by
      rintro rfl
      exact present
    rw [holds_define, Bool.or_eq_true, decide_eq_true_iff, or_comm]
    grind
  instances := Nat.le_refl _
  fields _ _ := rfl
  identities := Nat.le_refl _

end Gains

namespace Still

/-- Where nothing is gained, nothing is removed. -/
theorem retains
    (still : before.Still after) :
    before.Retains after :=
  Gains.retains still

theorem refl
    (store : Store) :
    store.Still store :=
  ⟨⟨Nat.le_refl _, fun _ _ _ => by rw [or_false]⟩, Nat.le_refl _,
    fun _ _ => rfl, Nat.le_refl _⟩

theorem trans
    (still : before.Still middle)
    (stillThen : middle.Still after) :
    before.Still after :=
  Gains.andStill still stillThen

/-- A name gets another value in a frame that has it, or that was not there
before. -/
theorem define
    {frame : FrameId}
    {name : String}
    (still : before.Still after)
    (held : frame < before.nextFrame → before.holds frame name = true)
    (value : Value) :
    before.Still (after.define frame name value) := by
  have gains := Gains.trans still (.define after frame name value)
  refine { gains with names := fun other present wanted => ?_ }
  rw [gains.names other present wanted]
  constructor
  · rintro (isHeld | isAdded | ⟨rfl, rfl⟩)
    · exact .inl isHeld
    · exact isAdded.elim
    · exact .inl (held present)
  · exact fun isHeld => .inl (isHeld.resolve_right id)

/-- A change that leaves frames and fields alone. -/
theorem ofSame
    (frames : after.frames = before.frames)
    (fields : after.fields = before.fields)
    (identities : before.nextIdentity ≤ after.nextIdentity) :
    before.Still after where
  frames := by simp [nextFrame, frames]
  names frame _ name := by simp [holds, lookup?, frames]
  instances := by simp [nextInstance, fields]
  fields object name := by simp [field?, fields]
  identities := identities

/-- A new frame. -/
theorem allocate
    (store : Store)
    (added : Frame) :
    store.Still (store.allocate added) where
  frames := by simp [nextFrame_allocate]
  names frame present name := by simp [holds, lookup?_allocate_of_lt present]
  instances := Nat.le_refl _
  fields _ _ := rfl
  identities := Nat.le_refl _

/-- A new instance. -/
theorem allocateInstance
    (store : Store) :
    store.Still store.allocateInstance where
  frames := Nat.le_refl _
  names _ _ _ := by simp [holds, lookup?, Store.allocateInstance]
  instances := by simp [nextInstance, Store.allocateInstance]
  fields object name := by
    by_cases same : object = store.fields.size
    · subst same
      simp only [field?, Store.allocateInstance, Array.getElem?_push_size,
        Array.getElem?_size]
      rfl
    · simp only [field?, Store.allocateInstance, Array.getElem?_push, same,
        if_false]
  identities := Nat.le_refl _

end Still

end Store

/-- Setting a field of an instance that is there. -/
theorem Store.field?_setField_of_lt
    {store : Store}
    {held : InstanceId}
    (present : held < store.nextInstance)
    (object : InstanceId)
    (field name : String)
    (value : Value) :
    (store.setField held field value).field? object name =
      if held = object ∧ field = name then some value
      else store.field? object name := by
  unfold nextInstance at present
  by_cases same : held = object
  · subst same
    simp [field?, setField, Array.getElem_modify, present, NameMap.find?_insert]
  · simp [field?, setField, Array.getElem?_modify, same]

/-- Quiet changes neither give frames names nor set fields. -/
theorem Machine.QuietChange.still
    {before after : Machine}
    (changes : before.QuietChange after) :
    before.store.Still after.store := by
  cases changes with
  | allocate added => exact .allocate _ added
  | assign frame name value held =>
      exact Store.Still.define (.refl _) (fun _ => held) value
  | allocateInstance => exact .allocateInstance _
  | skipIdentity => exact .ofSame rfl rfl (Nat.le_succ _)
  | append bytes => exact .refl _
  | perform world => exact .refl _
  | compile source => exact .refl _
  | load accepted => exact .refl _

namespace Store.Records

variable {before middle after : Store} {deeds earlier later : List Deed}
  {deed : Deed}

/-- Nothing happens first. -/
theorem after_still
    (still : before.Still middle)
    (records : middle.Records deeds after) :
    before.Records deeds after := by
  cases records with
  | still stillThen => exact .still (still.trans stillThen)
  | deed stillThen takes rest => exact .deed (still.trans stillThen) takes rest

/-- What is done first, and what is done then. -/
theorem append
    (records : before.Records earlier middle)
    (recordsThen : middle.Records later after) :
    before.Records (earlier ++ later) after := by
  induction records with
  | still still => exact recordsThen.after_still still
  | deed still takes _ inductionHypothesis =>
      exact .deed still takes (inductionHypothesis recordsThen)

/-- One deed is done. -/
theorem single
    (takes : deed.Takes before after) :
    before.Records [deed] after :=
  .deed (.refl before) takes (.still (.refl after))

/-- What is done can be divided. -/
theorem of_append
    (records : before.Records (earlier ++ later) after) :
    ∃ middle, before.Records earlier middle ∧ middle.Records later after := by
  induction earlier generalizing before with
  | nil => exact ⟨before, .still (.refl before), records⟩
  | cons deed rest inductionHypothesis =>
      cases records with
      | deed still takes recordsRest =>
          obtain ⟨middle, first, second⟩ := inductionHypothesis recordsRest
          exact ⟨middle, .deed still takes first, second⟩

end Store.Records

namespace Deed.Takes

variable {before after : Store} {deed : Deed}

/-- No deed removes anything. -/
theorem retains
    (takes : deed.Takes before after) :
    before.Retains after := by
  cases deed with
  | task task machine =>
      obtain ⟨rfl, rfl⟩ := takes
      exact .refl _
  | included program machine =>
      obtain ⟨rfl, rfl⟩ := takes
      exact .refl _
  | yielded expr value machine =>
      obtain ⟨rfl, rfl⟩ := takes
      exact .refl _
  | set object field value machine =>
      obtain ⟨rfl, rfl⟩ := takes
      exact .setField _ _ _ _
  | declared statement start machine => exact takes.2.retains
  | merged native machine => exact takes.2.retains

/-- A deed gives frames the names that it names, and no others. -/
theorem names
    (takes : deed.Takes before after)
    {frame : FrameId}
    (present : frame < before.nextFrame)
    (name : String) :
    after.holds frame name = true ↔ before.holds frame name = true ∨
      deed.Names frame name := by
  cases deed with
  | task task machine =>
      obtain ⟨rfl, rfl⟩ := takes
      simp [Names]
  | included program machine =>
      obtain ⟨rfl, rfl⟩ := takes
      simp [Names]
  | yielded expr value machine =>
      obtain ⟨rfl, rfl⟩ := takes
      simp [Names]
  | set object field value machine =>
      obtain ⟨rfl, rfl⟩ := takes
      simp [Names, Store.holds, Store.lookup?, Store.setField]
  | declared statement start machine =>
      exact takes.2.names frame present name
  | merged native machine =>
      exact takes.2.names frame present name

/-- A deed gives the field of an instance the value that it sets, if it sets
that field. -/
theorem field?_eq
    (takes : deed.Takes before after)
    (effective : deed.Effective)
    (object : InstanceId)
    (name : String) :
    after.field? object name =
      (deed.sets? object name).or (before.field? object name) := by
  cases deed with
  | task task machine =>
      obtain ⟨rfl, rfl⟩ := takes
      rfl
  | included program machine =>
      obtain ⟨rfl, rfl⟩ := takes
      rfl
  | yielded expr value machine =>
      obtain ⟨rfl, rfl⟩ := takes
      rfl
  | set held field value machine =>
      obtain ⟨rfl, rfl⟩ := takes
      refine (Store.field?_setField_of_lt effective object field name
        value).trans ?_
      simp only [sets?]
      split <;> rfl
  | declared statement start machine => exact takes.2.fields object name
  | merged native machine => exact takes.2.fields object name

/-- At the moment of the deed, everything is there that was there before, and
fields are as they were before. -/
theorem now
    (takes : deed.Takes before after) :
    before.Retains deed.machine.store ∧ deed.machine.store.Retains after ∧
      ∀ object name,
        deed.machine.store.field? object name = before.field? object name := by
  have retains := takes.retains
  cases deed with
  | task task machine =>
      obtain ⟨rfl, rfl⟩ := takes
      exact ⟨retains, retains, fun _ _ => rfl⟩
  | included program machine =>
      obtain ⟨rfl, rfl⟩ := takes
      exact ⟨retains, retains, fun _ _ => rfl⟩
  | yielded expr value machine =>
      obtain ⟨rfl, rfl⟩ := takes
      exact ⟨retains, retains, fun _ _ => rfl⟩
  | set object field value machine =>
      obtain ⟨rfl, rfl⟩ := takes
      exact ⟨.refl _, retains, fun _ _ => rfl⟩
  | declared statement start machine =>
      obtain ⟨rfl, gains⟩ := takes
      exact ⟨retains, .refl _, gains.fields⟩
  | merged native machine =>
      obtain ⟨rfl, gains⟩ := takes
      exact ⟨retains, .refl _, gains.fields⟩

end Deed.Takes

namespace Store.Records

variable {before after : Store} {deeds : List Deed}

/-- Nothing is ever removed. -/
theorem retains
    (records : before.Records deeds after) :
    before.Retains after := by
  induction records with
  | still still => exact still.retains
  | deed still takes _ inductionHypothesis =>
      exact (still.retains).trans (takes.retains.trans inductionHypothesis)

/-- A frame has the names that it had and those that deeds have given it
since. -/
theorem holds_iff
    (records : before.Records deeds after)
    {frame : FrameId}
    (present : frame < before.nextFrame)
    (name : String) :
    after.holds frame name = true ↔
      before.holds frame name = true ∨ ∃ deed ∈ deeds,
        deed.Names frame name := by
  induction records with
  | still still => simpa using still.names frame present name
  | deed still takes _ inductionHypothesis =>
      have presentThen := Nat.lt_of_lt_of_le present still.frames
      rw [inductionHypothesis
        (Nat.lt_of_lt_of_le presentThen takes.retains.frames),
        takes.names presentThen name, still.names frame present name]
      simp [or_assoc]

/-- A field has the value that was stored in it last, or else the one that it
had. -/
theorem field?_eq
    (records : before.Records deeds after)
    (effective : ∀ deed ∈ deeds, deed.Effective)
    (object : InstanceId)
    (name : String) :
    after.field? object name =
      (Deed.lastSet? object name deeds).or (before.field? object name) := by
  induction records with
  | still still => simpa [Deed.lastSet?] using still.fields object name
  | @deed before start next after deed rest still takes _ inductionHypothesis =>
      rw [inductionHypothesis fun other member =>
        effective other (.tail _ member),
        takes.field?_eq (effective deed (.head _)), still.fields,
          Deed.lastSet?_cons, Option.or_assoc]

/-- At the moment of a deed, a field has the value that was stored in it
last. -/
theorem field?_now
    {earlier later : List Deed}
    {deed : Deed}
    (records : before.Records (earlier ++ deed :: later) after)
    (effective : ∀ other ∈ earlier, other.Effective)
    (object : InstanceId)
    (name : String) :
    deed.machine.store.field? object name =
      (Deed.lastSet? object name earlier).or (before.field? object name) := by
  obtain ⟨middle, recordsEarlier, rest⟩ := records.of_append
  cases rest with
  | deed still takes _ =>
      obtain ⟨-, -, same⟩ := takes.now
      rw [same, still.fields, recordsEarlier.field?_eq effective]

/-- What is there at the moment of a deed is there at the moment of every later
one. -/
theorem retains_now
    {earlier later : List Deed}
    {deed other : Deed}
    (records : before.Records (earlier ++ deed :: later) after)
    (member : other ∈ earlier) :
    other.machine.store.Retains deed.machine.store := by
  obtain ⟨first, between, rfl⟩ := List.append_of_mem member
  rw [List.append_assoc] at records
  obtain ⟨_, -, rest⟩ := records.of_append
  cases rest with
  | deed _ takesOther restOther =>
      obtain ⟨_, recordsBetween, restDeed⟩ := restOther.of_append
      cases restDeed with
      | deed still takes _ =>
          exact takesOther.now.2.1.trans
            (recordsBetween.retains.trans (still.retains.trans takes.now.1))

end Store.Records

/-- Between two machines, the chronicle lists what is done to names and
fields. -/
theorem tells_records :
    doing.Tells fun before deeds after =>
      before.store.Records deeds after.store where
  stay machine := .still (.refl _)
  append first second := first.append second
  nothing changes := .still changes.still
  inFrame _ records := records
  whileRequiring _ records := records
  comes task machine := .single ⟨rfl, rfl⟩
  loads context keyword path machine := by
    have quiet : Machine.Quiet fun before after =>
        before.store.Still after.store :=
      ⟨fun _ => .refl _, fun first second => first.trans second,
        fun changes => changes.still⟩
    have keeps := quiet.keeps_loadRequired context keyword path
    unfold Leads
    cases outcome : loadRequired context keyword path machine with
    | ok program after =>
        simp only [doing, onwards, outcome]
        exact .deed (keeps.ok outcome) ⟨rfl, rfl⟩ (.still (.refl _))
    | error halt after =>
        simp only [doing, onwards, outcome]
        exact .still (keeps.error outcome)
  sets object name value machine := .single ⟨rfl, rfl⟩
  yields expr value machine := .single ⟨rfl, rfl⟩
  redefines := by
    intro machine later name first second same records
    cases records with
    | still still =>
        refine .still (still.define (fun present => ?_) second)
        rw [same] at present ⊢
        simp only [Machine.defining, Store.nextFrame_define] at present
        simp [Machine.defining, Store.holds_define,
          show machine.active < machine.store.frames.size from present]
  declares := by
    intro statement name start machine after value declares same records
    cases records with
    | still still =>
        refine .single ⟨rfl, ?_⟩
        have defines :=
          Store.Gains.define machine.store machine.active name.lexeme value
        refine (defines.andStill still).congr fun frame wanted => ?_
        simp [Deed.Names, Stmt.Declares, declares, same]

/-- Whatever a task does and however it ends, its deeds tell what it does to
names and fields. -/
theorem records_task
    (context : Context)
    (steps : Nat)
    (task : Task)
    (machine : Machine) :
    Leads (task.run context steps) machine
      (fun _ after => machine.store.Records (task.deeds context steps machine)
        after.store)
      (fun _ after => machine.store.Records (task.deeds context steps machine)
        after.store) :=
  tells_records.told_task context steps task machine

end LoxScript
