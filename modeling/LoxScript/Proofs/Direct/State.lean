import LoxScript.Proofs.Direct.Scopes
import LoxScript.Proofs.Machine.Distances
import LoxScript.Proofs.Seclusion.State

namespace LoxScript

/-!
# Machines without frames for iterations

Beside a machine stands one in which iterations have no frames of their own.
Where the one has the frame of an iteration, the other has left out the place,
so that all other frames have the same places on both sides and hold the same;
only what is their parent differs.  A function is hosted if it sees the same
variables on both sides.
-/

open Run

/-- Frames, nodes and their distances are kept, and the machine is in the same
frame. -/
structure Machine.Retains (before after : Machine) : Prop where
  extend : before.Extends after
  recalls : before.Recalls after

/-- All that the evaluator does to a machine keeps its frames and nodes. -/
theorem Machine.respected_retains : Machine.Respected Machine.Retains where
  refl machine := ⟨Machine.respected_extends.refl machine, .refl machine⟩
  trans first second :=
    ⟨Machine.respected_extends.trans first.extend second.extend,
      first.recalls.trans second.recalls⟩
  change changes :=
    ⟨Machine.respected_extends.change changes,
      Machine.respected_recalls.change changes⟩
  inFrame frame entered :=
    ⟨Machine.respected_extends.inFrame frame entered.extend,
      Machine.respected_recalls.inFrame frame entered.recalls⟩
  whileRequiring path entered :=
    ⟨Machine.respected_extends.whileRequiring path entered.extend,
      Machine.respected_recalls.whileRequiring path entered.recalls⟩

namespace Store

/-- Going up from the one frame in the one store is going up from the other
frame in the other, where the frames of iterations, which are marked, are left
out.  They have no parent there. -/
inductive Aligned (store image : Store) : Marks → FrameId → FrameId → Prop where
  | global :
      Aligned store image [] globalFrame globalFrame
  | kept {marks frame parent parentImage} :
      store.parent? frame = some parent →
        image.parent? frame = some parentImage →
        Aligned store image marks parent parentImage →
        Aligned store image (false :: marks) frame frame
  | folded {marks frame parent home} :
      store.parent? frame = some parent → image.parent? frame = none →
        frame ≠ globalFrame →
        Aligned store image marks parent home →
        Aligned store image (true :: marks) frame home

/-- The stores hold the same, but frames may have other parents.  Those that
have none, apart from the global one, hold nothing. -/
structure Folded (store image : Store) : Prop where
  present : globalFrame < store.nextFrame
  size : image.nextFrame = store.nextFrame
  bindings : ∀ frame name, image.lookup? frame name = store.lookup? frame name
  fields : image.fields = store.fields
  identities : image.nextIdentity = store.nextIdentity
  orphans :
    ∀ frame, frame ≠ globalFrame → image.parent? frame = none →
      ∀ name, image.lookup? frame name = none

variable {store image : Store} {marks : Marks} {frame home found : FrameId}
  {distance : Nat}
variable {name : String}

namespace Aligned

/-- A frame with scopes that are not those of an iteration has one place on both
sides. -/
theorem same
    (aligned : store.Aligned image marks frame home)
    (kept : marks.here = false) :
    home = frame := by
  cases aligned with
  | global => rfl
  | kept => rfl
  | folded => cases kept

/-- On the side without iterations, one always is in the global frame or one
with a parent. -/
theorem rooted
    (aligned : store.Aligned image marks frame home) :
    home = globalFrame ∨ ∃ parent, image.parent? home = some parent := by
  induction aligned with
  | global => exact .inl rfl
  | kept _ isParent _ _ => exact .inr ⟨_, isParent⟩
  | folded _ _ _ _ inductionHypothesis => exact inductionHypothesis

/-- A frame that is no iteration's is found on both sides, at the distance that
leaves out iterations. -/
theorem ancestor
    (aligned : store.Aligned image marks frame home)
    (top : store.parent? globalFrame = none)
    (isFound : store.ancestor? frame distance = some found)
    (unmarked : marks.marked distance = false) :
    image.ancestor? home (marks.beyond distance) = some found := by
  induction aligned generalizing distance with
  | global =>
      cases distance with
      | zero => simpa [ancestor?] using isFound
      | succ further => simp [ancestor?, top] at isFound
  | kept isParent isParentImage _ inductionHypothesis =>
      cases distance with
      | zero => simpa [ancestor?] using isFound
      | succ further =>
          simp only [ancestor?, isParent] at isFound
          simpa [ancestor?, isParentImage] using inductionHypothesis
            isFound unmarked
  | folded isParent _ _ _ inductionHypothesis =>
      cases distance with
      | zero => cases unmarked
      | succ further =>
          simp only [ancestor?, isParent] at isFound
          simpa using inductionHypothesis isFound unmarked

/-- A frame that holds something is no iteration's. -/
theorem unmarked
    (aligned : store.Aligned image marks frame home)
    (folded : store.Folded image)
    (isFound : store.ancestor? frame distance = some found)
    (held : store.holds found name = true) :
    marks.marked distance = false := by
  induction aligned generalizing distance with
  | global => rfl
  | kept isParent _ _ inductionHypothesis =>
      cases distance with
      | zero => rfl
      | succ further =>
          simp only [ancestor?, isParent] at isFound
          exact inductionHypothesis isFound
  | folded isParent isOrphan isLocal _ inductionHypothesis =>
      cases distance with
      | zero =>
          cases isFound
          have nothing := folded.orphans _ isLocal isOrphan name
          rw [folded.bindings] at nothing
          rw [holds, nothing] at held
          cases held
      | succ further =>
          simp only [ancestor?, isParent] at isFound
          exact inductionHypothesis isFound

end Aligned

namespace Folded

/-- The same names are held. -/
theorem holds
    (folded : store.Folded image)
    (frame : FrameId)
    (name : String) :
    image.holds frame name = store.holds frame name := by
  rw [Store.holds, Store.holds, folded.bindings]

/-- The fields of instances are the same. -/
theorem field?
    (folded : store.Folded image)
    (object : InstanceId)
    (name : String) :
    image.field? object name = store.field? object name := by
  rw [Store.field?, Store.field?, folded.fields]

/-- A name gets one value on both sides. -/
theorem define
    (folded : store.Folded image)
    (rooted : frame = globalFrame ∨ ∃ parent, image.parent? frame = some parent)
    (name : String)
    (value : Value) :
    (store.define frame name value).Folded (image.define frame name value) where
  present := by simpa using folded.present
  size := by simpa using folded.size
  bindings other wanted := by
    have sizes : image.frames.size = store.frames.size := folded.size
    rw [lookup?_define, lookup?_define, folded.bindings, sizes]
  fields := folded.fields
  identities := folded.identities
  orphans other isLocal isOrphan wanted := by
    rw [parent?_define] at isOrphan
    rw [lookup?_define, if_neg, folded.orphans other isLocal isOrphan]
    rintro ⟨rfl, -, -⟩
    rcases rooted with isGlobal | ⟨parent, isParent⟩
    · exact isLocal isGlobal
    · rw [isOrphan] at isParent
      cases isParent

/-- A frame is added on both sides, with the same names; without any if it has
no parent there. -/
theorem allocate
    {bindings : NameMap Value}
    {parentImage : Option FrameId}
    (folded : store.Folded image)
    (parent : Option FrameId)
    (orphan : parentImage = none → bindings = NameMap.empty) :
    (store.allocate ⟨bindings, parent⟩).Folded
      (image.allocate ⟨bindings, parentImage⟩) where
  present := by
    rw [nextFrame_allocate]
    exact Nat.lt_succ_of_lt folded.present
  size := by rw [nextFrame_allocate, nextFrame_allocate, folded.size]
  bindings frame name := by
    rcases Nat.lt_trichotomy frame store.nextFrame with earlier | rfl | later
    · rw [lookup?_allocate_of_lt earlier,
        lookup?_allocate_of_lt (folded.size ▸ earlier), folded.bindings]
    · rw [lookup?_allocate_nextFrame, ← folded.size, lookup?_allocate_nextFrame]
    · rw [lookup?_eq_none, lookup?_eq_none] <;> rw [nextFrame_allocate]
      · exact later
      · exact folded.size ▸ later
  fields := folded.fields
  identities := folded.identities
  orphans frame isLocal isOrphan name := by
    rcases Nat.lt_trichotomy frame image.nextFrame with earlier | rfl | later
    · rw [parent?_allocate_of_lt earlier] at isOrphan
      rw [lookup?_allocate_of_lt earlier, folded.orphans frame isLocal isOrphan]
    · rw [parent?_allocate_nextFrame] at isOrphan
      rw [lookup?_allocate_nextFrame, orphan isOrphan]
      rfl
    · rw [lookup?_eq_none]
      rw [nextFrame_allocate]
      exact later

/-- An instance is added on both sides. -/
theorem allocateInstance
    (folded : store.Folded image) :
    store.allocateInstance.Folded image.allocateInstance :=
  ⟨folded.present, folded.size, folded.bindings, congrArg (·.push NameMap.empty)
    folded.fields, folded.identities, folded.orphans⟩

/-- A field gets one value on both sides. -/
theorem setField
    (folded : store.Folded image)
    (object : InstanceId)
    (name : String)
    (value : Value) :
    (store.setField object name value).Folded
      (image.setField object name value) :=
  ⟨folded.present, folded.size, folded.bindings,
    congrArg (·.modify object fun held => held.insert name value) folded.fields,
    folded.identities, folded.orphans⟩

/-- An identity is handed out on both sides. -/
theorem skipIdentity
    (folded : store.Folded image) :
    store.skipIdentity.Folded image.skipIdentity :=
  ⟨folded.present, folded.size, folded.bindings, folded.fields,
    congrArg (· + 1) folded.identities, folded.orphans⟩

end Folded

end Store

/-- The node is there and leads to the same variable on both sides, where the
scopes of iterations around it are left out on the other side.  It leads to none
of these. -/
def Machine.Guides (machine image : Machine) (use : Marks × Reference) : Prop :=
  use.2.id < machine.nextNode ∧
    image.distances[use.2.id]? = machine.distances[use.2.id]?.map use.1.beyond ∧
    ∀ distance, machine.distances[use.2.id]? = some distance →
    use.1.marked distance = false

section Hosted

variable (iterations : Iterations) (machine image : Machine)

/-- Where the function is called, its code sees the same variables on both
sides. -/
def Function.Hosted (inner : Marks) (function : Function) : Prop :=
  ∃ marks, machine.store.Aligned image.store marks function.closure
    function.closure ∧
    ∀ use ∈ function.declaration.uses iterations (inner ++ marks),
      machine.Guides image use

/-- All methods of the class and of its superclasses are hosted, in a scope for
`this`. -/
def Class.Hosted (blueprint : Class) : Prop :=
  ∀ name method, blueprint.findMethod? name = some method →
    method.Hosted iterations machine image [false]

/-- Whatever can be called through the value is hosted. -/
def Value.Hosted : Value → Prop
  | .function called => called.Hosted iterations machine image []
  | .blueprint called => called.Hosted iterations machine image
  | .object held => held.blueprint.Hosted iterations machine image
  | _ => True

/-- What can be called is hosted. -/
def Callee.Hosted : Callee → Prop
  | .function called => called.Hosted iterations machine image []
  | .native _ => True
  | .blueprint called => called.Hosted iterations machine image

/-- What a statement returns is hosted. -/
def Flow.Hosted : Flow → Prop
  | .normal => True
  | .returned value => value.Hosted iterations machine image

/-- The machines hold the same, and so is what they write and what they run
with; natives yield what is hosted. -/
structure Machine.Folded (natives : List HostNative) : Prop where
  store : machine.store.Folded image.store
  output : image.output = machine.output
  world : image.world = machine.world
  requiring : image.requiring = machine.requiring
  nextNode : image.nextNode = machine.nextNode
  filed : ∀ id : NodeId, image.distances[id]? = none ↔
    machine.distances[id]? = none
  holds : machine.store.Holds (Value.Hosted iterations machine image)
  natives :
    ∀ native ∈ natives, ∀ arguments world value after,
      native.body arguments world = (.ok value, after) →
        value.IsAtom ∨ value ∈ arguments ∨ value.Hosted iterations machine image

end Hosted

/-- Both machines have been extended, and hold the same again. -/
structure Machine.Passes
    (iterations : Iterations)
    (natives : List HostNative)
    (machine image after afterImage : Machine) : Prop where
  retains : machine.Retains after
  retainsImage : image.Retains afterImage
  folded : after.Folded iterations afterImage natives

variable {iterations : Iterations} {natives : List HostNative}
variable {machine image middle middleImage after afterImage : Machine}
  {value : Value}

section Later

variable (sizes : image.store.nextFrame = machine.store.nextFrame)
variable (nodes : image.nextNode = machine.nextNode)
variable (retains : machine.Retains after)
  (retainsImage : image.Retains afterImage)

include sizes retains retainsImage

/-- Frames that are aligned stay so. -/
theorem Store.Aligned.later
    {marks : Marks}
    {frame home : FrameId}
    (aligned : machine.store.Aligned image.store marks frame home) :
    after.store.Aligned afterImage.store marks frame home := by
  induction aligned with
  | global => exact .global
  | kept isParent isParentImage _ inductionHypothesis =>
      refine .kept ?_ ?_ inductionHypothesis
      · rw [retains.extend.parents _ (Store.lt_nextFrame_of_parent? isParent)]
        exact isParent
      · rw [retainsImage.extend.parents _
          (Store.lt_nextFrame_of_parent? isParentImage)]
        exact isParentImage
  | folded isParent isOrphan isLocal _ inductionHypothesis =>
      have present := Store.lt_nextFrame_of_parent? isParent
      refine .folded ?_ ?_ isLocal inductionHypothesis
      · rw [retains.extend.parents _ present]
        exact isParent
      · rw [retainsImage.extend.parents _ (sizes ▸ present)]
        exact isOrphan

include nodes

omit sizes in
/-- Nodes go on to lead to the same variables. -/
theorem Machine.Guides.later
    {use : Marks × Reference}
    (guides : machine.Guides image use) :
    after.Guides afterImage use := by
  obtain ⟨handed, leads⟩ := guides
  refine ⟨Nat.lt_of_lt_of_le handed retains.recalls.nodes, ?_⟩
  rw [retainsImage.recalls.distances _ (nodes ▸ handed),
    retains.recalls.distances _ handed]
  exact leads

theorem Function.Hosted.later
    {inner : Marks}
    {function : Function}
    (hosted : function.Hosted iterations machine image inner) :
    function.Hosted iterations after afterImage inner := by
  obtain ⟨marks, aligned, guides⟩ := hosted
  exact ⟨marks, aligned.later sizes retains retainsImage,
    fun use member => (guides use member).later nodes retains retainsImage⟩

theorem Class.Hosted.later
    {blueprint : Class}
    (hosted : blueprint.Hosted iterations machine image) :
    blueprint.Hosted iterations after afterImage :=
  fun name method found =>
    (hosted name method found).later sizes nodes retains retainsImage

/-- Values that are hosted stay so. -/
theorem Value.Hosted.later
    (hosted : value.Hosted iterations machine image) :
    value.Hosted iterations after afterImage := by
  cases value with
  | function function =>
      exact Function.Hosted.later sizes nodes retains retainsImage hosted
  | blueprint blueprint =>
      exact Class.Hosted.later sizes nodes retains retainsImage hosted
  | object object =>
      exact Class.Hosted.later sizes nodes retains retainsImage hosted
  | _ => trivial

end Later

/-- What a hosted value can be called as is hosted. -/
theorem Value.Hosted.callee
    {callee : Callee}
    (hosted : value.Hosted iterations machine image)
    (callable : value.callee? = some callee) :
    callee.Hosted iterations machine image := by
  cases value <;> cases callable <;> exact hosted

/-- A value that refers to nothing is hosted. -/
theorem Value.IsAtom.hosted
    (isAtom : value.IsAtom) :
    value.Hosted iterations machine image := by
  cases value with
  | function function => cases isAtom
  | blueprint blueprint => cases isAtom
  | object object => cases isAtom
  | _ => trivial

namespace Machine.Folded

variable (folded : machine.Folded iterations image natives)

include folded

/-- Nothing has changed. -/
theorem stay : Machine.Passes iterations natives machine image machine image :=
  ⟨Machine.respected_retains.refl _, Machine.respected_retains.refl _, folded⟩

/-- The machines are changed alike, and what they hold then is hosted. -/
theorem pass
    (retains : machine.Retains after)
    (retainsImage : image.Retains afterImage)
    (store : after.store.Folded afterImage.store)
    (output : afterImage.output = after.output)
    (world : afterImage.world = after.world)
    (requiring : afterImage.requiring = after.requiring)
    (nextNode : afterImage.nextNode = after.nextNode)
    (filed : ∀ id : NodeId, afterImage.distances[id]? = none ↔
      after.distances[id]? = none)
    (holds : after.store.Holds (Value.Hosted iterations machine image)) :
    Machine.Passes iterations natives machine image after afterImage := by
  have later {value : Value} (hosted : value.Hosted iterations machine image) :
      value.Hosted iterations after afterImage :=
    hosted.later folded.store.size folded.nextNode retains retainsImage
  refine ⟨retains, retainsImage, store, output, world, requiring, nextNode,
    filed, holds.weaken fun _ => later, ?_⟩
  intro native member arguments world value last yields
  exact (folded.natives native member arguments world value last
    yields).imp_right (.imp_right later)

/-- Only the stores are changed, by elementary changes. -/
theorem passStore
    {store storeImage : Store}
    (changes : machine.Change { machine with store := store })
    (changesImage : image.Change { image with store := storeImage })
    (stores : store.Folded storeImage)
    (holds : store.Holds (Value.Hosted iterations machine image)) :
    Machine.Passes iterations natives machine image
      { machine with store := store } { image with store := storeImage } :=
  folded.pass (Machine.respected_retains.change changes)
    (Machine.respected_retains.change changesImage) stores folded.output
    folded.world folded.requiring folded.nextNode folded.filed holds

end Machine.Folded

namespace Machine.Passes

/-- One step after the other. -/
theorem trans
    (passes :
      Machine.Passes iterations natives machine image middle middleImage)
    (passesNext :
      Machine.Passes iterations natives middle middleImage after afterImage) :
    Machine.Passes iterations natives machine image after afterImage :=
  ⟨Machine.respected_retains.trans passes.retains passesNext.retains,
    Machine.respected_retains.trans passes.retainsImage passesNext.retainsImage,
    passesNext.folded⟩

variable (passes : Machine.Passes iterations natives machine image
  after afterImage)
variable (folded : machine.Folded iterations image natives)

include passes folded

/-- Frames that are aligned stay so. -/
theorem aligned
    {marks : Marks}
    {frame home : FrameId}
    (aligned : machine.store.Aligned image.store marks frame home) :
    after.store.Aligned afterImage.store marks frame home :=
  aligned.later folded.store.size passes.retains passes.retainsImage

/-- Nodes go on to lead to the same variables. -/
theorem guides
    {use : Marks × Reference}
    (guides : machine.Guides image use) :
    after.Guides afterImage use :=
  guides.later folded.nextNode passes.retains passes.retainsImage

/-- Functions that are hosted stay so. -/
theorem function
    {inner : Marks}
    {function : Function}
    (hosted : function.Hosted iterations machine image inner) :
    function.Hosted iterations after afterImage inner :=
  hosted.later folded.store.size folded.nextNode passes.retains
    passes.retainsImage

/-- Classes that are hosted stay so. -/
theorem blueprint
    {blueprint : Class}
    (hosted : blueprint.Hosted iterations machine image) :
    blueprint.Hosted iterations after afterImage :=
  hosted.later folded.store.size folded.nextNode passes.retains
    passes.retainsImage

/-- Values that are hosted stay so. -/
theorem hosted
    (hosted : value.Hosted iterations machine image) :
    value.Hosted iterations after afterImage :=
  hosted.later folded.store.size folded.nextNode passes.retains
    passes.retainsImage

end Machine.Passes

end LoxScript
