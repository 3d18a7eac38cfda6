import LoxScript.Proofs.Direct.State
import LoxScript.Proofs.Machine.Nodes
import LoxScript.Proofs.Mirror

namespace LoxScript

/-!
# Steps with frames for iterations and without

Started in two machines that hold the same, every small step that the evaluator
is made of yields one value on both sides or fails with one error, and the
machines hold the same again.  Variables are found in one frame from both active
frames, since no variable is in the frame of an iteration.
-/

open Run

/-- Started in the two machines, the two steps yield one value, which is as
wanted, or fail with one error, and leave machines that hold the same. -/
def Coincide
    (iterations : Iterations)
    (natives : List HostNative)
    (step other : Run α)
    (machine image : Machine)
    (good : Machine → Machine → α → Prop) : Prop :=
  Mirrors step other machine image
    (fun value after valueImage afterImage =>
      valueImage = value ∧
        Machine.Passes iterations natives machine image after afterImage ∧
        good after afterImage value)
    (fun halt after haltImage afterImage =>
      haltImage = halt ∧
        Machine.Passes iterations natives machine image after afterImage)

variable {iterations : Iterations} {natives : List HostNative}
variable {machine image after afterImage : Machine}

namespace Coincide

variable {step other : Run α} {good better : Machine → Machine → α → Prop}

/-- Two steps that yield one value. -/
theorem ofOk
    {value : α}
    (yields : step machine = .ok value after)
    (yieldsImage : other image = .ok value afterImage)
    (passes : Machine.Passes iterations natives machine image after afterImage)
    (isGood : good after afterImage value) :
    Coincide iterations natives step other machine image good :=
  Mirrors.ofOk yields yieldsImage ⟨rfl, passes, isGood⟩

/-- Two steps that only yield one value. -/
theorem ofPure
    {value : α}
    (folded : machine.Folded iterations image natives)
    (isGood : good machine image value) :
    Coincide iterations natives (pure value) (pure value) machine image good :=
  ofOk rfl rfl folded.stay isGood

/-- Two steps that only fail alike. -/
theorem ofThrow
    (folded : machine.Folded iterations image natives)
    (halt : Halt) :
    Coincide iterations natives (throw halt) (throw halt) machine image good :=
  Mirrors.ofThrow ⟨rfl, folded.stay⟩

/-- What is done before two steps counts as part of them. -/
theorem following
    {start startImage : Machine}
    (coincide : Coincide iterations natives step other machine image good)
    (passes :
      Machine.Passes iterations natives start startImage machine image) :
    Mirrors step other machine image
      (fun value after valueImage afterImage =>
        valueImage = value ∧
          Machine.Passes iterations natives start startImage after afterImage ∧
          good after afterImage value)
      (fun halt after haltImage afterImage =>
        haltImage = halt ∧
          Machine.Passes iterations natives start startImage after
            afterImage) := by
  refine Mirrors.weaken coincide ?_ ?_
  · rintro value last _ lastImage - - ⟨same, further, isGood⟩
    exact ⟨same, passes.trans further, isGood⟩
  · rintro halt last _ lastImage ⟨same, further⟩
    exact ⟨same, passes.trans further⟩

/-- Sequences of steps. -/
theorem andThen
    {next nextOther : α → Run β}
    {final : Machine → Machine → β → Prop}
    (coincide : Coincide iterations natives step other machine image good)
    (coincideNext :
      ∀ value after afterImage, step machine = .ok value after →
        Machine.Passes iterations natives machine image after afterImage →
        good after afterImage value →
        Coincide iterations natives (next value) (nextOther value) after
          afterImage final) :
    Coincide iterations natives (step >>= next) (other >>= nextOther) machine
      image final := by
  refine Mirrors.andThen coincide ?_
  rintro value after _ afterImage yields - ⟨rfl, passes, isGood⟩
  exact (coincideNext _ after afterImage yields passes isGood).following passes

/-- Two steps that look at their machines first. -/
theorem look
    {next nextOther : Machine → Run α}
    (coincide : Coincide iterations natives (next machine) (nextOther image)
      machine image good) :
    Coincide iterations natives (get >>= next) (get >>= nextOther) machine
      image good :=
  Mirrors.look coincide

/-- Two steps around other ones: the machines are changed first, and changed
back however the inner steps end. -/
theorem around
    {outer outerOther : Run α}
    {entered enteredImage : Machine}
    {leave leaveImage : Machine → Machine}
    (runs :
      outer machine = match step entered with
        | .ok value after => .ok value (leave after)
        | .error halt after => .error halt (leave after))
    (runsImage :
      outerOther image = match other enteredImage with
        | .ok value after => .ok value (leaveImage after)
        | .error halt after => .error halt (leaveImage after))
    (coincide :
      Coincide iterations natives step other entered enteredImage better)
    (leaves :
      ∀ after afterImage,
        Machine.Passes iterations natives entered enteredImage
          after afterImage →
        Machine.Passes iterations natives machine image (leave after)
          (leaveImage afterImage))
    (unmoved :
      ∀ after afterImage value, better after afterImage value →
        good (leave after) (leaveImage afterImage) value) :
    Coincide iterations natives outer outerOther machine image good := by
  cases outcome : step entered with
  | ok value after =>
      obtain ⟨_, afterImage, outcomeImage, rfl, passes, isGood⟩ :=
        Mirrors.ok coincide outcome
      rw [outcome] at runs
      rw [outcomeImage] at runsImage
      exact ofOk runs runsImage (leaves after afterImage passes)
        (unmoved after afterImage _ isGood)
  | error halt after =>
      obtain ⟨_, afterImage, outcomeImage, rfl, passes⟩ :=
        Mirrors.error coincide outcome
      rw [outcome] at runs
      rw [outcomeImage] at runsImage
      exact Mirrors.ofError runs runsImage ⟨rfl, leaves after afterImage passes⟩

end Coincide

/-- The active frames do not count for what machines hold. -/
theorem Machine.Folded.inFrames
    (folded : machine.Folded iterations image natives)
    (frame home : FrameId) :
    Machine.Folded iterations { machine with active := frame }
      { image with active := home }
      natives :=
  { folded with }

/-- The required sources do not count either. -/
theorem Machine.Folded.amid
    (folded : machine.Folded iterations image natives)
    (requiring : List String) :
    Machine.Folded iterations { machine with requiring := requiring }
      { image with requiring := requiring } natives :=
  { folded with requiring := rfl }

/-- Nor do they count for what statements return. -/
theorem Flow.Hosted.inFrames
    {flow : Flow}
    (hosted : flow.Hosted iterations machine image)
    (frame home : FrameId) :
    flow.Hosted iterations { machine with active := frame }
      { image with active := home } := by
  cases flow with
  | normal => trivial
  | returned value => cases value <;> exact hosted

/-- Two statements in frames of their own, from which the machines come back. -/
theorem coincide_inFrame
    {step other : Run Flow}
    {frame home : FrameId}
    (coincide :
      Coincide iterations natives step other { machine with active := frame }
        { image with active := home } (Flow.Hosted iterations)) :
    Coincide iterations natives (inFrame frame step) (inFrame home other)
      machine image (Flow.Hosted iterations) := by
  refine Coincide.around rfl rfl coincide ?_ fun _ _ _ isFlow =>
    isFlow.inFrames _ _
  intro after afterImage passes
  exact ⟨Machine.respected_retains.inFrame frame passes.retains,
    Machine.respected_retains.inFrame home passes.retainsImage,
      passes.folded.inFrames _ _⟩

/-- Two steps of one required source, which is then taken off the stack. -/
theorem coincide_whileRequiring
    {step other : Run α}
    {path : String}
    {good : Machine → Machine → α → Prop}
    (coincide :
      Coincide iterations natives step other
        { machine with requiring := path :: machine.requiring }
        { image with requiring := path :: image.requiring } good) :
    Coincide iterations natives (whileRequiring path step)
      (whileRequiring path other) machine image
      fun _ _ _ => True := by
  refine Coincide.around rfl rfl coincide ?_ fun _ _ _ _ => trivial
  intro after afterImage passes
  refine ⟨Machine.respected_retains.whileRequiring path passes.retains,
    Machine.respected_retains.whileRequiring path passes.retainsImage, ?_⟩
  rw [passes.folded.requiring]
  exact passes.folded.amid after.requiring.tail

section Variables

/-- The node leads from both active frames to one frame.  If the distances
differ, this frame holds the name. -/
def Machine.Finds (machine image : Machine) (id : NodeId) (name : String) :
    Prop :=
  ∀ distance, machine.distances[id]? = some distance →
    ∃ found distanceImage,
      machine.store.ancestor? machine.active distance = some found ∧
        image.distances[id]? = some distanceImage ∧
        image.store.ancestor? image.active distanceImage = some found ∧
        (distanceImage = distance ∨ machine.store.holds found name = true)

variable {id : NodeId} {name : Token} {value : Value}

/-- Reading a variable. -/
theorem coincide_readVariable
    (folded : machine.Folded iterations image natives)
    (finds : machine.Finds image id name.lexeme) :
    Coincide iterations natives (readVariable id name) (readVariable id name)
      machine image (Value.Hosted iterations) := by
  refine .look ?_
  cases filed : machine.distances[id]? with
  | none =>
      simp only [(folded.filed id).mpr filed, folded.store.bindings]
      cases isGlobal : machine.store.lookup? globalFrame name.lexeme with
      | none => exact .ofThrow folded _
      | some value =>
          exact .ofPure folded (folded.holds.values _ _ value isGlobal)
  | some distance =>
      obtain ⟨found, distanceImage, isFound, filedImage, isFoundImage, held⟩ :=
        finds distance filed
      simp only [filedImage, Store.lookupAt?_eq isFound,
        Store.lookupAt?_eq isFoundImage, folded.store.bindings]
      cases isValue : machine.store.lookup? found name.lexeme with
      | some value =>
          exact .ofPure folded (folded.holds.values _ _ value isValue)
      | none =>
          rcases held with rfl | held
          · exact .ofThrow folded _
          · rw [Store.holds, isValue] at held
            cases held

/-- Finding the frame of a variable that is assigned to. -/
theorem coincide_frameOf
    (folded : machine.Folded iterations image natives)
    (finds : machine.Finds image id name.lexeme) :
    Coincide iterations natives (frameOf id name)
      (frameOf id name) machine image
      fun after _ frame => after.store.holds frame name.lexeme = true := by
  refine .look ?_
  cases filed : machine.distances[id]? with
  | none =>
      simp only [(folded.filed id).mpr filed, folded.store.holds]
      split
      · rename_i isGlobal
        exact .ofPure folded isGlobal
      · exact .ofThrow folded _
  | some distance =>
      obtain ⟨found, distanceImage, isFound, filedImage, isFoundImage, held⟩ :=
        finds distance filed
      simp only [filedImage, Store.holderAt?_eq isFound,
        Store.holderAt?_eq isFoundImage, folded.store.holds]
      cases isHeld : machine.store.holds found name.lexeme with
      | true => exact .ofPure folded isHeld
      | false =>
          rcases held with rfl | held
          · exact .ofThrow folded _
          · rw [isHeld] at held
            cases held

/-- A frame that holds a name is the global one or has a parent. -/
theorem Store.Folded.rooted
    {store image : Store}
    {frame : FrameId}
    {name : String}
    (folded : store.Folded image)
    (held : store.holds frame name = true) :
    frame = globalFrame ∨ ∃ parent, image.parent? frame = some parent := by
  by_cases isGlobal : frame = globalFrame
  · exact .inl isGlobal
  · cases isParent : image.parent? frame with
    | some parent => exact .inr ⟨parent, rfl⟩
    | none =>
        have nothing := folded.orphans frame isGlobal isParent name
        rw [folded.bindings] at nothing
        rw [Store.holds, nothing] at held
        cases held

/-- Assigning to a variable. -/
theorem coincide_assignVariable
    (folded : machine.Folded iterations image natives)
    (finds : machine.Finds image id name.lexeme)
    (hosted : value.Hosted iterations machine image) :
    Coincide iterations natives (assignVariable id name value)
      (assignVariable id name value) machine image fun _ _ _ => True := by
  refine (coincide_frameOf folded finds).andThen ?_
  intro frame after afterImage _ passes held
  have heldImage : afterImage.store.holds frame name.lexeme = true :=
    (passes.folded.store.holds frame _).trans held
  refine .ofOk rfl rfl
    (passes.folded.passStore (.assign after frame name.lexeme value held)
      (.assign afterImage frame name.lexeme value heldImage) ?_ ?_) trivial
  · exact passes.folded.store.define (passes.folded.store.rooted held)
      name.lexeme value
  · exact passes.folded.holds.define (passes.hosted folded hosted)
      frame name.lexeme

/-- The active frames are those of code outside of iterations, or inside of
some. -/
def Machine.Stationed (machine image : Machine) (marks : Marks) : Prop :=
  machine.store.Aligned image.store marks machine.active image.active

/-- The machines are where they were. -/
theorem Machine.Passes.stationed
    {marks : Marks}
    (passes : Machine.Passes iterations natives machine image after afterImage)
    (folded : machine.Folded iterations image natives)
    (stationed : machine.Stationed image marks) :
    after.Stationed afterImage marks := by
  unfold Machine.Stationed
  rw [passes.retains.extend.active, passes.retainsImage.extend.active]
  exact passes.aligned folded stationed

/-- Defining a name outside of iterations. -/
theorem coincide_define
    {marks : Marks}
    (folded : machine.Folded iterations image natives)
    (stationed : machine.Stationed image marks)
    (kept : marks.here = false)
    (hosted : value.Hosted iterations machine image)
    (name : String) :
    Coincide iterations natives (define name value)
      (define name value) machine image
      fun _ _ _ => True := by
  have same : image.active = machine.active := stationed.same kept
  have rooted := stationed.rooted
  refine .ofOk rfl rfl
    (folded.passStore (.define machine name value) (.define image name value)
      ?_ (folded.holds.define hosted _ _)) trivial
  rw [same] at rooted ⊢
  exact folded.store.define rooted name value

end Variables

section Store

variable {value : Value} {object : Instance}

/-- Giving a field a value. -/
theorem coincide_setField
    (folded : machine.Folded iterations image natives)
    (hosted : value.Hosted iterations machine image)
    (object : Instance)
    (name : String) :
    Coincide iterations natives (setField object name value)
      (setField object name value) machine image fun _ _ _ => True :=
  .ofOk rfl rfl
    (folded.passStore (.setField machine object.identity name value)
      (.setField image object.identity name value)
      (folded.store.setField object.identity name value)
      (folded.holds.setField hosted object.identity name)) trivial

/-- Writing a text. -/
theorem coincide_write
    (folded : machine.Folded iterations image natives)
    (text : String) :
    Coincide iterations natives (write text) (write text) machine image
      fun _ _ _ => True := by
  have appends : Coincide iterations natives
      (modify fun machine =>
        { machine with output := machine.output.append text.toUTF8 })
      (modify fun machine =>
        { machine with output := machine.output.append text.toUTF8 })
      machine image fun _ _ (_ : PUnit) => True :=
    .ofOk rfl rfl
      (folded.pass
        (Machine.respected_retains.change (.append machine text.toUTF8))
        (Machine.respected_retains.change (.append image text.toUTF8))
          folded.store
        (congrArg (·.append text.toUTF8) folded.output) folded.world
          folded.requiring
        folded.nextNode folded.filed folded.holds) trivial
  refine .look ?_
  rw [folded.output]
  refine appends.andThen ?_
  intro _ after afterImage _ passes _
  cases machine.output.writeFault? text.toUTF8.size with
  | none => exact .ofPure passes.folded trivial
  | some fault => exact .ofThrow passes.folded _

/-- New frames with the same names, above frames of which one may be that of an
iteration. -/
theorem coincide_allocate
    {bindings : NameMap Value}
    {marks : Marks}
    {parent home : FrameId}
    (folded : machine.Folded iterations image natives)
    (contents :
      ∀ name value, bindings.find? name = some value →
        value.Hosted iterations machine image)
    (aligned : machine.store.Aligned image.store marks parent home) :
    Coincide iterations natives (allocate ⟨bindings, some parent⟩)
      (allocate ⟨bindings, some home⟩) machine image
      fun after afterImage frame =>
        after.store.Aligned afterImage.store (false :: marks) frame frame := by
  have passes := folded.passStore (.allocate machine ⟨bindings, some parent⟩)
    (.allocate image ⟨bindings, some home⟩)
    (folded.store.allocate (some parent) nofun)
    (folded.holds.allocate contents)
  have yieldsImage : allocate ⟨bindings, some home⟩ image =
      .ok machine.store.nextFrame
      { image with store := image.store.allocate ⟨bindings, some home⟩ } := by
    rw [← folded.store.size]
    rfl
  refine .ofOk rfl yieldsImage passes
    (.kept (Store.parent?_allocate_nextFrame _ _) ?_
      (passes.aligned folded aligned))
  rw [← folded.store.size]
  exact Store.parent?_allocate_nextFrame _ _

/-- A new instance. -/
theorem coincide_allocateInstance
    (folded : machine.Folded iterations image natives)
    (blueprint : Class) :
    Coincide iterations natives (allocateInstance blueprint)
      (allocateInstance blueprint) machine
      image fun _ _ object => object.blueprint = blueprint := by
  have yieldsImage : allocateInstance blueprint image =
      .ok ⟨machine.store.nextInstance, blueprint⟩
        { image with store := image.store.allocateInstance } := by
    have same : image.store.nextInstance = machine.store.nextInstance :=
      congrArg Array.size folded.store.fields
    rw [← same]
    rfl
  exact .ofOk rfl yieldsImage
    (folded.passStore (.allocateInstance machine) (.allocateInstance image)
      folded.store.allocateInstance folded.holds.allocateInstance) rfl

/-- Handing out an identity. -/
theorem coincide_freshIdentity
    (folded : machine.Folded iterations image natives) :
    Coincide iterations natives freshIdentity freshIdentity machine image
      fun _ _ _ => True := by
  have yieldsImage : freshIdentity image = .ok machine.store.nextIdentity
      { image with store := image.store.skipIdentity } := by
    rw [← folded.store.identities]
    rfl
  exact .ofOk rfl yieldsImage
    (folded.passStore (.skipIdentity machine) (.skipIdentity image)
      folded.store.skipIdentity
      ⟨folded.holds.values, folded.holds.fields⟩) trivial

/-- Making a function. -/
theorem coincide_closeOver
    {declaration : FunctionDecl}
    {marks : Marks}
    {closure : FrameId}
    (folded : machine.Folded iterations image natives)
    (aligned : machine.store.Aligned image.store marks closure closure)
    (inner : Marks)
    (guides :
      ∀ use ∈ declaration.uses iterations (inner ++ marks),
        machine.Guides image use)
    (isInitializer : Bool) :
    Coincide iterations natives (closeOver declaration closure isInitializer)
      (closeOver declaration closure isInitializer) machine image
      fun after afterImage function =>
        function.Hosted iterations after afterImage inner := by
  refine (coincide_freshIdentity folded).andThen ?_
  intro identity after afterImage _ passes _
  exact .ofPure passes.folded
    ⟨marks, passes.aligned folded aligned,
      fun use member => passes.guides folded (guides use member)⟩

/-- A frame with one value that is hosted. -/
theorem hosted_single
    {name : String}
    (hosted : value.Hosted iterations machine image) :
    ∀ wanted found,
      (NameMap.empty.insert name value).find? wanted = some found →
      found.Hosted iterations machine image := by
  intro wanted found isFound
  rw [NameMap.find?_insert] at isFound
  split at isFound
  · cases isFound
    exact hosted
  · cases isFound

/-- Binding a method. -/
theorem coincide_bind
    {method : Function}
    (folded : machine.Folded iterations image natives)
    (isMethod : method.Hosted iterations machine image [false])
    (isObject : object.blueprint.Hosted iterations machine image) :
    Coincide iterations natives (Run.bind method object)
      (Run.bind method object) machine image
      fun after afterImage function =>
        function.Hosted iterations after afterImage [] := by
  obtain ⟨marks, aligned, guides⟩ := isMethod
  have isThis : (Value.object object).Hosted iterations machine image :=
    isObject
  refine (coincide_allocate folded (hosted_single isThis) aligned).andThen ?_
  intro frame after afterImage _ passes alignedFrame
  exact coincide_closeOver passes.folded alignedFrame []
    (fun use member => passes.guides folded (guides use member))
    method.isInitializer

/-- A method that is bound, as a value. -/
theorem coincide_bound
    {method : Function}
    (folded : machine.Folded iterations image natives)
    (isMethod : method.Hosted iterations machine image [false])
    (isObject : object.blueprint.Hosted iterations machine image) :
    Coincide iterations natives
      (do return Value.function (← Run.bind method object))
      (do return Value.function (← Run.bind method object)) machine image
      (Value.Hosted iterations) := by
  refine (coincide_bind folded isMethod isObject).andThen ?_
  intro bound after afterImage _ passes isBound
  exact .ofPure passes.folded isBound

/-- Reading a property. -/
theorem coincide_getProperty
    (folded : machine.Folded iterations image natives)
    (isObject : object.blueprint.Hosted iterations machine image)
    (name : Token) :
    Coincide iterations natives (getProperty object name)
      (getProperty object name) machine image (Value.Hosted iterations) := by
  refine .look ?_
  rw [folded.store.field?]
  cases isField : machine.store.field? object.identity name.lexeme with
  | some value => exact .ofPure folded (folded.holds.fields _ _ value isField)
  | none =>
      cases isMethod : object.blueprint.findMethod? name.lexeme with
      | some method =>
          exact coincide_bound folded (isObject _ method isMethod) isObject
      | none => exact .ofThrow folded _

end Store

section Super

variable {id : NodeId} {keyword method : Token} {marks : Marks}

/-- A frame that has a parent stands inside of all scopes. -/
theorem Store.Aligned.lt_length
    {store image : Store}
    {frame home outer : FrameId}
    {distance : Nat}
    (aligned : store.Aligned image marks frame home)
    (top : store.parent? globalFrame = none)
    (isOuter : store.ancestor? frame (distance + 1) = some outer) :
    distance < marks.length := by
  induction aligned generalizing distance with
  | global => simp [Store.ancestor?, top] at isOuter
  | kept isParent _ _ inductionHypothesis
  | folded isParent _ _ _ inductionHypothesis =>
      cases distance with
      | zero => exact Nat.zero_lt_succ _
      | succ further =>
          rw [Store.ancestor?, isParent] at isOuter
          exact Nat.succ_lt_succ (inductionHypothesis isOuter)

/-- Beyond a scope that is not marked it is one scope further. -/
theorem Marks.beyond_succ
    {distance : Nat}
    (within : distance < marks.length)
    (unmarked : marks.marked distance = false) :
    marks.beyond (distance + 1) = marks.beyond distance + 1 := by
  have here : marks[distance] = false := by
    simpa [marked, List.getD_eq_getElem?_getD, within] using unmarked
  rw [beyond, List.take_succ_eq_append_getElem within, List.count_append, here]
  rfl

/-- What `super` means. -/
theorem coincide_superParts
    {inner : Nat}
    {outerFrame innerFrame : FrameId}
    {superclass : Class}
    (folded : machine.Folded iterations image natives)
    (stationed : machine.Stationed image marks)
    (top : machine.store.parent? globalFrame = none)
    (filed : machine.distances[id]? = some (inner + 1))
    (filedImage : image.distances[id]? = some (marks.beyond (inner + 1)))
    (isOuter : machine.store.ancestor? machine.active (inner + 1) =
      some outerFrame)
    (isClass :
      machine.store.lookup? outerFrame "super" = some (.blueprint superclass))
    (isInner : machine.store.ancestor? machine.active inner = some innerFrame)
    {object : Instance}
    (isObject :
      machine.store.lookup? innerFrame "this" = some (.object object)) :
    Coincide iterations natives (superParts id keyword) (superParts id keyword)
      machine image
      fun after afterImage parts =>
        parts.1.Hosted iterations after afterImage ∧
          parts.2.blueprint.Hosted iterations after afterImage := by
  have heldInner : machine.store.holds innerFrame "this" = true :=
    Store.holds_iff.mpr ⟨_, isObject⟩
  have heldOuter : machine.store.holds outerFrame "super" = true :=
    Store.holds_iff.mpr ⟨_, isClass⟩
  have unmarkedInner := stationed.unmarked folded.store isInner heldInner
  have unmarkedOuter := stationed.unmarked folded.store isOuter heldOuter
  have further :=
    Marks.beyond_succ (stationed.lt_length top isOuter) unmarkedInner
  have isInnerImage := stationed.ancestor top isInner unmarkedInner
  have isOuterImage := stationed.ancestor top isOuter unmarkedOuter
  rw [further] at filedImage isOuterImage
  have yields : superParts id keyword machine =
      .ok (superclass, object) machine := by
    unfold superParts
    rw [bind_get]
    simp only [filed, Store.lookupAt?_eq isOuter, Store.lookupAt?_eq isInner,
      isClass, isObject]
    rfl
  have yieldsImage : superParts id keyword image =
      .ok (superclass, object) image := by
    unfold superParts
    rw [bind_get]
    simp only [filedImage, Store.lookupAt?_eq isOuterImage,
      Store.lookupAt?_eq isInnerImage, folded.store.bindings, isClass, isObject]
    rfl
  exact .ofOk yields yieldsImage folded.stay
    ⟨folded.holds.values _ _ _ isClass, folded.holds.values _ _ _ isObject⟩

end Super

end LoxScript
