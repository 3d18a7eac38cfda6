import LoxScript.Proofs.Blindness
import LoxScript.Proofs.Counterpart.Agreement

namespace LoxScript

/-!
# The steps of the evaluator on counterparts

Every small step that the evaluator is made of keeps in step with its
counterpart.  Nodes with the same distance lead to the same frame, and tokens
are spelled alike on whatever line they stand.
-/

open Run

variable {lines : Int} {kept : Function → Prop} {machine image : Machine}

/-- What one step reports at a token, the other reports at the token that
corresponds. -/
theorem InStep.ofToken
    {alike : Correspondence → α → β → Prop}
    {token other : Token}
    (counterpart : machine.Counterpart lines kept image)
    (shifted : Token.Shifted lines token other)
    (error : Token → RuntimeError)
    (moves : error (token.moved lines) = (error token).moved lines) :
    InStep lines kept (Run.fail (error token)) (Run.fail (error other)) machine
      image alike := by
  cases shifted with
  | same => exact .ofFail counterpart _
  | moved => exact .ofErrors counterpart (moves ▸ .moved)

section Variables

variable {id other : NodeId} {name nameImage : Token} {value valueImage : Value}

/-- Reading a variable. -/
theorem inStep_readVariable
    (counterpart : machine.Counterpart lines kept image)
    (links : machine.Links image id other)
    (names : Token.Shifted lines name nameImage) :
    InStep lines kept (readVariable id name) (readVariable other nameImage)
      machine image Correspondence.Values := by
  refine .look ?_
  rw [links.2.2, names.lexeme, counterpart.active]
  cases machine.distances[id]? with
  | some distance =>
      have related :=
        counterpart.store.lookupAt? machine.active distance name.lexeme
      dsimp only
      generalize machine.store.lookupAt? machine.active distance name.lexeme =
        value at related ⊢
      generalize image.store.lookupAt? machine.active distance name.lexeme =
        valueImage
        at related ⊢
      cases related with
      | some alike => exact .ofPure counterpart alike
      | none =>
          exact .ofToken counterpart names
            (fun token => .unresolvedLocal name.lexeme distance token.line) rfl
  | none =>
      have related := counterpart.store.bindings globalFrame name.lexeme
      dsimp only
      generalize machine.store.lookup? globalFrame name.lexeme =
        value at related ⊢
      generalize image.store.lookup? globalFrame name.lexeme =
        valueImage at related ⊢
      cases related with
      | some alike => exact .ofPure counterpart alike
      | none =>
          exact .ofToken counterpart names
            (fun token => .undefinedVariable name.lexeme token.line) rfl

/-- Finding the frame of a variable that is assigned to. -/
theorem inStep_frameOf
    (counterpart : machine.Counterpart lines kept image)
    (links : machine.Links image id other)
    (names : Token.Shifted lines name nameImage) :
    InStep lines kept (frameOf id name) (frameOf other nameImage) machine image
      Correspondence.Same := by
  refine .look ?_
  rw [links.2.2, names.lexeme, counterpart.active]
  cases machine.distances[id]? with
  | some distance =>
      dsimp only
      rw [counterpart.store.holderAt?_eq]
      cases machine.store.holderAt? machine.active distance name.lexeme with
      | some frame => exact .ofPure counterpart rfl
      | none =>
          exact .ofToken counterpart names
            (fun token => .unresolvedLocal name.lexeme distance token.line) rfl
  | none =>
      dsimp only
      rw [counterpart.store.holds_eq]
      split
      · exact .ofPure counterpart rfl
      · exact .ofToken counterpart names
          (fun token => .undefinedVariable name.lexeme token.line) rfl

/-- Giving a name of one frame values that are twins. -/
theorem inStep_defineIn
    (counterpart : machine.Counterpart lines kept image)
    (alike : (machine.linked lines image).Values value valueImage)
    (frame : FrameId)
    (name : String) :
    InStep lines kept
      (modify fun machine =>
        { machine with store := machine.store.define frame name value })
      (modify fun machine =>
        { machine with store := machine.store.define frame name valueImage })
      machine image (Correspondence.Anything : Correspondence → PUnit →
        PUnit → Prop) :=
  .ofOk rfl rfl
    (.ofStores counterpart (counterpart.store.define alike frame name)) trivial

/-- Assigning to a variable. -/
theorem inStep_assignVariable
    (counterpart : machine.Counterpart lines kept image)
    (links : machine.Links image id other)
    (names : Token.Shifted lines name nameImage)
    (alike : (machine.linked lines image).Values value valueImage) :
    InStep lines kept (assignVariable id name value)
      (assignVariable other nameImage valueImage)
      machine image Correspondence.Anything := by
  refine (inStep_frameOf counterpart links names).andThen ?_
  rintro after afterImage _ frame follow rfl
  rw [names.lexeme]
  exact inStep_defineIn follow.counterpart (follow.value alike)
    frame name.lexeme

/-- Defining a name in the active frame. -/
theorem inStep_define
    (counterpart : machine.Counterpart lines kept image)
    (alike : (machine.linked lines image).Values value valueImage)
    (name : String) :
    InStep lines kept (define name value) (define name valueImage) machine image
      Correspondence.Anything := by
  have stores := counterpart.store.define alike machine.active name
  refine .ofOk rfl rfl (.ofStores counterpart ?_) trivial
  rw [counterpart.active]
  exact stores

end Variables

section Store

variable {value valueImage : Value} {object objectImage : Instance}
  {name nameImage : Token}

/-- Giving a field values that are twins. -/
theorem inStep_setField
    (counterpart : machine.Counterpart lines kept image)
    (identity : objectImage.identity = object.identity)
    (alike : (machine.linked lines image).Values value valueImage)
    (name : String) :
    InStep lines kept (setField object name value)
      (setField objectImage name valueImage) machine
      image Correspondence.Anything := by
  have stores := counterpart.store.setField alike object.identity name
  refine .ofOk rfl rfl (.ofStores counterpart ?_) trivial
  rw [identity]
  exact stores

/-- Writing one text. -/
theorem inStep_write
    (counterpart : machine.Counterpart lines kept image)
    (text : String) :
    InStep lines kept (write text) (write text) machine image
      Correspondence.Anything := by
  have appends : InStep lines kept
      (modify fun machine =>
        { machine with output := machine.output.append text.toUTF8 })
      (modify fun machine =>
        { machine with output := machine.output.append text.toUTF8 })
      machine image (Correspondence.Anything : Correspondence → PUnit →
        PUnit → Prop) :=
    .ofOk rfl rfl
      ⟨.ofSame rfl rfl, .ofSame rfl rfl,
        { counterpart with
          output := congrArg (·.append text.toUTF8) counterpart.output }⟩
      trivial
  refine .look ?_
  rw [counterpart.output]
  refine appends.andThen ?_
  intro after afterImage _ _ follow _
  cases machine.output.writeFault? text.toUTF8.size with
  | none => exact .ofPure follow.counterpart trivial
  | some fault => exact .ofFail follow.counterpart _

/-- New frames that hold twins. -/
theorem inStep_allocate
    {bindings bindingsImage : NameMap Value}
    (counterpart : machine.Counterpart lines kept image)
    (alike :
      ∀ name, Option.Rel (machine.linked lines image).Values
        (bindings.find? name) (bindingsImage.find? name))
    (parent : Option FrameId) :
    InStep lines kept (allocate ⟨bindings, parent⟩)
      (allocate ⟨bindingsImage, parent⟩) machine image Correspondence.Same :=
  .ofOk rfl rfl
    (.ofStores counterpart (counterpart.store.allocate alike parent))
    counterpart.store.size

/-- New instances of classes that are twins. -/
theorem inStep_allocateInstance
    {blueprint blueprintImage : Class}
    (counterpart : machine.Counterpart lines kept image)
    (alike : (machine.linked lines image).Classes blueprint blueprintImage) :
    InStep lines kept (allocateInstance blueprint)
      (allocateInstance blueprintImage) machine image
      Correspondence.Objects := by
  refine .ofOk rfl rfl
    (.ofStores counterpart counterpart.store.allocateInstance) ?_
  rw [counterpart.store.instances]
  exact .object alike

/-- Handing out an identity. -/
theorem inStep_freshIdentity
    (counterpart : machine.Counterpart lines kept image) :
    InStep lines kept freshIdentity freshIdentity machine image
      Correspondence.Same :=
  .ofOk rfl rfl (.ofStores counterpart counterpart.store.skipIdentity)
    counterpart.store.identities

/-- Functions of one frame whose codes are alike. -/
theorem inStep_closeOver
    {declaration declarationImage : FunctionDecl}
    (counterpart : machine.Counterpart lines kept image)
    (alike : FunctionDecl.Alike (machine.linked lines image) declaration
      declarationImage)
    (closure : FrameId)
    (isInitializer : Bool) :
    InStep lines kept (closeOver declaration closure isInitializer)
      (closeOver declarationImage closure isInitializer) machine image
      Correspondence.Functions :=
  .ofOk rfl rfl (.ofStores counterpart counterpart.store.skipIdentity)
    ⟨counterpart.store.identities, rfl, rfl, alike⟩

/-- A frame with one name. -/
theorem twins_single
    {like : Likeness}
    {name : String}
    (alike : Value.Twin like value valueImage)
    (wanted : String) :
    Option.Rel (Value.Twin like)
      ((NameMap.empty.insert name value).find? wanted)
      ((NameMap.empty.insert name valueImage).find? wanted) := by
  rw [NameMap.find?_insert, NameMap.find?_insert]
  split
  · exact .some alike
  · exact .none

/-- Binding methods that are counterparts to instances that are twins. -/
theorem inStep_bind
    {method methodImage : Function}
    (counterpart : machine.Counterpart lines kept image)
    (methods : (machine.linked lines image).Functions method methodImage)
    (objects : (machine.linked lines image).Objects object objectImage) :
    InStep lines kept (Run.bind method object)
      (Run.bind methodImage objectImage) machine image
      Correspondence.Functions := by
  unfold Run.bind
  rw [methods.closure, methods.isInitializer]
  refine (inStep_allocate counterpart (twins_single objects) _).andThen ?_
  rintro after afterImage _ frame follow rfl
  have alike := method.declaration.alike_widen methods.declaration
    (follow.within.widensOn _)
  exact inStep_closeOver follow.counterpart alike frame method.isInitializer

/-- A function that was bound, as a value. -/
theorem inStep_bound
    {method methodImage : Function}
    (counterpart : machine.Counterpart lines kept image)
    (methods : (machine.linked lines image).Functions method methodImage)
    (objects : (machine.linked lines image).Objects object objectImage) :
    InStep lines kept
      (do return Value.function (← Run.bind method object))
      (do return Value.function (← Run.bind methodImage objectImage))
      machine image Correspondence.Values := by
  refine (inStep_bind counterpart methods objects).andThen ?_
  intro after afterImage bound boundImage follow alike
  exact .ofPure follow.counterpart (.function alike)

/-- Reading a property of instances that are twins. -/
theorem inStep_getProperty
    (counterpart : machine.Counterpart lines kept image)
    (objects : (machine.linked lines image).Objects object objectImage)
    (names : Token.Shifted lines name nameImage) :
    InStep lines kept (getProperty object name)
      (getProperty objectImage nameImage) machine image
      Correspondence.Values := by
  refine .look ?_
  rw [names.lexeme]
  cases objects with
  | @object identity blueprint blueprintImage alike =>
      have related := counterpart.store.fields identity name.lexeme
      have methods := alike.methods name.lexeme
      dsimp only
      generalize machine.store.field? identity name.lexeme = value at related ⊢
      generalize image.store.field? identity name.lexeme =
        valueImage at related ⊢
      cases related with
      | some alike => exact .ofPure counterpart alike
      | none =>
          dsimp only
          generalize blueprint.findMethod? name.lexeme = method at methods ⊢
          generalize blueprintImage.findMethod? name.lexeme =
            methodImage at methods ⊢
          cases methods with
          | some twins => exact inStep_bound counterpart twins (.object alike)
          | none =>
              exact .ofToken counterpart names
                (fun token => .undefinedProperty name.lexeme token.line) rfl

end Store

section Super

variable {id other : NodeId} {keyword keywordImage method methodImage : Token}

/-- What `super` means: classes and instances that are twins. -/
def Correspondence.Parts (code : Correspondence)
    (parts images : Class × Instance) : Prop :=
  code.Classes parts.1 images.1 ∧ code.Objects parts.2 images.2

/-- Finding what `super` means. -/
theorem inStep_superParts
    (counterpart : machine.Counterpart lines kept image)
    (links : machine.Links image id other)
    (keywords : Token.Shifted lines keyword keywordImage) :
    InStep lines kept (superParts id keyword) (superParts other keywordImage)
      machine image Correspondence.Parts := by
  have fails : ∀ name distance,
      InStep lines kept (Run.fail (.unresolvedLocal name distance keyword.line))
        (Run.fail (.unresolvedLocal name distance keywordImage.line))
        machine image
        Correspondence.Parts :=
    fun name distance => .ofToken counterpart keywords
      (fun token => .unresolvedLocal name distance token.line) rfl
  refine .look ?_
  rw [links.2.2, counterpart.active]
  dsimp only
  split
  · exact fails "super" 0
  · rename_i distance _
    have classes := counterpart.store.lookupAt? machine.active distance "super"
    generalize machine.store.lookupAt? machine.active distance "super" =
      found at classes ⊢
    generalize image.store.lookupAt? machine.active distance "super" =
      foundImage at classes ⊢
    cases classes with
    | none => exact fails "super" distance
    | some isClass =>
        cases isClass with
        | blueprint blueprints =>
            cases distance with
            | zero => exact fails "this" 0
            | succ inner =>
                have objects :=
                  counterpart.store.lookupAt? machine.active inner "this"
                dsimp only
                generalize machine.store.lookupAt? machine.active inner
                  "this" = held
                  at objects ⊢
                generalize image.store.lookupAt? machine.active inner "this" =
                  heldImage
                  at objects ⊢
                cases objects with
                | none => exact fails "this" inner
                | some isObject =>
                    cases isObject with
                    | object alike =>
                        exact .ofPure counterpart ⟨blueprints, .object alike⟩
                    | _ => exact fails "this" inner
        | _ => exact fails "super" distance

/-- Reading a method of a superclass. -/
theorem inStep_readSuper
    (counterpart : machine.Counterpart lines kept image)
    (links : machine.Links image id other)
    (keywords : Token.Shifted lines keyword keywordImage)
    (names : Token.Shifted lines method methodImage) :
    InStep lines kept (readSuper id keyword method)
      (readSuper other keywordImage methodImage) machine
      image Correspondence.Values := by
  refine (inStep_superParts counterpart links keywords).andThen ?_
  rintro after afterImage ⟨superclass, object⟩
    ⟨superclassImage, objectImage⟩ follow ⟨classes, objects⟩
  have methods := classes.methods method.lexeme
  dsimp only
  rw [names.lexeme]
  generalize superclass.findMethod? method.lexeme = found at methods ⊢
  generalize superclassImage.findMethod? method.lexeme = foundImage at methods ⊢
  cases methods with
  | some twins => exact inStep_bound follow.counterpart twins objects
  | none =>
      exact .ofToken follow.counterpart names
        (fun token => .undefinedProperty method.lexeme token.line) rfl

end Super

/-- Calling a native with arguments that are twins. -/
theorem inStep_callNative
    {context : Context}
    {arguments images : List Value}
    (blind : ∀ native ∈ context.natives, native.BlindBut kept)
    (counterpart : machine.Counterpart lines kept image)
    (alike : (machine.linked lines image).Lists arguments images)
    (native : Native) :
    InStep lines kept (callNative context native arguments)
      (callNative context native images)
      machine image Correspondence.Values := by
  have performs : nativeTwin (machine.linked lines image).likeness
      (performNative context.natives native.slot arguments machine.world)
      (performNative context.natives native.slot images image.world) := by
    unfold performNative
    rw [counterpart.world]
    split
    · rename_i found isFound
      refine blind found (List.mem_of_getElem? isFound) _
        (Machine.faithful_linked lines machine image) ?_ arguments images
        machine.world alike
      exact fun function isKept =>
        ⟨counterpart.kept function isKept, counterpart.kept function isKept⟩
    · exact .failure
  have calls := callNative_eq context native arguments machine
  have callsImage := callNative_eq context native images image
  generalize performNative context.natives native.slot arguments
    machine.world = result
    at performs calls
  generalize performNative context.natives native.slot images image.world =
    resultImage
    at performs callsImage
  have follow (world : World) : Machine.Follow lines kept machine image
      { machine with world := world } { image with world := world } :=
    ⟨.ofSame rfl rfl, .ofSame rfl rfl, { counterpart with world := rfl }⟩
  cases performs with
  | value twins => exact .ofOk calls callsImage (follow _) twins
  | failure => exact Mirrors.ofError calls callsImage ⟨.failed .same, follow _⟩

end LoxScript
