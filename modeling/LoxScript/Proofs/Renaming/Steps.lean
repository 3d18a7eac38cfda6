import LoxScript.Proofs.Renaming.Agreement
import LoxScript.Proofs.Renaming.Natives

namespace LoxScript

/-!
# The steps of the evaluator on twins

Every small step that the evaluator is made of agrees with its twin.  What reads
or writes a variable goes to one frame on both sides, and calls the variable by
the name that it has in that frame.
-/

open Run

variable {r : Relabelling} {flags : Flags} {machine image : Machine}
  {marks : Marks}

section Look

variable {store storeImage : Store} {frame : FrameId}

/-- Twins hold twins at every distance. -/
theorem Store.Twin.lookupAt?
    (twin : store.Twin r flags storeImage)
    (carries : store.Carries flags frame marks)
    (distance : Nat)
    (name : String) :
    Option.Rel (Value.Twin (store.likeness r flags))
      (store.lookupAt? frame distance name)
      (storeImage.lookupAt? frame distance
        (r.spelled (marks.marked distance) name)) := by
  unfold Store.lookupAt?
  rw [twin.ancestor?_eq]
  cases isFound : store.ancestor? frame distance with
  | none => exact .none
  | some found =>
      have flagged := (carries distance found isFound).2
      simpa only [flagged] using twin.bindings found name

/-- Twins hold the same names in a frame. -/
theorem Store.Twin.holds
    (twin : store.Twin r flags storeImage)
    (frame : FrameId)
    (name : String) :
    storeImage.holds frame (r.spelled (flags frame) name) =
      store.holds frame name := by
  unfold Store.holds
  have related := twin.bindings frame name
  generalize store.lookup? frame name = value at related ⊢
  generalize storeImage.lookup? frame (r.spelled (flags frame) name) =
    valueImage at related ⊢
  cases related <;> rfl

/-- Twins hold a name at a distance in one frame. -/
theorem Store.Twin.holderAt?
    (twin : store.Twin r flags storeImage)
    (carries : store.Carries flags frame marks)
    (distance : Nat)
    (name : String) :
    storeImage.holderAt? frame distance
      (r.spelled (marks.marked distance) name) =
      store.holderAt? frame distance name := by
  unfold Store.holderAt?
  rw [twin.ancestor?_eq]
  cases isFound : store.ancestor? frame distance with
  | none => rfl
  | some found =>
      have flagged := (carries distance found isFound).2
      simp only [← flagged, twin.holds]

end Look

/-- A node with two names: the second one is the first one as it is spelled
where the node leads to. -/
structure Machine.Names
    (r : Relabelling)
    (marks : Marks)
    (machine : Machine)
    (id : NodeId)
    (name other : Token) : Prop where
  resolved :
    ∀ distance, machine.distances[id]? = some distance →
      other.lexeme = r.spelled (marks.marked distance) name.lexeme
  unresolved : machine.distances[id]? = none → other.lexeme = name.lexeme
  line : other.line = name.line
  missing :
    ∀ distance, RuntimeError.Twin r.old r.new
      (.unresolvedLocal name.lexeme distance name.line)
      (.unresolvedLocal other.lexeme distance other.line)

/-- A node of the program and its twin. -/
theorem Relabelling.Refers.names
    {id : NodeId}
    {name other : Token}
    (refers : r.Refers marks id name other)
    (twin : machine.Twin r flags image) :
    machine.Names r marks id name other := by
  have leads : ∀ entry, machine.distances[id]? = entry →
      r.leads marks id = (entry.map marks.marked).getD false := by
    rintro _ rfl
    rcases refers.known with ⟨above, below⟩ | plain
    · rw [twin.table id above below, Renaming.leads]
      cases r.table[id]? <;> rfl
    · rw [Relabelling.leads_of_plain plain]
      cases machine.distances[id]? with
      | none => rfl
      | some distance => exact (plain distance).symm
  refine ⟨?_, ?_, refers.line, ?_⟩
  · intro distance found
    rw [refers.lexeme, leads _ found]
    rfl
  · intro found
    rw [refers.lexeme, leads _ found]
    rfl
  · intro distance
    rw [refers.line, refers.lexeme]
    cases isLed : r.leads marks id with
    | false => exact .same
    | true =>
        by_cases isOld : name.lexeme = r.old
        · rw [isOld, Renaming.spelled, if_pos rfl, Equiv.swap_apply_left]
          exact .renamed
        · rw [Relabelling.spelled_of_ne isOld (refers.fresh isLed)]
          exact .same

/-- A `this` is its own twin. -/
theorem Relabelling.Proper.names_this
    {id : NodeId}
    {keyword : Token}
    (proper : r.Proper)
    (isThis : keyword.lexeme = "this" ∨ marks.Plain) :
    machine.Names r marks id keyword keyword := by
  refine ⟨?_, fun _ => rfl, rfl, fun _ => .same⟩
  intro distance _
  rcases isThis with spelled | plain
  · rw [spelled, proper.spelled_this]
  · rw [plain distance, Relabelling.spelled_false]

/-- The global frame is not flagged. -/
theorem Store.Twin.global
    {store storeImage : Store}
    (twin : store.Twin r flags storeImage)
    (proper : r.Proper) :
    flags globalFrame = false :=
  twin.earlier.flags globalFrame proper.rooted.present

/-- Reading a variable. -/
theorem agrees_readVariable
    {id : NodeId}
    {name other : Token}
    (proper : r.Proper)
    (twin : machine.Twin r flags image)
    (carries : machine.store.Carries flags machine.active marks)
    (names : machine.Names r marks id name other) :
    Agrees r flags (readVariable id name) (readVariable id other) machine image
      (alikeValues r) := by
  refine .look ?_
  rw [twin.distances]
  cases found : machine.distances[id]? with
  | some distance =>
      have related := twin.store.lookupAt? carries distance name.lexeme
      simp only [twin.active, names.resolved distance found]
      generalize machine.store.lookupAt? machine.active distance name.lexeme =
        value at related ⊢
      generalize image.store.lookupAt? machine.active distance _ =
        valueImage at related ⊢
      cases related with
      | some alike => exact .ofPure twin alike
      | none =>
          rw [← names.resolved distance found]
          exact .ofErrors twin (names.missing distance)
  | none =>
      have related := twin.store.bindings globalFrame name.lexeme
      rw [twin.store.global proper, Relabelling.spelled_false] at related
      simp only [names.unresolved found, names.line]
      generalize machine.store.lookup? globalFrame name.lexeme =
        value at related ⊢
      generalize image.store.lookup? globalFrame name.lexeme =
        valueImage at related ⊢
      cases related with
      | some alike => exact .ofPure twin alike
      | none => exact .ofFail twin _

/-- Finding the frame of a variable that is assigned to. -/
theorem agrees_frameOf
    {id : NodeId}
    {name other : Token}
    (proper : r.Proper)
    (twin : machine.Twin r flags image)
    (carries : machine.store.Carries flags machine.active marks)
    (names : machine.Names r marks id name other) :
    Agrees r flags (frameOf id name) (frameOf id other) machine image
      (fun grown _ frame frameImage =>
        frameImage = frame ∧
          other.lexeme = r.spelled (grown frame) name.lexeme) := by
  refine .look ?_
  rw [twin.distances]
  cases found : machine.distances[id]? with
  | some distance =>
      have same := twin.store.holderAt? carries distance name.lexeme
      rw [← names.resolved distance found] at same
      simp only [twin.active, same]
      cases isHolder : machine.store.holderAt? machine.active distance
        name.lexeme with
      | none => exact .ofErrors twin (names.missing distance)
      | some frame =>
          refine .ofPure twin ⟨rfl, ?_⟩
          have isFrame : machine.store.ancestor? machine.active distance =
              some frame := by
            unfold Store.holderAt? at isHolder
            split at isHolder
            · rename_i isFrame
              split at isHolder
              · cases isHolder
                exact isFrame
              · cases isHolder
            · cases isHolder
          rw [(carries distance frame isFrame).2]
          exact names.resolved distance found
  | none =>
      have unmarked := twin.store.global proper
      have same := twin.store.holds globalFrame name.lexeme
      rw [unmarked, Relabelling.spelled_false] at same
      simp only [names.unresolved found, names.line, same]
      split
      · refine .ofPure twin ⟨rfl, ?_⟩
        rw [unmarked, Relabelling.spelled_false]
      · exact .ofFail twin _

/-- Giving a name of a frame values that are twins. -/
theorem agrees_defineIn
    {frame : FrameId}
    {name other : String}
    {value valueImage : Value}
    (twin : machine.Twin r flags image)
    (named : other = r.spelled (flags frame) name)
    (alike : alikeValues r flags machine value valueImage) :
    Agrees r flags
      (modify fun machine =>
        { machine with store := machine.store.define frame name value })
      (modify fun machine =>
        { machine with store := machine.store.define frame other valueImage })
      machine image (alikeAnyhow : Flags → Machine → PUnit → PUnit → Prop) := by
  subst named
  exact .ofOk rfl rfl ⟨.define flags _ _ _ _, rfl⟩
    (twin.withStore (twin.store.define alike frame name)) trivial

/-- Assigning to a variable. -/
theorem agrees_assignVariable
    {id : NodeId}
    {name other : Token}
    {value valueImage : Value}
    (proper : r.Proper)
    (twin : machine.Twin r flags image)
    (carries : machine.store.Carries flags machine.active marks)
    (names : machine.Names r marks id name other)
    (alike : alikeValues r flags machine value valueImage) :
    Agrees r flags (assignVariable id name value)
      (assignVariable id other valueImage) machine image alikeAnyhow := by
  refine (agrees_frameOf proper twin carries names).andThen ?_
  rintro grown after afterImage frame _ later twinAfter ⟨rfl, named⟩
  exact agrees_defineIn twinAfter named (later.value alike)

/-- Defining a name in the active frame. -/
theorem agrees_define
    {name other : String}
    {value valueImage : Value}
    (twin : machine.Twin r flags image)
    (carries : machine.store.Carries flags machine.active marks)
    (named : other = r.spelled marks.here name)
    (alike : alikeValues r flags machine value valueImage) :
    Agrees r flags (define name value) (define other valueImage) machine image
      alikeAnyhow := by
  have flagged : flags machine.active = marks.here :=
    (carries 0 machine.active rfl).2
  rw [← flagged] at named
  subst named
  have stores : (machine.store.define machine.active name value).Twin r flags
      (image.store.define image.active (r.spelled (flags machine.active) name)
        valueImage) := by
    rw [twin.active]
    exact twin.store.define alike machine.active name
  exact .ofOk rfl rfl ⟨.define flags _ _ _ _, rfl⟩
    (twin.withStore stores) trivial

/-- Giving a field values that are twins. -/
theorem agrees_setField
    {object objectImage : Instance}
    {value valueImage : Value}
    (twin : machine.Twin r flags image)
    (identity : objectImage.identity = object.identity)
    (alike : alikeValues r flags machine value valueImage)
    (name : String) :
    Agrees r flags (setField object name value)
      (setField objectImage name valueImage) machine image alikeAnyhow := by
  have same : (machine.store.setField object.identity name value).frames =
      machine.store.frames :=
    rfl
  have stores : (machine.store.setField object.identity name value).Twin r flags
      (image.store.setField objectImage.identity name valueImage) := by
    rw [identity]
    exact twin.store.setField alike object.identity name
  exact .ofOk rfl rfl ⟨.ofFrames same flags, rfl⟩
    (twin.withStore stores) trivial

/-- Writing one text. -/
theorem agrees_write
    (twin : machine.Twin r flags image)
    (text : String) :
    Agrees r flags (write text) (write text) machine image alikeAnyhow := by
  have written : Machine.Twin r flags
      { machine with output := machine.output.append text.toUTF8 }
      { image with output := image.output.append text.toUTF8 } :=
    { twin with output := congrArg (·.append text.toUTF8) twin.output }
  have appends : Agrees r flags
      (modify fun machine =>
        { machine with output := machine.output.append text.toUTF8 })
      (modify fun machine =>
        { machine with output := machine.output.append text.toUTF8 })
      machine image (alikeAnyhow : Flags → Machine → PUnit → PUnit → Prop) :=
    .ofOk rfl rfl ⟨.refl flags _, rfl⟩ written trivial
  refine .look ?_
  rw [twin.output]
  refine appends.andThen ?_
  intro grown after afterImage _ _ _ twinAfter _
  cases machine.output.writeFault? text.toUTF8.size with
  | none => exact .ofPure twinAfter trivial
  | some fault => exact .ofFail twinAfter _

/-- New frames that hold twins under other names. -/
theorem agrees_allocate
    {bindings bindingsImage : NameMap Value}
    {parent : FrameId}
    (twin : machine.Twin r flags image)
    (carries : machine.store.Carries flags parent marks)
    (marked : Bool)
    (alike :
      ∀ name, Option.Rel (alikeValues r flags machine) (bindings.find? name)
        (bindingsImage.find? (r.spelled marked name))) :
    Agrees r flags (allocate ⟨bindings, some parent⟩)
      (allocate ⟨bindingsImage, some parent⟩) machine image
      (fun grown after frame frameImage =>
        frameImage = frame ∧
          after.store.Carries grown frame (marked :: marks)) :=
  .ofOk rfl rfl ⟨.allocate flags _ _ marked, rfl⟩
    (twin.withStore (twin.store.allocate marked alike (some parent)))
    ⟨twin.store.size, carries.allocate marked⟩

/-- New instances of classes that are twins. -/
theorem agrees_allocateInstance
    {blueprint blueprintImage : Class}
    (twin : machine.Twin r flags image)
    (alike :
      Class.Twin (machine.store.likeness r flags) blueprint blueprintImage) :
    Agrees r flags (allocateInstance blueprint)
      (allocateInstance blueprintImage) machine image
      (fun grown after object objectImage =>
        alikeValues r grown after (.object object) (.object objectImage)) := by
  have same : machine.store.allocateInstance.frames = machine.store.frames :=
    rfl
  have extend := Store.Extends.ofFrames same flags
  refine .ofOk rfl rfl ⟨extend, rfl⟩
    (twin.withStore twin.store.allocateInstance) ?_
  rw [twin.store.instances]
  exact .object (alike.widen extend.within)

/-- Functions of one frame whose codes are twins. -/
theorem agrees_closeOver
    {inner : Marks}
    {closure : FrameId}
    {declaration declarationImage : FunctionDecl}
    (twin : machine.Twin r flags image)
    (carries : machine.store.Carries flags closure marks)
    (code : FunctionDecl.Twin r (inner ++ marks) declaration declarationImage)
    (isInitializer : Bool) :
    Agrees r flags (closeOver declaration closure isInitializer)
      (closeOver declarationImage closure isInitializer) machine image
      (fun grown after => Function.Twin r grown after.store inner) := by
  have same : machine.store.skipIdentity.frames = machine.store.frames := rfl
  have extend := Store.Extends.ofFrames same flags
  refine .ofOk rfl rfl ⟨extend, rfl⟩ (twin.withStore twin.store.skipIdentity) ?_
  exact ⟨twin.store.identities, rfl, rfl, marks, carries.later extend, code⟩

/-- A frame with one name that is not exchanged. -/
theorem alike_single
    {name : String}
    {value valueImage : Value}
    (alike : alikeValues r flags machine value valueImage)
    (wanted : String) :
    Option.Rel (alikeValues r flags machine)
      ((NameMap.empty.insert name value).find? wanted)
      ((NameMap.empty.insert name valueImage).find?
        (r.spelled false wanted)) := by
  rw [Relabelling.spelled_false, NameMap.find?_insert, NameMap.find?_insert]
  split
  · exact .some alike
  · exact .none

/-- Binding methods that are twins to instances that are twins. -/
theorem agrees_bind
    {method methodImage : Function}
    {object objectImage : Instance}
    (twin : machine.Twin r flags image)
    (methods : (machine.store.likeness r flags).methods method methodImage)
    (objects : alikeValues r flags machine (.object object)
      (.object objectImage)) :
    Agrees r flags (Run.bind method object) (Run.bind methodImage objectImage)
      machine image
      (fun grown after => (after.store.likeness r grown).functions) := by
  obtain ⟨outer, carries, code⟩ := methods.code
  unfold Run.bind
  rw [methods.closure, methods.isInitializer]
  refine (agrees_allocate twin carries false (alike_single objects)).andThen ?_
  rintro grown after afterImage frame _ later twinAfter ⟨rfl, carriesNew⟩
  exact agrees_closeOver twinAfter carriesNew code method.isInitializer

/-- A function that was bound, as a value. -/
theorem agrees_bound
    {method methodImage : Function}
    {object objectImage : Instance}
    (twin : machine.Twin r flags image)
    (methods : (machine.store.likeness r flags).methods method methodImage)
    (objects : alikeValues r flags machine (.object object)
      (.object objectImage)) :
    Agrees r flags
      (do return Value.function (← Run.bind method object))
      (do return Value.function (← Run.bind methodImage objectImage))
      machine image (alikeValues r) := by
  refine (agrees_bind twin methods objects).andThen ?_
  intro grown after afterImage bound boundImage _ twinAfter alike
  exact .ofPure twinAfter (.function alike)

/-- Reading a property of instances that are twins. -/
theorem agrees_getProperty
    {object objectImage : Instance}
    (twin : machine.Twin r flags image)
    (objects : alikeValues r flags machine (.object object)
      (.object objectImage))
    (name : Token) :
    Agrees r flags (getProperty object name) (getProperty objectImage name)
      machine image (alikeValues r) := by
  refine .look ?_
  cases objects with
  | @object identity blueprint blueprintImage alike =>
      have related := twin.store.fields identity name.lexeme
      have methods := alike.methods name.lexeme
      dsimp only
      generalize machine.store.field? identity name.lexeme = value at related ⊢
      generalize image.store.field? identity name.lexeme =
        valueImage at related ⊢
      cases related with
      | some alike => exact .ofPure twin alike
      | none =>
          dsimp only
          generalize blueprint.findMethod? name.lexeme = method at methods ⊢
          generalize blueprintImage.findMethod? name.lexeme =
            methodImage at methods ⊢
          cases methods with
          | some twins => exact agrees_bound twin twins (.object alike)
          | none => exact .ofFail twin _

/-- What `super` means: classes and instances that are twins. -/
def alikeParts
    (r : Relabelling)
    (flags : Flags)
    (machine : Machine)
    (parts images : Class × Instance) : Prop :=
  alikeValues r flags machine (.blueprint parts.1) (.blueprint images.1) ∧
    alikeValues r flags machine (.object parts.2) (.object images.2)

/-- Finding what `super` means. -/
theorem agrees_superParts
    (proper : r.Proper)
    (twin : machine.Twin r flags image)
    (carries : machine.store.Carries flags machine.active marks)
    (id : NodeId)
    (keyword : Token) :
    Agrees r flags (superParts id keyword) (superParts id keyword) machine image
      (alikeParts r) := by
  have fails : ∀ name distance,
      Agrees r flags (Run.fail (.unresolvedLocal name distance keyword.line))
        (Run.fail (.unresolvedLocal name distance keyword.line)) machine image
        (alikeParts r) :=
    fun _ _ => .ofFail twin _
  refine .look ?_
  rw [twin.distances, twin.active]
  dsimp only
  split
  · exact fails "super" 0
  · rename_i distance _
    have classes := twin.store.lookupAt? carries distance "super"
    rw [proper.spelled_super] at classes
    generalize machine.store.lookupAt? machine.active distance "super" =
      found at classes ⊢
    generalize image.store.lookupAt? machine.active distance "super" =
      foundImage at classes ⊢
    cases classes with
    | none => exact fails "super" distance
    | some isClass =>
        cases isClass with
        | blueprint blueprints =>
            cases distance with
            | zero => exact fails "this" 0
            | succ inner =>
                have objects := twin.store.lookupAt? carries inner "this"
                rw [proper.spelled_this] at objects
                dsimp only
                generalize machine.store.lookupAt? machine.active inner
                  "this" = held
                  at objects ⊢
                generalize image.store.lookupAt? machine.active inner "this" =
                  heldImage
                  at objects ⊢
                cases objects with
                | none => exact fails "this" inner
                | some isObject =>
                    cases isObject with
                    | object alike =>
                        exact .ofPure twin
                          ⟨.blueprint blueprints, .object alike⟩
                    | _ => exact fails "this" inner
        | _ => exact fails "super" distance

/-- Reading a method of a superclass. -/
theorem agrees_readSuper
    (proper : r.Proper)
    (twin : machine.Twin r flags image)
    (carries : machine.store.Carries flags machine.active marks)
    (id : NodeId)
    (keyword method : Token) :
    Agrees r flags (readSuper id keyword method) (readSuper id keyword method)
      machine image (alikeValues r) := by
  refine (agrees_superParts proper twin carries id keyword).andThen ?_
  rintro grown after afterImage ⟨superclass, object⟩
    ⟨superclassImage, objectImage⟩ _ twinAfter ⟨classes, objects⟩
  cases classes with
  | blueprint blueprints =>
      have methods := blueprints.methods method.lexeme
      dsimp only
      generalize superclass.findMethod? method.lexeme = found at methods ⊢
      generalize superclassImage.findMethod? method.lexeme =
        foundImage at methods ⊢
      cases methods with
      | some twins => exact agrees_bound twinAfter twins objects
      | none => exact .ofFail twinAfter _

/-- A function of the store from before the program is its own twin. -/
theorem Store.Twin.self_of_anchored
    {store storeImage : Store}
    {inner : Marks}
    {function : Function}
    (twin : store.Twin r flags storeImage)
    (anchored : r.start.Anchored function.closure)
    (plain : inner.Plain) :
    Function.Twin r flags store inner function function := by
  refine ⟨rfl, rfl, rfl, [], anchored.carries twin.earlier, ?_⟩
  rw [List.append_nil]
  exact FunctionDecl.twin_self plain function.declaration

/-- Calling a native with arguments that are twins. -/
theorem agrees_callNative
    {context : Context}
    {arguments images : List Value}
    (blind : ∀ native ∈ context.natives, native.Blind r.start)
    (twin : machine.Twin r flags image)
    (alike : alikeLists r flags machine arguments images)
    (native : Native) :
    Agrees r flags (callNative context native arguments)
      (callNative context native images) machine image (alikeValues r) := by
  have performs : nativeTwin (machine.store.likeness r flags)
      (performNative context.natives native.slot arguments machine.world)
      (performNative context.natives native.slot images image.world) := by
    unfold performNative
    rw [twin.world]
    split
    · rename_i found isFound
      refine blind found (List.mem_of_getElem? isFound) _
        (Store.faithful_likeness r flags _)
        ?_ arguments images machine.world alike
      intro function anchored
      exact ⟨twin.store.self_of_anchored anchored Marks.plain_nil,
        twin.store.self_of_anchored anchored Marks.plain_nil.cons⟩
    · exact .failure
  have calls := callNative_eq context native arguments machine
  have callsImage := callNative_eq context native images image
  generalize performNative context.natives native.slot arguments
    machine.world = result
    at performs calls
  generalize performNative context.natives native.slot images image.world =
    resultImage
    at performs callsImage
  cases performs with
  | value twins =>
      exact .ofOk calls callsImage ⟨.refl flags _, rfl⟩
        { twin with world := rfl } twins
  | failure =>
      exact Mirrors.ofError calls callsImage
        ⟨.failed .same, flags, ⟨.refl flags _, rfl⟩, { twin with world := rfl }⟩

end LoxScript
