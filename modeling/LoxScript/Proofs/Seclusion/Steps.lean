import LoxScript.Proofs.Seclusion.State

namespace LoxScript

/-!
# Steps that stay out of earlier frames

Of every small step that the evaluator is made of: if it ends with a value in a
secluded machine, then in a secluded machine again, and what it yields is
executed in its own frame only.
-/

open Run

variable {line : Line} {context : Context} {machine after : Machine}

/-- Where a step ends, the machine has been extended and is secluded, and the
value is as wanted. -/
def Run.Secludes
    (line : Line)
    (step : Run α)
    (machine : Machine)
    (good : α → Machine → Prop) : Prop :=
  ∀ value after, step machine = .ok value after →
    machine.Extends after ∧ after.Secluded line ∧ good value after

namespace Run.Secludes

variable {good : α → Machine → Prop} {final : β → Machine → Prop}

/-- A step that yields a value. -/
theorem ofOk
    {step : Run α}
    {value : α}
    (yields : step machine = .ok value after)
    (extend : machine.Extends after)
    (secluded : after.Secluded line)
    (holds : good value after) :
    Secludes line step machine good := by
  intro other last same
  rw [yields] at same
  cases same
  exact ⟨extend, secluded, holds⟩

/-- A step that only yields a value. -/
theorem ofPure
    {value : α}
    (secluded : machine.Secluded line)
    (holds : good value machine) :
    Secludes line (pure value) machine good :=
  ofOk rfl (Machine.respected_extends.refl machine) secluded holds

/-- A step that fails. -/
theorem ofThrow
    (halt : Halt) :
    Secludes line (throw halt) machine good :=
  nofun

/-- One step after the other. -/
theorem andThen
    {step : Run α}
    {next : α → Run β}
    (secludes : Secludes line step machine good)
    (secludesNext :
      ∀ value after, step machine = .ok value after → machine.Extends after →
        after.Secluded line → good value after →
          Secludes line (next value) after final) :
    Secludes line (step >>= next) machine final := by
  intro value last yields
  obtain ⟨first, middle, yieldsFirst, yieldsNext⟩ := bind_eq_ok_iff.mp yields
  obtain ⟨extend, secluded, isGood⟩ := secludes first middle yieldsFirst
  obtain ⟨extendNext, secludedLast, isFinal⟩ :=
    secludesNext first middle yieldsFirst extend secluded isGood value
      last yieldsNext
  exact ⟨Machine.respected_extends.trans extend extendNext, secludedLast,
    isFinal⟩

/-- A step that looks at the machine first. -/
theorem look
    {next : Machine → Run β}
    (secludes : Secludes line (next machine) machine final) :
    Secludes line (get >>= next) machine final :=
  secludes

/-- A step in another frame. -/
theorem inFrame
    {step : Run α}
    {frame : FrameId}
    (secludes : Secludes line step { machine with active := frame } good)
    (moves :
      ∀ value inside, good value inside →
        good value { inside with active := machine.active }) :
    Secludes line (Run.inFrame frame step) machine good := by
  intro value after yields
  unfold Run.inFrame at yields
  cases outcome : step { machine with active := frame } with
  | ok found inside =>
      rw [outcome] at yields
      cases yields
      obtain ⟨extend, secluded, isGood⟩ := secludes _ _ outcome
      exact ⟨Machine.respected_extends.inFrame frame extend,
        ⟨secluded.past, secluded.holds⟩, moves _ _ isGood⟩
  | error halt inside =>
      rw [outcome] at yields
      cases yields

/-- A step of a required source. -/
theorem whileRequiring
    {step : Run α}
    {path : String}
    (secludes :
      Secludes line step { machine with requiring := path :: machine.requiring }
        fun _ _ => True) :
    Secludes line (Run.whileRequiring path step) machine fun _ _ => True := by
  intro value after yields
  simp only [Run.whileRequiring] at yields
  cases outcome :
    step { machine with requiring := path :: machine.requiring } with
  | ok found inside =>
      rw [outcome] at yields
      cases yields
      obtain ⟨extend, secluded, -⟩ := secludes _ _ outcome
      exact ⟨Machine.respected_extends.whileRequiring path extend,
        ⟨secluded.past, secluded.holds⟩, trivial⟩
  | error halt inside =>
      rw [outcome] at yields
      cases yields

end Run.Secludes

section Steps

variable (secluded : machine.Secluded line)

include secluded

/-- Reading a variable. -/
theorem secludes_readVariable
    (id : NodeId)
    (name : Token) :
    Secludes line (readVariable id name) machine
      fun value after => value.Secluded line after.store := by
  apply Secludes.look
  split
  · split
    · rename_i distance _ value found
      unfold Store.lookupAt? at found
      split at found
      · exact .ofPure secluded (secluded.holds.values _ _ value found)
      · cases found
    · exact .ofThrow _
  · split
    · rename_i value found
      exact .ofPure secluded (secluded.holds.values _ _ value found)
    · exact .ofThrow _

/-- Overwriting a variable. -/
theorem secludes_assignVariable
    {value : Value}
    (isSecluded : value.Secluded line machine.store)
    (id : NodeId)
    (name : Token) :
    Secludes line (assignVariable id name value) machine
      fun _ after => value.Secluded line after.store := by
  intro _ after yields
  obtain ⟨frame, middle, finds, assigns⟩ := bind_eq_ok_iff.mp yields
  obtain ⟨rfl, held⟩ := Leads.ok (leads_frameOf id name machine) finds
  cases assigns
  have extend :=
    Machine.respected_extends.change
    (.assign middle frame name.lexeme value held)
  exact ⟨extend, secluded.grow extend
    (secluded.holds.define isSecluded frame name.lexeme),
    isSecluded.later extend⟩

/-- Adding a frame. -/
theorem secludes_allocate
    {added : Frame}
    (contents :
      ∀ name value, added.bindings.find? name = some value →
        value.Secluded line machine.store) :
    Secludes line (allocate added) machine fun frame after =>
      frame = machine.store.nextFrame ∧
        after = { machine with store := machine.store.allocate added } :=
  .ofOk rfl (Machine.respected_extends.change (.allocate machine added))
    (secluded.allocate contents) ⟨rfl, rfl⟩

omit secluded in
/-- What is found in a frame with one variable. -/
theorem secluded_single
    {name : String}
    {value : Value}
    (isSecluded : value.Secluded line store) :
    ∀ wanted found,
      (NameMap.empty.insert name value).find? wanted = some found →
      found.Secluded line store := by
  intro wanted found isFound
  rw [NameMap.find?_insert] at isFound
  split at isFound
  · cases isFound
    exact isSecluded
  · cases isFound

/-- Giving a name of the active frame a value. -/
theorem secludes_define
    {value : Value}
    (isSecluded : value.Secluded line machine.store)
    (name : String) :
    Secludes line (define name value) machine fun _ _ => True :=
  .ofOk rfl (Machine.respected_extends.change (.define machine name value))
    (secluded.define isSecluded name) trivial

/-- Making a function. -/
theorem secludes_closeOver
    {declaration : FunctionDecl}
    {closure : FrameId}
    (admits : machine.store.Admits line closure (.function declaration))
    (isInitializer : Bool) :
    Secludes line (closeOver declaration closure isInitializer) machine
      fun function after => function.Secluded line after.store := by
  have extend :
      machine.Extends { machine with store := machine.store.skipIdentity } :=
    Machine.respected_extends.change (.skipIdentity machine)
  exact .ofOk rfl extend secluded.skipIdentity (admits.later extend)

/-- Binding a method. -/
theorem secludes_bind
    {method : Function}
    {object : Instance}
    (isMethod : method.Secluded line machine.store)
    (isObject : object.blueprint.Secluded line machine.store) :
    Secludes line (bind method object) machine
      fun bound after => bound.Secluded line after.store := by
  have isThis : (Value.object object).Secluded line machine.store := isObject
  apply Secludes.andThen (secludes_allocate secluded (secluded_single isThis))
  rintro _ _ - - secludedAfter ⟨rfl, rfl⟩
  exact secludes_closeOver secludedAfter
    (Store.Admits.allocate isMethod secluded.past _) _

/-- Reading a property. -/
theorem secludes_getProperty
    {object : Instance}
    (isObject : object.blueprint.Secluded line machine.store)
    (name : Token) :
    Secludes line (getProperty object name) machine
      fun value after => value.Secluded line after.store := by
  apply Secludes.look
  split
  · rename_i value found
    exact .ofPure secluded (secluded.holds.fields _ _ value found)
  · split
    · rename_i method found
      apply Secludes.andThen
        (secludes_bind secluded (isObject _ method found) isObject)
      intro bound after _ _ secludedAfter isBound
      exact .ofPure secludedAfter isBound
    · exact .ofThrow _

/-- The superclass and the instance that `super` means. -/
theorem secludes_superParts
    (id : NodeId)
    (keyword : Token) :
    Secludes line (superParts id keyword) machine
      fun parts after =>
        parts.1.Secluded line after.store ∧
          parts.2.blueprint.Secluded line after.store := by
  have held {frame : FrameId} {distance : Nat} {name : String} {value : Value}
      (found : machine.store.lookupAt? frame distance name = some value) :
      value.Secluded line machine.store := by
    unfold Store.lookupAt? at found
    split at found
    · exact secluded.holds.values _ _ value found
    · cases found
  apply Secludes.look
  dsimp only
  split
  · exact .ofThrow _
  · split
    · rename_i superclass isClass
      split
      · exact .ofThrow _
      · split
        · rename_i object isObject
          exact .ofPure secluded ⟨held isClass, held isObject⟩
        · exact .ofThrow _
    · exact .ofThrow _

/-- Reading a method of the superclass. -/
theorem secludes_readSuper
    (id : NodeId)
    (keyword method : Token) :
    Secludes line (readSuper id keyword method) machine
      fun value after => value.Secluded line after.store := by
  apply Secludes.andThen (secludes_superParts secluded id keyword)
  rintro ⟨superclass, object⟩ after - - secludedAfter ⟨isClass, isObject⟩
  dsimp only
  split
  · rename_i found isFound
    apply Secludes.andThen
      (secludes_bind secludedAfter (isClass _ found isFound) isObject)
    intro bound last _ _ secludedLast isBound
    exact .ofPure secludedLast isBound
  · exact .ofThrow _

/-- Calling a native. -/
theorem secludes_callNative
    {arguments : List Value}
    (lends : context.Lends line)
    (areSecluded : ∀ argument ∈ arguments, argument.Secluded line machine.store)
    (native : Native) :
    Secludes line (callNative context native arguments) machine
      fun value after => value.Secluded line after.store := by
  intro value after yields
  obtain ⟨outcome, middle, performs, decides⟩ := bind_eq_ok_iff.mp yields
  cases performed : performNative context.natives native.slot arguments
    machine.world with
  | mk _ world =>
      simp only [modifyGet_eq, performed] at performs
      cases performs
      cases outcome with
      | error reason => cases decides
      | ok found =>
          cases decides
          refine ⟨Machine.respected_extends.change (.perform machine world),
            ⟨secluded.past, secluded.holds⟩, ?_⟩
          obtain ⟨host, member, body⟩ := performNative_eq_ok performed
          rcases lends host member _ _ _ _ body with isAtom | passed | isEarly
          · exact isAtom.secluded
          · exact areSecluded value passed
          · exact isEarly machine.store

/-- The value of a call. -/
theorem secludes_callResult
    {flow : Flow}
    (isFlow : flow.Secluded line machine.store)
    (function : Function) :
    Secludes line (callResult function flow) machine
      fun value after => value.Secluded line after.store := by
  unfold callResult
  split
  · apply Secludes.look
    split
    · rename_i value found
      exact .ofPure secluded (secluded.holds.values _ _ value found)
    · exact .ofThrow _
  · cases flow with
    | normal => exact .ofPure secluded trivial
    | returned value => exact .ofPure secluded isFlow

/-- Making functions of methods that are admitted in a frame. -/
theorem secludes_closeOverMethods
    {closure : FrameId}
    {methods : List FunctionDecl}
    {table : NameMap Function}
    (admits : machine.store.Admits line closure (.functions methods))
    (isTable :
      ∀ name method, table.find? name = some method →
        method.Secluded line machine.store) :
    Secludes line (closeOverMethods closure table methods) machine
      fun made after =>
        ∀ name method, made.find? name = some method →
          method.Secluded line after.store := by
  induction methods generalizing machine table with
  | nil => exact .ofPure secluded isTable
  | cons declaration rest inductionHypothesis =>
      have admitsFirst : machine.store.Admits line closure
          (.function declaration) :=
        admits.part (by
          simp [Part.ids, Part.references, FunctionDecl.referencesAll])
      have admitsRest : machine.store.Admits line closure (.functions rest) :=
        admits.part (by
          simp [Part.ids, Part.references, FunctionDecl.referencesAll])
      apply Secludes.andThen
        (secludes_closeOver secluded admitsFirst declaration.isInitializer)
      intro method after _ extend secludedAfter isMethod
      apply inductionHypothesis secludedAfter (admitsRest.later extend)
      intro name wanted found
      rw [NameMap.find?_insert] at found
      split at found
      · cases found
        exact isMethod
      · exact (isTable name wanted found).later extend

/-- Declaring a function. -/
theorem secludes_declareFunction
    {declaration : FunctionDecl}
    (admits :
      machine.store.Admits line machine.active (.function declaration)) :
    Secludes line (declareFunction declaration) machine fun _ _ => True := by
  apply Secludes.look
  apply Secludes.andThen (secludes_closeOver secluded admits false)
  intro function after _ _ secludedAfter isFunction
  have isValue : (Value.function function).Secluded line after.store :=
    isFunction
  exact secludes_define secludedAfter isValue _

/-- Finding the superclass of a class, if it has one. -/
theorem secludes_findSuperclass
    (name : Token)
    (superclass : Option SuperclassRef) :
    Secludes line (findSuperclass name superclass) machine
      fun parent after => ∀ found ∈ parent,
      Class.Secluded line after.store found := by
  cases superclass with
  | none => exact .ofPure secluded nofun
  | some named =>
      intro parent after yields
      obtain ⟨found, yieldsFound, rfl⟩ := map_eq_ok_iff.mp yields
      obtain ⟨value, middle, reads, decides⟩ := bind_eq_ok_iff.mp yieldsFound
      obtain ⟨extend, secludedMiddle, isValue⟩ :=
        secludes_readVariable secluded named.id named.name value middle reads
      cases value with
      | blueprint _ =>
          cases decides
          refine ⟨extend, secludedMiddle, ?_⟩
          rintro _ ⟨⟩
          exact isValue
      | _ => cases decides

/-- The frame that the methods of a class see. -/
theorem secludes_methodFrame
    {part : Part}
    {parent : Option Class}
    (admits : machine.store.Admits line machine.active part)
    (isParent : ∀ found ∈ parent, Class.Secluded line machine.store found) :
    Secludes line (methodFrame parent) machine
      fun closure after => after.store.Admits line closure part := by
  apply Secludes.look
  cases parent with
  | none => exact .ofPure secluded admits
  | some found =>
      have isSuper : (Value.blueprint found).Secluded line machine.store :=
        isParent found rfl
      intro closure after yields
      obtain ⟨extend, secludedAfter, rfl, rfl⟩ :=
        secludes_allocate secluded (secluded_single isSuper)
          closure after yields
      exact ⟨extend, secludedAfter, admits.allocate secluded.past _⟩

/-- Declaring a class. -/
theorem secludes_declareClass
    {methods : List FunctionDecl}
    (admits : machine.store.Admits line machine.active (.functions methods))
    (name : Token)
    (superclass : Option SuperclassRef) :
    Secludes line (declareClass name superclass methods) machine
      fun _ _ => True := by
  rw [declareClass_eq]
  apply Secludes.andThen (secludes_findSuperclass secluded name superclass)
  intro parent found _ extend₁ secluded₁ isParent
  have isNil : Value.nil.Secluded line found.store := trivial
  apply Secludes.andThen (secludes_define secluded₁ isNil name.lexeme)
  intro _ named _ extend₂ secluded₂ _
  have admits₂ : named.store.Admits line named.active (.functions methods) := by
    rw [extend₂.active, extend₁.active]
    exact (admits.later extend₁).later extend₂
  have isParent₂ : ∀ superclass ∈ parent,
      Class.Secluded line named.store superclass :=
    fun superclass member => (isParent superclass member).later extend₂
  apply Secludes.andThen (secludes_methodFrame secluded₂ admits₂ isParent₂)
  intro closure framed _ extend₃ secluded₃ admits₃
  apply Secludes.andThen
    (secludes_closeOverMethods secluded₃ admits₃
      fun _ _ absent => by cases absent)
  intro table made _ extend₄ secluded₄ isTable
  have extend₅ : made.Extends { made with store := made.store.skipIdentity } :=
    Machine.respected_extends.change (.skipIdentity made)
  have secluded₅ := secluded₄.skipIdentity
  have identifies : Secludes line freshIdentity made fun _ after =>
      after = { made with store := made.store.skipIdentity } :=
    .ofOk rfl extend₅ secluded₅ rfl
  apply Secludes.andThen identifies
  rintro identity _ - - - rfl
  have isClass :
      (Value.blueprint ⟨identity, name.lexeme, parent, table⟩).Secluded line
      made.store.skipIdentity := by
    intro wanted method isMethod
    cases parent with
    | none =>
        exact (isTable wanted method isMethod).later extend₅
    | some superclass =>
        simp only [Class.findMethod?] at isMethod
        split at isMethod
        · rename_i isOwn
          cases isMethod
          exact (isTable wanted method isOwn).later extend₅
        · have inherited := isParent₂ superclass rfl wanted method isMethod
          exact ((inherited.later extend₃).later extend₄).later extend₅
  exact secludes_define secluded₅ isClass name.lexeme

/-- Loading a required source. -/
theorem secludes_loadRequired
    (keyword : Token)
    (path : String) :
    Secludes line (loadRequired context keyword path) machine
      fun _ _ => True := by
  unfold loadRequired
  extract_lets failWith goOn
  apply Secludes.look
  split
  · exact nofun
  · unfold goOn
    split
    · exact nofun
    · rename_i source _
      have compiles :
          Secludes line (modifyGet fun machine => machine.compile source)
          machine
          fun _ _ => True :=
        .ofOk rfl (Machine.respected_extends.change (.compile machine source))
          ⟨secluded.past, secluded.holds⟩ trivial
      apply Secludes.andThen compiles
      intro verdict after _ _ secludedAfter _
      cases verdict with
      | error error => exact nofun
      | ok program =>
          exact .ofOk rfl ⟨Nat.le_refl _, fun _ _ => rfl, rfl⟩
            ⟨secludedAfter.past, secludedAfter.holds⟩ trivial

/-- Checking the number of arguments. -/
theorem secludes_checkArity
    (callee : Callee)
    (arguments : List Value)
    (paren : Token) :
    Secludes line (checkArity callee arguments paren) machine fun _ after =>
      after = machine := by
  unfold checkArity
  split
  · exact .ofPure secluded rfl
  · exact .ofThrow _

/-- Writing to the output. -/
theorem secludes_write
    (text : String) :
    Secludes line (write text) machine fun _ _ => True := by
  apply Secludes.look
  have appends : Secludes line
      (modify fun machine =>
        { machine with output := machine.output.append text.toUTF8 })
      machine fun _ _ => True :=
    .ofOk rfl (Machine.respected_extends.change (.append machine text.toUTF8))
      ⟨secluded.past, secluded.holds⟩ trivial
  apply Secludes.andThen appends
  intro _ after _ _ secludedAfter _
  split
  · exact .ofThrow _
  · exact .ofPure secludedAfter trivial

/-- A new instance of a class. -/
theorem secludes_allocateInstance
    (blueprint : Class) :
    Secludes line (allocateInstance blueprint) machine
      fun object _ => object.blueprint = blueprint :=
  .ofOk rfl (Machine.respected_extends.change (.allocateInstance machine))
    (secluded.grow
      (Machine.respected_extends.change (.allocateInstance machine))
      secluded.holds.allocateInstance) rfl

/-- Giving a field a value. -/
theorem secludes_setField
    {value : Value}
    (isSecluded : value.Secluded line machine.store)
    (object : Instance)
    (name : String) :
    Secludes line (setField object name value) machine fun _ _ => True := by
  have extend := Machine.respected_extends.change
    (.setField machine object.identity name value)
  exact .ofOk rfl extend
    (secluded.grow extend
      (secluded.holds.setField isSecluded object.identity name)) trivial

omit secluded in
/-- The result of an operator refers to nothing. -/
theorem secludes_ofExcept
    {result : Except RuntimeError Value}
    (secluded : machine.Secluded line)
    (isAtom : ∀ value, result = .ok value → value.IsAtom) :
    Secludes line (Run.ofExcept result) machine
      fun value after => value.Secluded line after.store := by
  cases result with
  | error error => exact .ofThrow _
  | ok value => exact .ofPure secluded (isAtom value rfl).secluded

end Steps

end LoxScript
