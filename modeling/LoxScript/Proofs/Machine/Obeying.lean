import LoxScript.Proofs.Machine.Regime
import LoxScript.Proofs.Session.Restoration

namespace LoxScript

/-!
# Steps that obey a regime

Every small step that the evaluator is made of obeys every regime whose laws
hold, however it ends.
-/

open Run

variable {regime : Regime} {context : Context} {allowed : Stage → Prop}
variable {machine after : Machine}

/-- What comes onwards from a step whose value is changed. -/
theorem Run.onwards_map
    (change : α → β)
    (step : Run α)
    (machine : Machine)
    (next : β → Machine → List γ) :
    (change <$> step).onwards machine next =
      step.onwards machine fun value => next (change value) := by
  unfold onwards
  cases outcome : step machine <;>
    simp only [Functor.map, EStateM.map, outcome]

section Steps

variable (lawful : regime.Lawful context allowed)
  (intact : regime.intact machine)

include lawful intact

/-- The value of an operator. -/
theorem obeys_ofExcept
    {result : Except RuntimeError Value}
    (isAtom : ∀ value, result = .ok value → value.IsAtom) :
    Obeys regime [] (Run.ofExcept result) machine
      fun value after => regime.value after value := by
  cases result with
  | ok value =>
      exact .ofPure lawful intact (Regime.value_of_isAtom (isAtom value rfl))
  | error error => exact .ofThrow lawful intact _

/-- Reading a variable leaves the machine as it is. -/
theorem obeys_readVariable
    {part : Part}
    (hosts : regime.hosts machine machine.active part)
    (id : NodeId)
    (name : Token) :
    Obeys regime [] (readVariable id name) machine
      fun value after => after = machine ∧ regime.value machine value := by
  apply Obeys.look
  split
  · split
    · rename_i found
      exact .ofPure lawful intact ⟨rfl, lawful.readLocal intact hosts found⟩
    · exact .ofThrow lawful intact _
  · split
    · rename_i found
      exact .ofPure lawful intact ⟨rfl, lawful.readGlobal intact found⟩
    · exact .ofThrow lawful intact _

/-- Overwriting a variable. -/
theorem obeys_assignVariable
    {id : NodeId}
    {name : Token}
    {expr : Expr}
    {value : Value}
    (hosts : regime.hosts machine machine.active (.expr (.assign id name expr)))
    (isValue : regime.value machine value) :
    Obeys regime [] (assignVariable id name value) machine
      fun _ after => regime.value after value := by
  have finds : Obeys regime [] (frameOf id name) machine fun frame after =>
      after = machine ∧
        ((∃ distance,
          machine.store.holderAt? machine.active distance name.lexeme =
            some frame) ∨
            frame = globalFrame ∧
            machine.store.holds globalFrame name.lexeme = true) := by
    apply Obeys.look
    split
    · split
      · rename_i found
        exact .ofPure lawful intact ⟨rfl, .inl ⟨_, found⟩⟩
      · exact .ofThrow lawful intact _
    · split
      · rename_i held
        exact .ofPure lawful intact ⟨rfl, .inr ⟨rfl, held⟩⟩
      · exact .ofThrow lawful intact _
  refine finds.followed lawful ?_
  rintro frame _ - - ⟨rfl, found⟩
  have moves := lawful.assign intact hosts isValue found
  exact .ofOk rfl moves (lawful.laterValue moves.keeps isValue)

/-- Giving a name that is declared a value. -/
theorem obeys_define
    {statement : Stmt}
    {name : Token}
    {value : Value}
    (hosts : regime.hosts machine machine.active (.stmt statement))
    (declares : statement.declared? = some name)
    (isValue : regime.value machine value) :
    Obeys regime [] (define name.lexeme value) machine fun _ after =>
      after = machine.defining name value :=
  .ofOk rfl (lawful.define intact hosts declares isValue) rfl

/-- Handing out an identity. -/
theorem obeys_freshIdentity :
    Obeys regime [] freshIdentity machine fun identity after =>
      regime.fresh after identity := by
  obtain ⟨moves, isFresh⟩ := lawful.skipIdentity intact
  exact .ofOk rfl moves isFresh

/-- Binding a method is a move, and what is bound sees the instance. -/
theorem moves_bind
    {name : String}
    {method bound : Function}
    {object : Instance}
    (isMethod : regime.method machine name method)
    (isObject : regime.object machine object)
    (binds : Run.bind method object machine = .ok bound after)
    (isAllowed : allowed (.bound name method object bound machine after)) :
    regime.Moves machine after ∧ regime.function after bound ∧
      regime.meets (.bound name method object bound machine after) := by
  obtain ⟨moves, isFunction⟩ :=
    lawful.bind intact isMethod isObject binds isAllowed
  refine ⟨moves, isFunction, lawful.laterMethod moves.keeps isMethod,
    lawful.laterObject moves.keeps isObject, ?_⟩
  cases binds
  exact ⟨Array.getElem?_push_size, rfl, rfl⟩

/-- Binding a method. -/
theorem obeys_bind
    {name : String}
    {method : Function}
    {object : Instance}
    (isMethod : regime.method machine name method)
    (isObject : regime.object machine object)
    (areAllowed :
      ∀ stage ∈ Stage.binding name method object machine, allowed stage) :
    Obeys regime (Stage.binding name method object machine)
      (Run.bind method object) machine
      fun bound after => regime.function after bound := by
  unfold Stage.binding onwards at areAllowed
  unfold Obeys Leads Stage.binding onwards
  cases binds : Run.bind method object machine with
  | error halt last => cases binds
  | ok bound last =>
      rw [binds] at areAllowed
      obtain ⟨moves, isFunction, meets⟩ :=
        moves_bind lawful intact isMethod isObject binds
        (areAllowed _ List.mem_cons_self)
      exact ⟨.single lawful (.bound name method object bound machine last)
        intact moves meets, isFunction⟩

/-- Binding a method that is then a value. -/
theorem obeys_bound
    {name : String}
    {method : Function}
    {object : Instance}
    (isMethod : regime.method machine name method)
    (isObject : regime.object machine object)
    (areAllowed :
      ∀ stage ∈ Stage.binding name method object machine, allowed stage) :
    Obeys regime (Stage.binding name method object machine)
      (do return Value.function (← Run.bind method object)) machine
      fun value after => regime.value after value := by
  refine (obeys_bind lawful intact isMethod isObject areAllowed).followed
    lawful ?_
  intro bound after _ passes isFunction
  exact .ofPure lawful passes.moves.intact isFunction

/-- Reading a property. -/
theorem obeys_getProperty
    {object : Instance}
    {name : Token}
    (isObject : regime.object machine object)
    (areAllowed :
      ∀ method, machine.property? object name.lexeme = some method →
        ∀ stage ∈ Stage.binding name.lexeme method object machine,
          allowed stage) :
    Obeys regime
      (match machine.property? object name.lexeme with
        | none => []
        | some method => Stage.binding name.lexeme method object machine)
      (getProperty object name) machine fun value after =>
        regime.value after value := by
  unfold Machine.property? at areAllowed
  unfold getProperty Machine.property?
  apply Obeys.look
  cases isField : machine.store.field? object.identity name.lexeme with
  | some value =>
      exact .ofPure lawful intact (lawful.readField intact isObject isField)
  | none =>
      rw [isField] at areAllowed
      cases isMethod : object.blueprint.findMethod? name.lexeme with
      | none => exact .ofThrow lawful intact _
      | some method =>
          exact obeys_bound lawful intact
            (lawful.methodOf (lawful.classOf isObject) isMethod) isObject
            (areAllowed method isMethod)

/-- The superclass and the instance that `super` means. -/
theorem obeys_superParts
    {part : Part}
    (hosts : regime.hosts machine machine.active part)
    (id : NodeId)
    (keyword : Token) :
    Obeys regime [] (superParts id keyword) machine fun parts after =>
      regime.blueprint after parts.1 ∧ regime.object after parts.2 := by
  apply Obeys.look
  dsimp only
  split
  · exact .ofThrow lawful intact _
  · split
    · rename_i isClass
      split
      · exact .ofThrow lawful intact _
      · split
        · rename_i isObject
          exact .ofPure lawful intact
            ⟨lawful.readLocal intact hosts isClass,
              lawful.readLocal intact hosts isObject⟩
        · exact .ofThrow lawful intact _
    · exact .ofThrow lawful intact _

/-- Reading a method of the superclass. -/
theorem obeys_readSuper
    {part : Part}
    (hosts : regime.hosts machine machine.active part)
    {id : NodeId}
    {keyword method : Token}
    {steps : Nat}
    (areAllowed :
      ∀ stage ∈ (Task.eval (.superRef id keyword method)).closing context
        steps machine, allowed stage) :
    Obeys regime
      ((Task.eval (.superRef id keyword method)).closing context steps machine)
      (readSuper id keyword method) machine fun value after =>
        regime.value after value := by
  refine (obeys_superParts lawful intact hosts id keyword).behind lawful ?_
  rintro ⟨superclass, object⟩ after yields moves ⟨isClass, isObject⟩
  dsimp only
  cases found : superclass.findMethod? method.lexeme with
  | none => exact .ofThrow lawful moves.intact _
  | some method =>
      refine obeys_bound lawful moves.intact (lawful.methodOf isClass found)
        isObject ?_
      intro stage member
      refine areAllowed stage (mem_onwards_iff.mpr ⟨_, _, yields, ?_⟩)
      rw [found]
      exact member

/-- Calling a native. -/
theorem obeys_callNative
    {native : Native}
    {arguments : List Value}
    (isAllowed : allowed (.task (.apply (.native native) arguments) machine))
    (areValues : ∀ argument ∈ arguments, regime.value machine argument) :
    Obeys regime [] (callNative context native arguments) machine
      fun value after => regime.value after value := by
  cases performed : performNative context.natives native.slot arguments
    machine.world with
  | mk outcome world =>
      have moves : regime.Moves machine { machine with world := world } :=
        lawful.movesAside intact rfl rfl rfl
      unfold callNative
      rw [Obeys, Leads, bind_of_ok (modifyGet_eq _ machine)]
      simp only [performed]
      cases outcome with
      | error reason => exact .nil moves
      | ok value =>
          have isValue := lawful.native isAllowed intact areValues performed
          exact ⟨.nil moves, lawful.laterValue moves.keeps isValue⟩

/-- The value of a call; that of an initializer is what `this` is in its
frame. -/
theorem obeys_callResult
    {function : Function}
    {flow : Flow}
    (isFunction : regime.function machine function)
    (isFlow : regime.flow machine flow) :
    Obeys regime [] (callResult function flow) machine fun value after =>
      regime.value after value ∧
        (function.isInitializer = true →
          after.store.lookup? function.closure "this" = some value) := by
  unfold callResult
  split
  · apply Obeys.look
    split
    · rename_i found
      exact .ofPure lawful intact
        ⟨lawful.readThis intact isFunction found, fun _ => found⟩
    · exact .ofThrow lawful intact _
  · rename_i isPlain
    cases flow with
    | normal =>
        exact .ofPure lawful intact
          ⟨trivial, fun isThis => absurd isThis isPlain⟩
    | returned value =>
        exact .ofPure lawful intact
          ⟨isFlow, fun isThis => absurd isThis isPlain⟩

/-- Writing to the output. -/
theorem obeys_write
    (text : String) :
    Obeys regime [] (write text) machine fun _ _ => True := by
  apply Obeys.look
  have moves : regime.Moves machine
      { machine with output := machine.output.append text.toUTF8 } :=
    lawful.movesAside intact rfl rfl rfl
  have appends : Obeys regime []
      (modify fun machine =>
        { machine with output := machine.output.append text.toUTF8 })
      machine fun _ _ => True :=
    .ofOk rfl moves trivial
  refine appends.followed lawful ?_
  intro _ after _ passes _
  split
  · exact .ofThrow lawful passes.moves.intact _
  · exact .ofPure lawful passes.moves.intact trivial

/-- Making a function of the active frame. -/
theorem obeys_declareFunction
    {declaration : FunctionDecl}
    (hosts :
      regime.hosts machine machine.active (.stmt (.funDecl declaration))) :
    Obeys regime [] (declareFunction declaration) machine fun _ _ => True := by
  obtain ⟨moves, isFresh⟩ := lawful.skipIdentity intact
  have closes :
      Obeys regime [] (closeOver declaration machine.active false) machine
      fun function after =>
        after = { machine with store := machine.store.skipIdentity } ∧
          regime.function after function :=
    .ofOk rfl moves
      ⟨rfl, lawful.closure moves.intact (lawful.laterCode moves.keeps hosts)
        _ isFresh⟩
  apply Obeys.look
  refine closes.followed lawful ?_
  rintro function _ - passes ⟨rfl, isFunction⟩
  have isValue :
      regime.value { machine with store := machine.store.skipIdentity }
      (.function function) :=
    isFunction
  have isDeclared : (Stmt.funDecl declaration).declared? =
      some declaration.name := rfl
  have defines := obeys_define lawful passes.moves.intact
    (lawful.laterCode passes.moves.keeps hosts) isDeclared isValue
  exact defines.weaken fun _ _ _ _ => trivial

/-- Loading a required source. -/
theorem obeys_loadRequired
    (keyword : Token)
    (path : String) :
    Obeys regime [] (loadRequired context keyword path) machine
      fun program after =>
        regime.hosts after globalFrame (.stmts program.statements) := by
  unfold loadRequired
  extract_lets failWith goOn
  apply Obeys.look
  split
  · exact .ofThrow lawful intact _
  · unfold goOn
    split
    · exact .ofThrow lawful intact _
    · rename_i source _
      cases outcome : Program.compile source machine.nextNode with
      | mk verdict next =>
          have compiles := modifyGet_compile outcome
          cases verdict with
          | error error =>
              exact .ofError (bind_of_ok compiles)
                (lawful.rejected intact outcome)
          | ok program =>
              obtain ⟨moves, hosts⟩ := lawful.loaded intact outcome
              exact .ofOk (bind_of_ok compiles) moves hosts

/-- Making functions of methods. -/
theorem obeys_closeOverMethods
    {closure : FrameId}
    {declarations : List FunctionDecl}
    {table : NameMap Function}
    (areMethods :
      ∀ declaration ∈ declarations, ∀ {later}, regime.keeps machine later →
        ∀ identity, regime.fresh later identity →
          regime.method later declaration.name.lexeme
            ⟨identity, declaration, closure, declaration.isInitializer⟩)
    (isTable :
      ∀ name method, table.find? name = some method →
        regime.method machine name method) :
    Obeys regime [] (closeOverMethods closure table declarations) machine
      fun made after =>
        ∀ name method, made.find? name = some method →
          regime.method after name method := by
  induction declarations generalizing machine table with
  | nil => exact .ofPure lawful intact isTable
  | cons declaration rest inductionHypothesis =>
      obtain ⟨moves, isFresh⟩ := lawful.skipIdentity intact
      have closes : Obeys regime []
          (closeOver declaration closure declaration.isInitializer) machine
          fun method after =>
            regime.Moves machine after ∧
              regime.method after declaration.name.lexeme method :=
        .ofOk rfl moves
          ⟨moves, areMethods declaration (.head _) moves.keeps _ isFresh⟩
      refine closes.followed lawful ?_
      rintro method after - - ⟨moves, isMethod⟩
      refine inductionHypothesis moves.intact
        (fun declaration member _ keeps =>
          areMethods declaration (.tail _ member)
            (lawful.trans moves.keeps keeps)) ?_
      intro name wanted found
      rw [NameMap.find?_insert] at found
      split at found
      · rename_i same
        cases found
        exact same ▸ isMethod
      · exact lawful.laterMethod moves.keeps (isTable name wanted found)

/-- Finding the superclass of a class, if it has one, leaves the machine as it
is. -/
theorem obeys_findSuperclass
    {name : Token}
    {superclass : Option SuperclassRef}
    {methods : List FunctionDecl}
    (hosts : regime.hosts machine machine.active
      (.stmt (.classDecl name superclass methods))) :
    Obeys regime [] (findSuperclass name superclass) machine fun parent after =>
      after = machine ∧ (∀ found ∈ parent, regime.blueprint machine found) ∧
        ∀ named ∈ superclass, ∃ found, parent = some found ∧
          readSuperclass name named machine = .ok found machine ∧
          readVariable named.id named.name machine =
            .ok (.blueprint found) machine := by
  cases superclass with
  | none => exact .ofPure lawful intact ⟨rfl, nofun, nofun⟩
  | some named =>
      have reads := obeys_readVariable lawful intact hosts named.id named.name
      unfold Obeys Leads at reads ⊢
      simp only [findSuperclass]
      cases outcome : readVariable named.id named.name machine with
      | error halt after =>
          rw [outcome] at reads
          have fails : readSuperclass name named machine = .error halt after :=
            bind_of_error outcome
          rw [show (some <$> readSuperclass name named) machine =
              .error halt after by
            simp only [Functor.map, EStateM.map, fails]]
          exact reads
      | ok value after =>
          rw [outcome] at reads
          obtain ⟨passes, rfl, isValue⟩ := reads
          cases value with
          | blueprint found =>
              have yields : readSuperclass name named after = .ok found after :=
                bind_of_ok outcome
              rw [map_of_ok some yields]
              refine ⟨passes, rfl, ?_, ?_⟩
              · rintro _ ⟨⟩
                exact isValue
              · rintro _ ⟨⟩
                exact ⟨found, rfl, yields, outcome⟩
          | _ =>
              have fails : readSuperclass name named after =
                  .error (.failed (.superclassNotClass name.line)) after :=
                bind_of_ok outcome
              rw [show (some <$> readSuperclass name named) after =
                  .error (.failed (.superclassNotClass name.line)) after by
                simp only [Functor.map, EStateM.map, fails]]
              exact passes

/-- Declaring a class whose superclass is found. -/
theorem obeys_establishClass
    {name : Token}
    {superclass : Option SuperclassRef}
    {methods : List FunctionDecl}
    {parent : Option Class}
    {listed : Machine → List Stage}
    (hosts : regime.hosts machine machine.active
      (.stmt (.classDecl name superclass methods)))
    (isAllowed :
      allowed (.task (.exec (.classDecl name superclass methods)) machine))
    (finds : findSuperclass name superclass machine = .ok parent machine)
    (isParent : ∀ found ∈ parent, regime.blueprint machine found)
    (inherits :
      ∀ closure framed,
        methodFrame parent (machine.defining name .nil) = .ok closure framed →
        ∀ named ∈ superclass, ∀ found ∈ parent,
          allowed (.inherited named found machine framed))
    (lists :
      ∀ closure framed,
        methodFrame parent (machine.defining name .nil) = .ok closure framed →
        regime.Moves machine framed →
        regime.Passes framed (listed framed) framed) :
    Obeys regime
      ((methodFrame parent).onwards (machine.defining name .nil)
        fun _ framed => listed framed)
      (establishClass name methods parent) machine fun _ _ => True := by
  have isNil : regime.value machine .nil := trivial
  have isDeclared : (Stmt.classDecl name superclass methods).declared? =
      some name := rfl
  have moves := lawful.define intact hosts isDeclared isNil
  have frames : Obeys regime
      ((methodFrame parent).onwards (machine.defining name .nil)
        fun _ framed => listed framed)
      (methodFrame parent) (machine.defining name .nil) fun closure framed =>
        regime.Moves machine framed ∧ ∀ declaration ∈ methods, ∀ {later},
          regime.keeps framed later → ∀ identity, regime.fresh later identity →
            regime.method later declaration.name.lexeme
              ⟨identity, declaration, closure, declaration.isInitializer⟩ := by
    unfold Obeys Leads onwards
    cases outcome : methodFrame parent (machine.defining name .nil) with
    | error halt framed => cases parent <;> cases outcome
    | ok closure framed =>
        obtain ⟨movesOn, areMethods⟩ :=
          lawful.methods intact hosts isAllowed finds isParent moves outcome
            (inherits closure framed outcome)
        have movesAll := lawful.andMoves moves movesOn
        exact ⟨(lists closure framed outcome movesAll).between lawful movesOn
          (lawful.stay movesOn.intact), movesAll, areMethods⟩
  have whole : Obeys regime
      ((define name.lexeme .nil).onwards machine fun _ after =>
        (methodFrame parent).onwards after fun _ framed => listed framed)
      (establishClass name methods parent) machine fun _ _ => True := by
    refine (obeys_define lawful intact hosts isDeclared isNil).behind lawful ?_
    rintro _ _ - - rfl
    refine frames.followed lawful ?_
    rintro closure framed yieldsFrame - ⟨movesFramed, areMethods⟩
    have isEmpty : ∀ wanted method,
        (NameMap.empty : NameMap Function).find? wanted = some method →
        regime.method framed wanted method :=
      fun _ _ absent => by cases absent
    refine (obeys_closeOverMethods lawful movesFramed.intact areMethods
      isEmpty).followed lawful ?_
    intro table made yieldsTable passes isTable
    refine (obeys_freshIdentity lawful passes.moves.intact).followed lawful ?_
    intro identity last yieldsIdentity further isFresh
    have keeps :=
      lawful.trans (lawful.trans movesFramed.keeps passes.moves.keeps)
      further.moves.keeps
    have isClass :
        regime.value last (.blueprint ⟨identity, name.lexeme, parent, table⟩) :=
      lawful.assemble isFresh
        (fun found member =>
          lawful.laterBlueprint keeps (isParent found member))
        fun wanted method found =>
          lawful.laterMethod further.moves.keeps (isTable wanted method found)
    have same := Machine.respected_sameContext
    have framedThere : framed.active = machine.active := by
      cases parent <;> cases yieldsFrame <;> rfl
    have madeThere :=
      (same.keeps_closeOverMethods closure NameMap.empty methods).ok yieldsTable
    have lastThere := same.keeps_freshIdentity.ok yieldsIdentity
    have hostsLast := lawful.laterCode keeps hosts
    rw [← framedThere, ← madeThere.active, ← lastThere.active] at hostsLast
    exact (obeys_define lawful further.moves.intact hostsLast isDeclared
      isClass).weaken
      fun _ _ _ _ => trivial
  exact whole

/-- Declaring a class. -/
theorem obeys_declareClass
    {name : Token}
    {superclass : Option SuperclassRef}
    {methods : List FunctionDecl}
    (hosts : regime.hosts machine machine.active
      (.stmt (.classDecl name superclass methods)))
    (isAllowed :
      allowed (.task (.exec (.classDecl name superclass methods)) machine))
    (steps : Nat)
    (closes :
      ∀ stage ∈ (Task.exec (.classDecl name superclass methods)).closing context
        steps machine, allowed stage) :
    Obeys regime
      ((Task.exec (.classDecl name superclass methods)).closing context
        steps machine)
      (declareClass name superclass methods) machine fun _ _ => True := by
  rw [declareClass_eq]
  have finds := obeys_findSuperclass lawful intact hosts
  cases superclass with
  | none =>
      have lists : ∀ closure framed,
          methodFrame none (machine.defining name .nil) = .ok closure framed →
            regime.Moves machine framed → regime.Passes framed [] framed :=
        fun _ _ _ moves => .nil (lawful.stay moves.intact)
      exact obeys_establishClass lawful intact hosts isAllowed rfl nofun
        (fun _ _ _ => nofun) lists
  | some named =>
      have both : Obeys regime
          ((findSuperclass name (some named)).onwards machine
            fun parent after =>
              match parent with
              | none => []
              | some superclass =>
                  (methodFrame (some superclass)).onwards
                      (after.defining name .nil) fun _ framed =>
                    [.inherited named superclass machine framed])
          (findSuperclass name (some named) >>= establishClass name methods)
            machine
          fun _ _ => True := by
        refine finds.behind lawful ?_
        rintro parent after yields - ⟨rfl, isParent, found⟩
        obtain ⟨superclass, rfl, readsClass, reads⟩ := found named rfl
        refine obeys_establishClass lawful intact hosts isAllowed yields
          isParent ?_ ?_
        · rintro closure framed frames _ ⟨⟩ _ ⟨⟩
          exact closes _ (mem_onwards_iff.mpr ⟨superclass, after, readsClass,
            mem_onwards_iff.mpr
              ⟨closure, framed, frames, List.mem_singleton_self _⟩⟩)
        intro closure framed frames moves
        refine .single lawful (.inherited named superclass after framed)
          moves.intact (lawful.stay moves.intact) ⟨reads, ?_⟩
        cases frames
        have place :=
          Store.nextFrame_define after.store after.active name.lexeme .nil
        exact place ▸ Array.getElem?_push_size
      rw [findSuperclass, onwards_map] at both
      exact both

end Steps

end LoxScript
