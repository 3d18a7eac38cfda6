import LoxScript.Proofs.Machine.Behaviour

namespace LoxScript

/-!
# Declarations and programs

What a variable, a function or a class adds to the active frame is what the
analysis added to the innermost scope, so the frame goes on to fit.  A program
that is loaded files distances under identities that no other program has.
-/

open Run

variable {offered : ByteArray → Prop} {context : Context}
  {machine after : Machine}
variable {scopes : List Scope} {name : Token}

/-- A name that is declared twice is declared once. -/
theorem Scope.declaring_declaring
    (name : Token)
    (scopes : List Scope) :
    Scope.declaring (some name) (Scope.declaring (some name) scopes) =
      Scope.declaring (some name) scopes := by
  cases scopes with
  | nil => rfl
  | cons scope outer => simp [Scope.declaring, NameMap.insert_insert]

/-- The machine once a name of the active frame has a value. -/
def Machine.defining (machine : Machine) (name : Token) (value : Value) :
    Machine :=
  { machine with
    store := machine.store.define machine.active name.lexeme value }

/-- A name that is defined in the active frame is declared in the innermost
scope. -/
theorem Machine.Fits.define
    (fits : machine.Fits scopes)
    (rooted : machine.store.Rooted)
    (isName : name.IsName)
    (value : Value) :
    (machine.defining name value).Fits
      (Scope.declaring (some name) scopes) := by
  have present := fits.chain.present rooted
  have grows : machine.store.Grows
      (machine.store.define machine.active name.lexeme value) :=
    .define (.inr isName.notReserved) _ _
  have chain := fits.chain.grow rooted grows
  cases scopes with
  | nil =>
      refine ⟨chain, ?_⟩
      intro scope isHead
      cases isHead
  | cons scope outer =>
      obtain ⟨isMatch, hasParent⟩ := chain
      refine ⟨⟨⟨?_, ?_, ?_⟩, hasParent⟩, ?_⟩
      · intro wanted ready
        rw [NameMap.find?_insert] at ready
        split at ready
        · rename_i same
          unfold Machine.defining
          rw [Store.holds_define]
          simp [same, show machine.active <
            machine.store.frames.size from present]
        · exact isMatch.names wanted ready
      · intro contained
        refine isMatch.this ?_
        simpa [NameMap.contains_insert, isName.ne_this] using contained
      · intro contained
        refine isMatch.super ?_
        simpa [NameMap.contains_insert, isName.ne_super] using contained
      · rintro _ ⟨⟩ wanted unready
        rw [NameMap.find?_insert] at unready
        split at unready
        · exact absurd rfl unready
        · rename_i different
          have absent := fits.exact scope rfl wanted unready
          unfold Machine.defining
          rw [Store.holds_define]
          simp [different, absent]

namespace Run

/-- The active frame goes on to fit, with the name declared in its scope. -/
def Declares (name : Option Token) (before after : Machine) : Prop :=
  ∀ scopes, before.Fits scopes → after.Fits (Scope.declaring name scopes)

/-- The superclass of a class that is declared. -/
def findSuperclass (name : Token) : Option SuperclassRef → Run (Option Class)
  | some named => some <$> readSuperclass name named
  | none => pure none

/-- A class whose superclass is found. -/
def establishClass
    (name : Token)
    (methods : List FunctionDecl)
    (parent : Option Class) : Run Unit := do
  define name.lexeme .nil
  let closure ← methodFrame parent
  let table ← closeOverMethods closure NameMap.empty methods
  define name.lexeme (.blueprint ⟨← freshIdentity, name.lexeme, parent, table⟩)

/-- A class is declared by finding its superclass first. -/
theorem declareClass_eq
    (name : Token)
    (superclass : Option SuperclassRef)
    (methods : List FunctionDecl) :
    declareClass name superclass methods =
      findSuperclass name superclass >>= establishClass name methods := by
  cases superclass <;> rfl

/-- Making functions of methods never fails, and they see the frame that is
given. -/
theorem closeOverMethods_eq_ok
    (closure : FrameId)
    (table : NameMap Function)
    (methods : List FunctionDecl)
    (machine : Machine) :
    ∃ made after,
      closeOverMethods closure table methods machine = .ok made after ∧
      after.active = machine.active ∧
      after.store.frames = machine.store.frames ∧
      ∀ wanted method, made.find? wanted = some method →
        table.find? wanted = some method ∨
          method.declaration ∈ methods ∧ method.closure = closure := by
  induction methods generalizing table machine with
  | nil => exact ⟨table, machine, rfl, rfl, rfl, fun _ _ => .inl⟩
  | cons declaration rest inductionHypothesis =>
      let method : Function :=
        ⟨machine.store.nextIdentity, declaration, closure,
          declaration.isInitializer⟩
      obtain ⟨made, after, yields, active, frames, own⟩ :=
        inductionHypothesis (table.insert declaration.name.lexeme method)
          { machine with store := machine.store.skipIdentity }
      refine ⟨made, after, yields, active, frames,
        fun wanted found isFound => ?_⟩
      rcases own wanted found isFound with earlier | ⟨member, sees⟩
      · rw [NameMap.find?_insert] at earlier
        split at earlier
        · cases earlier
          exact .inr ⟨List.mem_cons_self, rfl⟩
        · exact .inl earlier
      · exact .inr ⟨List.mem_cons_of_mem _ member, sees⟩

/-- A class is sound if its own methods and its superclass are. -/
theorem sound_class
    {identity : Nat}
    {name : String}
    {parent : Option Class}
    {methods : NameMap Function}
    (isParent : ∀ superclass ∈ parent, superclass.Sound offered machine)
    (areSound :
      ∀ name method, methods.find? name = some method →
        method.SoundMethod offered machine) :
    Class.Sound offered machine ⟨identity, name, parent, methods⟩ := by
  intro wanted method found
  cases parent with
  | none =>
      exact areSound wanted method (by simpa [Class.findMethod?] using found)
  | some superclass =>
      simp only [Class.findMethod?] at found
      split at found
      · cases found
        exact areSound wanted _ ‹_›
      · exact isParent superclass rfl wanted method found

variable (sound : machine.Sound offered context)

include sound

/-- Defining a name in the active frame. -/
theorem behaves_define
    {value : Value}
    (isName : name.IsName)
    (isSound : value.Sound offered (machine.defining name value)) :
    Behaves offered context (some machine.active)
      (define name.lexeme value) machine
      fun _ after => after = machine.defining name value := by
  refine .ofOk rfl ?_ rfl
  exact machine.advances_define sound (.inr isName.notReserved)
    (.define (.inr rfl) _ _ _) isSound

/-- Declaring a function. -/
theorem behaves_declareFunction
    {program : Program}
    {declaration : FunctionDecl}
    (knows : machine.Knows offered program)
    (places : program.Places (.stmt (.funDecl declaration)) scopes)
    (fits : machine.Fits scopes)
    (isName : declaration.name.IsName) :
    Behaves offered context (some machine.active)
      (declareFunction declaration) machine
      fun _ after => Declares (some declaration.name) machine after := by
  obtain ⟨first, next, compiled, -⟩ := knows.compiled
  let function : Function :=
    ⟨machine.store.nextIdentity, declaration, machine.active, false⟩
  let identified : Machine :=
    { machine with store := machine.store.skipIdentity }
  have advances : machine.Advances offered context none identified :=
    machine.advances_skipIdentity sound none
  have defines : identified.Precedes
      (identified.defining declaration.name (.function function)) :=
    Machine.precedes_define (.inr isName.notReserved) identified _
  have declares : Declares (some declaration.name) machine
      (identified.defining declaration.name (.function function)) := by
    intro others fitsOthers
    exact (fitsOthers.advance sound advances).define
      advances.sound.rooted isName _
  have isSound : (Value.function function).Sound offered
      (identified.defining declaration.name (.function function)) :=
    ⟨program, _, (knows.later advances.precedes).later defines,
      compiled.places_function places, (declares scopes fits).chain, nofun⟩
  have fresh : Behaves offered context (some machine.active)
      (closeOver declaration machine.active false) machine
      fun made after => made = function ∧ after = identified :=
    .ofOk rfl (advances.widen _) ⟨rfl, rfl⟩
  refine Behaves.look (fresh.andThen ?_)
  rintro _ _ - - ⟨rfl, rfl⟩
  refine (behaves_define advances.sound isName isSound).weaken ?_
  rintro _ _ - - rfl
  exact declares

/-- Reading a superclass. -/
theorem behaves_readSuperclass
    (name : Token)
    (named : SuperclassRef) :
    Behaves offered context none (readSuperclass name named) machine
      fun found after => found.Sound offered after := by
  refine (behaves_readVariable sound named.id named.name).andThen ?_
  intro value after _ advances isSound
  split
  · exact .ofPure advances.sound isSound
  · exact .ofFail advances.sound _

/-- The methods of a class close over the frame of the class. -/
theorem behaves_closeOverMethods
    {program : Program}
    {outer : List Scope}
    {closure : FrameId}
    {table : NameMap Function}
    {methods : List FunctionDecl}
    (knows : machine.Knows offered program)
    (fits : machine.store.Fits closure outer)
    (places :
      ∀ method ∈ methods,
        program.Places (.function method) (Scope.ofThis :: outer))
    (areSound :
      ∀ name method, table.find? name = some method →
        method.SoundMethod offered machine) :
    Behaves offered context none
      (closeOverMethods closure table methods) machine
      fun grown after =>
        ∀ name method, grown.find? name = some method →
          method.SoundMethod offered after := by
  induction methods generalizing machine table with
  | nil =>
      exact .ofPure sound areSound
  | cons declaration rest inductionHypothesis =>
      have advances := machine.advances_skipIdentity sound none
      have fitsAfter := fits.grow sound.rooted advances.precedes.grows
      have knowsAfter := knows.later advances.precedes
      have fresh : Behaves offered context none
          (closeOver declaration closure declaration.isInitializer) machine
          fun made after => made.SoundMethod offered after ∧
            after = { machine with store := machine.store.skipIdentity } :=
        .ofOk rfl advances
          ⟨⟨program, outer, knowsAfter, places declaration List.mem_cons_self,
            fitsAfter⟩, rfl⟩
      refine fresh.andThen ?_
      rintro method _ - - ⟨isMethod, rfl⟩
      refine inductionHypothesis advances.sound knowsAfter fitsAfter ?_ ?_
      · intro other member
        exact places other (List.mem_cons_of_mem declaration member)
      · intro name found isFound
        rw [NameMap.find?_insert] at isFound
        split at isFound
        · cases isFound
          exact isMethod
        · exact (areSound name found isFound).later advances.precedes
            sound.rooted

/-- The frame of a class fits the scope that its methods see. -/
theorem behaves_methodFrame
    {superclass : Option SuperclassRef}
    {parent : Option Class}
    {outer : List Scope}
    (isParent : ∀ found ∈ parent, found.Sound offered machine)
    (agree : parent.isSome = superclass.isSome)
    (fits : machine.store.Fits machine.active outer) :
    Behaves offered context none (methodFrame parent) machine
      fun closure after =>
        ∃ inner, Scope.ofClass superclass ++ outer = Scope.ofThis :: inner ∧
          after.store.Fits closure inner := by
  refine Behaves.look ?_
  cases parent with
  | none =>
      obtain rfl : superclass = none := by simpa using agree
      exact .ofPure sound ⟨outer, rfl, fits⟩
  | some found =>
      obtain ⟨named, rfl⟩ : ∃ named, superclass = some named :=
        Option.isSome_iff_exists.mp agree.symm
      let added : Frame :=
        ⟨NameMap.empty.insert "super" (.blueprint found), some machine.active⟩
      have contents : ∀ name value, added.bindings.find? name = some value →
          value.Sound offered machine := by
        intro name value isFound
        rw [NameMap.find?_insert] at isFound
        split at isFound
        · cases isFound
          exact isParent found rfl
        · cases isFound
      have advances := machine.advances_allocate sound contents none
      refine .ofOk rfl advances
        ⟨Scope.ofSuper :: outer, rfl, ?_, machine.active, ?_, ?_⟩
      · exact Store.matches_ofSuper
          (Store.lookup?_allocate_nextFrame machine.store added "super")
      · exact Store.parent?_allocate_nextFrame machine.store added
      · exact fits.grow sound.rooted advances.precedes.grows

/-- Finding a superclass. -/
theorem behaves_findSuperclass
    (name : Token)
    (superclass : Option SuperclassRef) :
    Behaves offered context none (findSuperclass name superclass) machine
      fun parent after =>
        (∀ found ∈ parent, found.Sound offered after) ∧
          parent.isSome = superclass.isSome := by
  cases superclass with
  | none =>
      exact .ofPure sound ⟨nofun, rfl⟩
  | some named =>
      have reads := behaves_readSuperclass sound name named
      refine Leads.map (reads.weaken ?_)
      intro found after _ _ isSound
      exact ⟨by rintro _ ⟨⟩; exact isSound, rfl⟩

/-- Establishing a class. -/
theorem behaves_establishClass
    {program : Program}
    {superclass : Option SuperclassRef}
    {parent : Option Class}
    {methods : List FunctionDecl}
    (knows : machine.Knows offered program)
    (places :
      program.Places (.stmt (.classDecl name superclass methods)) scopes)
    (fits : machine.Fits scopes)
    (isName : name.IsName)
    (isParent : ∀ found ∈ parent, found.Sound offered machine)
    (agree : parent.isSome = superclass.isSome) :
    Behaves offered context (some machine.active)
      (establishClass name methods parent) machine
      fun _ after => Declares (some name) machine after := by
  obtain ⟨first, next, compiled, -⟩ := knows.compiled
  have isNil : Value.Sound offered (machine.defining name .nil) .nil := trivial
  refine (behaves_define sound isName isNil).andThen ?_
  rintro _ _ - started rfl
  have declares (others : List Scope) (fitsOthers : machine.Fits others) :=
    fitsOthers.define sound.rooted isName .nil
  have isParentHere : ∀ found ∈ parent,
      found.Sound offered (machine.defining name .nil) :=
    fun found member =>
      (isParent found member).later started.precedes sound.rooted
  have frames := behaves_methodFrame started.sound isParentHere agree
    (declares scopes fits).chain
  refine frames.beforeOpen ?_
  rintro closure framed - framing ⟨inner, shape, fitsClosure⟩
  have placesMethods : ∀ method ∈ methods,
      program.Places (.function method) (Scope.ofThis :: inner) := by
    rw [← shape]
    exact compiled.places_method places
  have noneYet : ∀ name method,
      (NameMap.empty : NameMap Function).find? name = some method →
      method.SoundMethod offered framed := by
    intro wanted method found
    cases found
  have knowsFramed := (knows.later started.precedes).later framing.precedes
  have closes :=
    behaves_closeOverMethods framing.sound knowsFramed fitsClosure
      placesMethods noneYet
  refine closes.beforeOpen ?_
  intro table closed _ closing areSound
  let made : Class := ⟨closed.store.nextIdentity, name.lexeme, parent, table⟩
  let identified : Machine := { closed with store := closed.store.skipIdentity }
  have identifies : closed.Advances offered context none identified :=
    closed.advances_skipIdentity closing.sound none
  have fresh : Behaves offered context none freshIdentity closed
      fun identity after => identity = closed.store.nextIdentity ∧
      after = identified :=
    .ofOk rfl identifies ⟨rfl, rfl⟩
  refine fresh.beforeOpen ?_
  rintro _ _ - - ⟨rfl, rfl⟩
  -- From the first definition of the name to the second, no frame is open.
  have between := (framing.trans closing).trans identifies
  have sameFrame : machine.active = identified.active := between.active.symm
  have defines :
      identified.Precedes (identified.defining name (.blueprint made)) :=
    Machine.precedes_define (.inr isName.notReserved) identified _
  have areSoundLater : ∀ wanted method, table.find? wanted = some method →
      method.SoundMethod offered (identified.defining name (.blueprint made)) :=
    fun wanted method found =>
      (areSound wanted method found).later (identifies.precedes.trans defines)
        closing.sound.rooted
  have isParentLater : ∀ found ∈ parent,
      found.Sound offered (identified.defining name (.blueprint made)) :=
    fun found member =>
      (isParentHere found member).later (between.precedes.trans defines)
        started.sound.rooted
  have isSound : (Value.blueprint made).Sound offered
      (identified.defining name (.blueprint made)) :=
    sound_class isParentLater areSoundLater
  rw [sameFrame]
  refine (behaves_define identifies.sound isName isSound).weaken ?_
  rintro _ _ - - rfl others fitsOthers
  have again :=
    ((declares others fitsOthers).advance started.sound between).define
    between.sound.rooted isName (.blueprint made)
  rw [Scope.declaring_declaring] at again
  exact again

/-- Declaring a class. -/
theorem behaves_declareClass
    {program : Program}
    {superclass : Option SuperclassRef}
    {methods : List FunctionDecl}
    (knows : machine.Knows offered program)
    (places :
      program.Places (.stmt (.classDecl name superclass methods)) scopes)
    (fits : machine.Fits scopes)
    (isName : name.IsName) :
    Behaves offered context (some machine.active)
      (declareClass name superclass methods) machine
      fun _ after => Declares (some name) machine after := by
  rw [declareClass_eq]
  refine (behaves_findSuperclass sound name superclass).beforeOpen ?_
  rintro parent after - advances ⟨isParent, agree⟩
  rw [← advances.active]
  refine (behaves_establishClass advances.sound
    (knows.later advances.precedes) places
    (fits.advance sound advances) isName isParent agree).weaken ?_
  intro _ last _ _ declares others fitsOthers
  exact declares others (fitsOthers.advance sound advances)

end Run

namespace Machine

/-- The machine once a program is compiled and its distances are filed. -/
def load (machine : Machine) (program : Program) (next : NodeId) : Machine :=
  { machine with nextNode := next }.learn program.distances

variable (sound : machine.Sound offered context) {source : ByteArray}
  {next : NodeId}

include sound

/-- A source that is rejected uses up identities and nothing else. -/
theorem advances_rejected
    {error : StaticError}
    (rejected :
      Program.compile source machine.nextNode = (.error error, next)) :
    machine.Advances offered context none
      { machine with nextNode := next } := by
  have rises := Program.compile_rises source machine.nextNode
  rw [rejected] at rises
  have precedes : machine.Precedes { machine with nextNode := next } :=
    ⟨.refl _, rises, fun _ _ => rfl⟩
  refine ⟨precedes, sound.grow precedes ?_ (fun _ _ _ => .inl)
    fun _ _ _ => .inl, rfl, .refl _ _⟩
  intro id above
  exact sound.unfiled id (Nat.le_trans rises above)

/-- A program that is loaded is known, and no other program's distances
change. -/
theorem advances_load
    {program : Program}
    (isOffered : offered source)
    (accepted : Program.compile source machine.nextNode = (.ok program, next)) :
    machine.Advances offered context none (machine.load program next) ∧
      (machine.load program next).Knows offered program := by
  have rises := Program.compile_rises source machine.nextNode
  rw [accepted] at rises
  have compiled := Program.compiled_of_compile accepted
  have table (id : NodeId) : (machine.load program next).distances[id]? =
      (program.distances[id]?).or machine.distances[id]? :=
    Std.TreeMap.getElem?_union
  have precedes : machine.Precedes (machine.load program next) := by
    refine ⟨.refl _, rises, fun id below => ?_⟩
    rw [table, compiled.unfiled (.inl below), Option.none_or]
  refine ⟨⟨precedes, sound.grow precedes ?_ (fun _ _ _ => .inl)
    fun _ _ _ => .inl, rfl,
    .refl _ _⟩, source, machine.nextNode, next, isOffered, accepted,
      Nat.le_refl _, ?_⟩
  · intro id above
    rw [table, compiled.unfiled (.inr above),
      sound.unfiled id (Nat.le_trans rises above)]
    rfl
  · intro id above _
    rw [table, sound.unfiled id above, Option.or_none]

end Machine

namespace Run

/-- A source is compiled in one step. -/
theorem modifyGet_compile
    {machine : Machine}
    {source : ByteArray}
    {verdict : Except StaticError Program}
    {next : NodeId}
    (outcome : Program.compile source machine.nextNode = (verdict, next)) :
    (modifyGet fun machine => machine.compile source : Run _) machine =
      .ok verdict { machine with nextNode := next } := by
  rw [modifyGet_eq]
  simp only [Machine.compile, outcome]

/-- What is loaded is the program of an accepted source. -/
theorem accepted_of_loadRequired
    {context : Context}
    {keyword : Token}
    {path : String}
    {machine loaded : Machine}
    {program : Program}
    (loads : loadRequired context keyword path machine = .ok program loaded) :
    ∃ source next, context.library path = .ok source ∧
      Program.compile source machine.nextNode = (.ok program, next) := by
  unfold loadRequired at loads
  cases absent : machine.requiring.contains path with
  | true =>
      rw [bind_get, absent] at loads
      cases loads
  | false =>
      rw [bind_get, absent, if_neg Bool.false_ne_true] at loads
      cases found : context.library path with
      | error failure =>
          rw [found] at loads
          cases loads
      | ok source =>
          cases outcome : Program.compile source machine.nextNode with
          | mk verdict next =>
              rw [found] at loads
              cases verdict with
              | error error =>
                  cases (bind_of_ok (modifyGet_compile outcome)).symm.trans
                    loads
              | ok other =>
                  cases (bind_of_ok (modifyGet_compile outcome)).symm.trans
                    loads
                  exact ⟨source, next, rfl, outcome⟩

/-- Loading a required source. -/
theorem behaves_loadRequired
    (sound : machine.Sound offered context)
    (keyword : Token)
    (path : String) :
    Behaves offered context none (loadRequired context keyword path) machine
      fun program after => after.Knows offered program := by
  unfold loadRequired
  extract_lets failWith goOn
  refine Behaves.look ?_
  split
  · exact .ofFail sound _
  · unfold goOn
    split
    · exact .ofFail sound _
    · rename_i source isSource
      cases outcome : Program.compile source machine.nextNode with
      | mk verdict next =>
          have compiles := modifyGet_compile outcome
          cases verdict with
          | error error =>
              exact .ofError (bind_of_ok compiles)
                (machine.advances_rejected sound outcome)
          | ok program =>
              obtain ⟨advances, knows⟩ :=
                machine.advances_load sound
                  (sound.sources path source isSource) outcome
              exact .ofOk (bind_of_ok compiles) advances knows

end Run

end LoxScript
