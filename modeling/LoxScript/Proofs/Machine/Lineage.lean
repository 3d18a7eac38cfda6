import LoxScript.Proofs.Machine.Governed
import LoxScript.Proofs.Machine.Seals
import LoxScript.Proofs.Seclusion.State

namespace LoxScript

/-!
# Where methods come from

Code stands in a method or outside of all classes.  A method was made by a class
declaration that was executed, and if the class has a superclass the method sees
a frame with that superclass.  What stands in a method is executed below a frame
with the instance that the method was bound to, as many frames further down as
it stands scopes deep in the method.
-/

open Run

section Lineage

variable (noted : Stage → Prop)

/-- The method was made by a class declaration that was executed in the machine
`declaring`; it sees the superclass that the class had then. -/
structure Function.MadeBy
    (method : Function)
    (name : Token)
    (superclass : Option SuperclassRef)
    (methods : List FunctionDecl)
    (declaring machine : Machine) : Prop where
  notes : noted (.task (.exec (.classDecl name superclass methods)) declaring)
  visits :
    ∃ program analysis, machine.Knows (fun _ => True) program ∧
      program.Visits (.stmt (.classDecl name superclass methods)) analysis
  member : method.declaration ∈ methods
  initializer : method.isInitializer = method.declaration.isInitializer
  inherits :
    ∀ named ∈ superclass, ∃ found framed,
      noted (.inherited named found declaring framed) ∧
        method.closure = declaring.store.nextFrame ∧
        machine.store.frames[method.closure]? =
          some (.ofSuper found declaring.active)

/-- Some class declaration made the method, under this name. -/
def Function.IsMethod (method : Function) (machine : Machine)
    (wanted : String) : Prop :=
  method.declaration.name.lexeme = wanted ∧
    ∃ name superclass methods declaring,
      method.MadeBy noted name superclass methods declaring machine

/-- The method, found under the name, was bound to the instance: the frame for
`this` is there. -/
structure Machine.Binds
    (machine : Machine)
    (wanted : String)
    (method : Function)
    (object : Instance)
    (bound : Function)
    (before after : Machine) : Prop where
  notes : noted (.bound wanted method object bound before after)
  isMethod : method.IsMethod noted machine wanted
  declaration : bound.declaration = method.declaration
  closure : bound.closure = before.store.nextFrame
  frame : machine.store.frames[bound.closure]? =
    some (.ofThis object method.closure)

/-- The part stands outside of classes or in a method, and in a method the frame
is as many frames below the one for `this` as the part stands deep in the
method. -/
inductive Machine.Houses (machine : Machine) (frame : FrameId) (part : Part) :
    Prop where
  | outside {program depth} :
      machine.Knows (fun _ => True) program →
      (Part.stmts program.statements).Inside part depth →
      Houses machine frame part
  | inside {wanted method object bound before after depth} :
      machine.Binds noted wanted method object bound before after →
      (Part.function bound.declaration).Inside part depth →
      machine.store.ancestor? frame depth = some bound.closure →
      Houses machine frame part

/-- The function's own frame houses its declaration. -/
def Function.Descends (machine : Machine) (function : Function) : Prop :=
  machine.Houses noted function.closure (.function function.declaration)

/-- The methods of the class and of its superclasses were made by class
declarations. -/
def Class.Descends (machine : Machine) (blueprint : Class) : Prop :=
  ∀ wanted method, blueprint.findMethod? wanted = some method →
    method.IsMethod noted machine wanted

/-- Whatever can be called through the value has come about in this way. -/
def Value.Descends (machine : Machine) : Value → Prop
  | .function called => called.Descends noted machine
  | .blueprint called => called.Descends noted machine
  | .object held => held.blueprint.Descends noted machine
  | _ => True

/-- Everything that the machine holds has come about in this way, and so has
what natives may give it. -/
structure Machine.Lineal (natives : List HostNative) (machine : Machine) :
    Prop where
  rooted : machine.store.Rooted
  unfiled : machine.Unfiled
  holds : machine.store.Holds (Value.Descends noted machine)
  natives :
    ∀ native ∈ natives, ∀ arguments world value after,
      native.body arguments world = (.ok value, after) →
        value.IsAtom ∨ value ∈ arguments ∨ value.Descends noted machine

/-- Code is executed in open frames that house it, and sealed frames stay as
they are. -/
def Machine.lineage (natives : List HostNative) : Regime where
  keeps := Machine.Upholds
  intact := Machine.Lineal noted natives
  function machine called := called.Descends noted machine
  method machine wanted method := method.IsMethod noted machine wanted
  blueprint machine called := called.Descends noted machine
  object machine held := held.blueprint.Descends noted machine
  fresh _ _ := True
  hosts machine frame part := machine.Houses noted frame part ∧
    machine.store.Opens frame

end Lineage

variable {noted : Stage → Prop} {natives : List HostNative}
  {before after machine : Machine}
variable {frame : FrameId} {part other : Part} {value : Value}

section Later

variable (upholds : before.Upholds after)

include upholds

theorem Function.MadeBy.later
    {method : Function}
    {name : Token}
    {superclass : Option SuperclassRef}
    {methods : List FunctionDecl}
    {declaring : Machine}
    (madeBy : method.MadeBy noted name superclass methods declaring before) :
    method.MadeBy noted name superclass methods declaring after where
  notes := madeBy.notes
  visits := by
    obtain ⟨program, analysis, knows, visits⟩ := madeBy.visits
    exact ⟨program, analysis, knows.recalled upholds.recalls, visits⟩
  member := madeBy.member
  initializer := madeBy.initializer
  inherits named isNamed := by
    obtain ⟨found, framed, notes, closure, isFrame⟩ :=
      madeBy.inherits named isNamed
    exact ⟨found, framed, notes, closure,
      upholds.store.seals _ _ .super isFrame⟩

theorem Function.IsMethod.later
    {method : Function}
    {wanted : String}
    (isMethod : method.IsMethod noted before wanted) :
    method.IsMethod noted after wanted := by
  obtain ⟨isNamed, name, superclass, methods, declaring, madeBy⟩ := isMethod
  exact ⟨isNamed, name, superclass, methods, declaring, madeBy.later upholds⟩

theorem Machine.Binds.later
    {wanted : String}
    {method bound : Function}
    {object : Instance}
    {start last : Machine}
    (binds : before.Binds noted wanted method object bound start last) :
    after.Binds noted wanted method object bound start last where
  notes := binds.notes
  isMethod := binds.isMethod.later upholds
  declaration := binds.declaration
  closure := binds.closure
  frame := upholds.store.seals _ _ .this binds.frame

theorem Machine.Houses.later
    (houses : before.Houses noted frame part) :
    after.Houses noted frame part := by
  cases houses with
  | outside knows inside =>
      exact .outside (knows.recalled upholds.recalls) inside
  | inside binds inside isSeat =>
      exact .inside (binds.later upholds) inside (upholds.store.ancestor isSeat)

theorem Class.Descends.later
    {blueprint : Class}
    (descends : blueprint.Descends noted before) :
    blueprint.Descends noted after :=
  fun wanted method found => (descends wanted method found).later upholds

/-- What has come about in this way has done so for ever. -/
theorem Value.Descends.later
    (descends : value.Descends noted before) :
    value.Descends noted after := by
  cases value with
  | function function => exact Machine.Houses.later upholds descends
  | blueprint blueprint => exact Class.Descends.later upholds descends
  | object object => exact Class.Descends.later upholds descends
  | _ => trivial

end Later

/-- The regime asks of values what is asked here. -/
theorem Machine.lineage_value_iff :
    (Machine.lineage noted natives).value machine value ↔
      value.Descends noted machine := by
  cases value <;> exact Iff.rfl

namespace Machine.Houses

/-- What is done where a part is, is done in the same frame. -/
theorem covered
    (houses : machine.Houses noted frame part)
    (covers : part.Covers other) :
    machine.Houses noted frame other := by
  cases houses with
  | outside knows inside => exact .outside knows (.covered inside covers)
  | inside binds inside isSeat =>
      exact .inside binds (.covered inside covers) isSeat

/-- What stands one scope deeper is executed in a new frame. -/
theorem allocate
    {added : Frame}
    (houses : machine.Houses noted frame part)
    (isParent : added.parent = some frame)
    (deeper :
      ∀ (whole : Part) depth, whole.Inside part depth →
        whole.Inside other (depth + 1)) :
    Houses noted { machine with store := machine.store.allocate added }
      machine.store.nextFrame other := by
  have upholds :
      machine.Upholds { machine with store := machine.store.allocate added } :=
    .ofStore (.allocate machine.store added)
  cases houses.later upholds with
  | outside knows inside => exact .outside knows (deeper _ _ inside)
  | inside binds inside isSeat =>
      refine .inside binds (deeper _ _ inside) ?_
      rw [Store.ancestor?, Store.parent?_allocate_nextFrame, isParent]
      exact isSeat

/-- The part is one of a program that was compiled. -/
theorem visits
    (houses : machine.Houses noted frame part) :
    ∃ program analysis, machine.Knows (fun _ => True) program ∧
      program.Visits part analysis := by
  cases houses with
  | @outside program depth knows inside =>
      obtain ⟨first, next, compiled, -⟩ := knows.compiled
      obtain ⟨analysis, visits, -⟩ := compiled.visits_inside .here inside
      exact ⟨program, analysis, knows, visits⟩
  | inside binds inside isSeat =>
      obtain ⟨-, name, superclass, methods, declaring, madeBy⟩ := binds.isMethod
      obtain ⟨program, around, knows, visitsClass⟩ := madeBy.visits
      obtain ⟨first, next, compiled, -⟩ := knows.compiled
      obtain ⟨start, visitsMethod, -⟩ :=
        compiled.visits_method visitsClass _ madeBy.member
      rw [binds.declaration] at inside
      obtain ⟨analysis, visits, -⟩ := compiled.visits_inside visitsMethod inside
      exact ⟨program, analysis, knows, visits⟩

/-- So it is orderly. -/
theorem orderly
    (houses : machine.Houses noted frame part) :
    part.Orderly := by
  obtain ⟨program, analysis, knows, visits⟩ := houses.visits
  obtain ⟨first, next, compiled, -⟩ := knows.compiled
  exact compiled.part_orderly visits

/-- And no script has given it `this` or `super` to assign to. -/
theorem isName_of_assign
    {id : NodeId}
    {name : Token}
    {expr : Expr}
    (houses : machine.Houses noted frame (.expr (.assign id name expr))) :
    name.IsName := by
  obtain ⟨program, analysis, knows, visits⟩ := houses.visits
  obtain ⟨first, next, compiled, -⟩ := knows.compiled
  exact (compiled.node_handed visits rfl).2

end Machine.Houses

namespace Machine.Lineal

variable (lineal : machine.Lineal noted natives)

include lineal

/-- Nothing else gets into the machine. -/
theorem grow
    (upholds : machine.Upholds after)
    (holds : after.store.Holds (Value.Descends noted machine)) :
    (Machine.lineage noted natives).Moves machine after where
  keeps := upholds
  intact :=
    { rooted := upholds.store.rooted lineal.rooted
      unfiled := upholds.recalls.unfiled lineal.unfiled
      holds := holds.weaken fun _ descends => descends.later upholds
      natives := fun native member arguments world value next yields =>
        (lineal.natives native member arguments world value
          next yields).imp_right
          fun known => known.imp_right fun descends => descends.later upholds }

/-- A new frame with values that have come about so. -/
theorem allocate
    {added : Frame}
    (contents :
      ∀ name value, added.bindings.find? name = some value →
        value.Descends noted machine) :
    (Machine.lineage noted natives).Moves machine
      { machine with store := machine.store.allocate added } :=
  lineal.grow (.ofStore (.allocate machine.store added))
    (lineal.holds.allocate contents)

/-- A new frame with one name. -/
theorem allocateSingle
    (descends : value.Descends noted machine)
    (name : String)
    (parent : FrameId) :
    (Machine.lineage noted natives).Moves machine
      { machine with
        store := machine.store.allocate
          ⟨NameMap.empty.insert name value, some parent⟩ } :=
  lineal.allocate fun _ _ isHeld => (Frame.held_single isHeld).2 ▸ descends

/-- A name of an open frame gets a value that has come about so. -/
theorem define
    {name : String}
    (opens : machine.store.Opens frame)
    (permitted : machine.store.parent? frame = none ∨ ¬ Reserved name)
    (descends : value.Descends noted machine) :
    (Machine.lineage noted natives).Moves machine
      { machine with store := machine.store.define frame name value } :=
  lineal.grow (.ofStore (.define opens permitted value))
    (lineal.holds.define descends frame name)

/-- An identity is handed out. -/
theorem skipIdentity :
    (Machine.lineage noted natives).Moves machine
      { machine with store := machine.store.skipIdentity } :=
  lineal.grow (.aside rfl rfl rfl) ⟨lineal.holds.values, lineal.holds.fields⟩

/-- Nothing but variables and fields counts, and how the nodes are numbered. -/
theorem renumber
    (store : after.store = machine.store)
    (recalls : machine.Recalls after) :
    (Machine.lineage noted natives).Moves machine after := by
  refine lineal.grow ⟨?_, recalls⟩ ?_
  · rw [store]
    exact .refl _
  · rw [store]
    exact lineal.holds

/-- What the natives may yield. -/
theorem ofNative
    {slot : Nat}
    {arguments : List Value}
    {world next : World}
    (areValues : ∀ argument ∈ arguments, argument.Descends noted machine)
    (performed :
      performNative natives slot arguments world = (.ok value, next)) :
    value.Descends noted machine := by
  obtain ⟨native, member, body⟩ := performNative_eq_ok performed
  rcases lineal.natives native member _ _ _ _ body with
    isAtom | passed | descends
  · have isValue : (Machine.lineage noted natives).value machine value :=
      Regime.value_of_isAtom isAtom
    exact Machine.lineage_value_iff.mp isValue
  · exact areValues value passed
  · exact descends

/-- A method that is bound to an instance has come about so. -/
theorem bind
    {wanted : String}
    {method bound : Function}
    {object : Instance}
    (isMethod : method.IsMethod noted machine wanted)
    (isObject : (Value.object object).Descends noted machine)
    (binds : Run.bind method object machine = .ok bound after)
    (notes : noted (.bound wanted method object bound machine after)) :
    (Machine.lineage noted natives).Moves machine after ∧
      bound.Descends noted after := by
  have allocates : (Machine.lineage noted natives).Moves machine
      { machine with
        store := machine.store.allocate (.ofThis object method.closure) } :=
    lineal.allocateSingle isObject "this" method.closure
  have skips := allocates.intact.skipIdentity
  have upholds := allocates.keeps.trans skips.keeps
  cases binds
  refine ⟨⟨upholds, skips.intact⟩, .inside ⟨notes, ?_, rfl, rfl, ?_⟩ .here rfl⟩
  · exact isMethod.later upholds
  · exact Array.getElem?_push_size

end Machine.Lineal

/-- Where a class is declared, functions that are made of its methods are
methods. -/
theorem Machine.Houses.isMethod
    {name : Token}
    {superclass : Option SuperclassRef}
    {methods : List FunctionDecl}
    {declaration : FunctionDecl}
    {closure : FrameId}
    {framed : Machine}
    (houses :
      machine.Houses noted frame (.stmt (.classDecl name superclass methods)))
    (notes : noted (.task (.exec (.classDecl name superclass methods)) machine))
    (upholds : machine.Upholds framed)
    (inherits :
      ∀ named ∈ superclass, ∃ found,
        noted (.inherited named found machine framed) ∧
        closure = machine.store.nextFrame ∧
        framed.store.frames[closure]? = some (.ofSuper found machine.active))
    (member : declaration ∈ methods)
    (identity : Nat) :
    Function.IsMethod noted
      ⟨identity, declaration, closure, declaration.isInitializer⟩ framed
      declaration.name.lexeme := by
  obtain ⟨program, analysis, knows, visits⟩ := houses.visits
  refine ⟨rfl, name, superclass, methods, machine, notes, ?_, member, rfl,
    fun named isNamed => ?_⟩
  · exact ⟨program, analysis, knows.recalled upholds.recalls, visits⟩
  · obtain ⟨found, notesFrame, place, isFrame⟩ := inherits named isNamed
    exact ⟨found, framed, notesFrame, place, isFrame⟩

/-- A class descends if its own methods are methods and its superclass
descends. -/
theorem Class.descends
    {identity : Nat}
    {name : String}
    {parent : Option Class}
    {table : NameMap Function}
    (isParent : ∀ found ∈ parent, Class.Descends noted machine found)
    (areMethods :
      ∀ wanted method, table.find? wanted = some method →
        method.IsMethod noted machine wanted) :
    Class.Descends noted machine ⟨identity, name, parent, table⟩ := by
  intro wanted method isFound
  cases parent with
  | none => exact areMethods wanted method isFound
  | some found =>
      simp only [Class.findMethod?] at isFound
      split at isFound
      · cases isFound
        exact areMethods wanted _ ‹_›
      · exact isParent found rfl wanted method isFound

/-- The frame of a call is not sealed: it has the names of parameters only. -/
theorem Machine.Houses.open_callFrame
    {function : Function}
    (houses : machine.Houses noted frame (.function function.declaration))
    (arguments : List Value) :
    ¬ (callFrame function arguments).Sealed := by
  obtain ⟨_, ⟨_, params, body⟩, _, _⟩ := function
  have orderly := houses.orderly
  simp only [Part.Orderly, FunctionDecl.Orderly] at orderly
  refine Frame.Sealed.absent fun name value isHeld => ?_
  have isParam := (List.of_mem_zip (NameMap.mem_of_find?_ofList isHeld)).1
  obtain ⟨param, member, rfl⟩ := List.mem_map.mp isParam
  exact (orderly.1 param member).notReserved

/-- The methods of a class that is declared. -/
theorem Machine.Lineal.methods
    {name : Token}
    {superclass : Option SuperclassRef}
    {methods : List FunctionDecl}
    {parent : Option Class}
    {closure : FrameId}
    {framed : Machine}
    (houses :
      machine.Houses noted frame (.stmt (.classDecl name superclass methods)))
    (notes : noted (.task (.exec (.classDecl name superclass methods)) machine))
    (finds : findSuperclass name superclass machine = .ok parent machine)
    (isParent : ∀ found ∈ parent, found.Descends noted machine)
    (moves : (Machine.lineage noted natives).Moves machine
      (machine.defining name .nil))
    (frames : methodFrame parent (machine.defining name .nil) =
      .ok closure framed)
    (inherits :
      ∀ named ∈ superclass, ∀ found ∈ parent,
        noted (.inherited named found machine framed)) :
    (Machine.lineage noted natives).Moves (machine.defining name .nil) framed ∧
      ∀ declaration ∈ methods, ∀ identity,
        Function.IsMethod noted
          ⟨identity, declaration, closure, declaration.isInitializer⟩ framed
          declaration.name.lexeme := by
  cases superclass with
  | none =>
      cases finds
      cases frames
      exact ⟨⟨.refl _, moves.intact⟩, fun declaration member identity =>
        houses.isMethod notes moves.keeps nofun member identity⟩
  | some named =>
      obtain ⟨found, -, rfl⟩ := map_eq_ok_iff.mp finds
      have isSuper : (Value.blueprint found).Descends noted
          (machine.defining name .nil) :=
        Class.Descends.later moves.keeps (isParent found rfl)
      cases frames
      have movesOn :=
        moves.intact.allocateSingle isSuper "super"
          (machine.defining name .nil).active
      refine ⟨movesOn, fun declaration member identity =>
        houses.isMethod notes (moves.keeps.trans movesOn.keeps) ?_
          member identity⟩
      rintro _ ⟨⟩
      exact ⟨found, inherits named rfl found rfl, Store.nextFrame_define ..,
        Array.getElem?_push_size⟩

/-- The laws hold, and what is passed may be noted. -/
theorem Machine.lawful_lineage
    (noted : Stage → Prop)
    (context : Context) :
    (Machine.lineage noted context.natives).Lawful context noted where
  refl := Upholds.refl
  trans upholds upholdsNext := upholds.trans upholdsNext
  aside store distances nextNode :=
    .aside (congrArg Store.frames store) distances nextNode
  intactAside store distances nextNode lineal :=
    (lineal.renumber store (.ofSame nextNode distances)).intact
  laterFunction upholds descends := Machine.Houses.later upholds descends
  laterMethod upholds isMethod := isMethod.later upholds
  laterBlueprint upholds descends := Class.Descends.later upholds descends
  laterObject upholds descends := Class.Descends.later upholds descends
  laterCode upholds hosts :=
    ⟨hosts.1.later upholds, upholds.store.opens _ hosts.2⟩
  laterFresh _ isFresh := isFresh
  covered hosts covers := ⟨hosts.1.covered covers, hosts.2⟩
  readLocal lineal _ isFound := by
    unfold Store.lookupAt? at isFound
    split at isFound
    · exact Machine.lineage_value_iff.mpr (lineal.holds.values _ _ _ isFound)
    · cases isFound
  readGlobal lineal isFound :=
    Machine.lineage_value_iff.mpr (lineal.holds.values _ _ _ isFound)
  readField lineal _ isFound :=
    Machine.lineage_value_iff.mpr (lineal.holds.fields _ _ _ isFound)
  readThis lineal _ isFound :=
    Machine.lineage_value_iff.mpr (lineal.holds.values _ _ _ isFound)
  classOf descends := descends
  methodOf descends isFound := descends _ _ isFound
  native _ lineal areValues performed :=
    Machine.lineage_value_iff.mpr (lineal.ofNative
      (fun argument member => Machine.lineage_value_iff.mp
        (areValues argument member)) performed)
  define lineal hosts isDeclared isValue := by
    have isName := Stmt.isName_of_declared? hosts.1.orderly _ isDeclared
    exact lineal.define hosts.2 (.inr isName.notReserved)
      (Machine.lineage_value_iff.mp isValue)
  assign lineal hosts isValue isHolder := by
    have isName := hosts.1.isName_of_assign
    refine lineal.define (Store.opens_of_holds ?_ isName.notReserved)
      (.inr isName.notReserved) (Machine.lineage_value_iff.mp isValue)
    rcases isHolder with ⟨distance, isFound⟩ | ⟨rfl, isHeld⟩
    · exact Store.holds_of_holderAt? isFound
    · exact isHeld
  setField lineal _ isValue :=
    lineal.grow (.aside rfl rfl rfl)
      (lineal.holds.setField (Machine.lineage_value_iff.mp isValue) _ _)
  skipIdentity lineal := ⟨lineal.skipIdentity, trivial⟩
  allocateInstance := fun {machine _} lineal descends => by
    have moves : (Machine.lineage noted context.natives).Moves machine
        { machine with store := machine.store.allocateInstance } :=
      lineal.grow (.aside rfl rfl rfl) lineal.holds.allocateInstance
    exact ⟨moves, Class.Descends.later moves.keeps descends⟩
  block lineal hosts := by
    refine ⟨lineal.allocate ?_, hosts.1.allocate rfl fun _ _ => .block,
      Store.opens_allocate ?_⟩
    · exact fun _ _ absent => by cases absent
    · exact Frame.Sealed.absent fun _ _ absent => by cases absent
  call lineal houses areValues := by
    refine ⟨lineal.allocate ?_, houses.allocate rfl fun _ _ => .body,
      Store.opens_allocate ?_⟩
    · exact fun name value isHeld =>
        Machine.lineage_value_iff.mp
          (areValues value (mem_of_find?_callFrame isHeld))
    · exact houses.open_callFrame _
  bind lineal isMethod isObject binds notes :=
    lineal.bind isMethod isObject binds notes
  closure _ hosts _ _ := by
    cases hosts.1 with
    | outside knows inside => exact .outside knows (.declaration inside)
    | inside binds inside isSeat =>
        exact .inside binds (.declaration inside) isSeat
  methods _ hosts notes finds isParent moves frames inherits := by
    obtain ⟨movesOn, areMethods⟩ :=
      Machine.Lineal.methods hosts.1 notes finds isParent moves frames inherits
    exact ⟨movesOn, fun declaration member _ upholds identity _ =>
      (areMethods declaration member identity).later upholds⟩
  assemble _ isParent areMethods := Class.descends isParent areMethods
  rejected := fun {machine source error next} lineal rejected => by
    have rises := Program.compile_rises source machine.nextNode
    rw [rejected] at rises
    exact lineal.renumber rfl (.hand rises)
  loaded := fun {machine source program next} lineal accepted => by
    have moves : (Machine.lineage noted context.natives).Moves machine
        (machine.load program next) :=
      lineal.renumber rfl (.load accepted)
    refine ⟨moves, .outside ⟨source, machine.nextNode, next, trivial, accepted,
      Nat.le_refl _, ?_⟩ .here, moves.intact.rooted.opens⟩
    exact fun id above _ => lineal.unfiled.loaded program next above

end LoxScript
