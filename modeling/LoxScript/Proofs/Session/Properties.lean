import Mathlib
import LoxScript.Proofs.Machine.Presence
import LoxScript.Proofs.Session.Globals

namespace LoxScript

/-!
# Properties follow their history

At every moment of a session, a property of an instance is the value that was
stored last in the field of that name, whichever way the instance was referred
to.  If there is none, it is the method of the nearest class that has one, bound
to the instance by a function that is made for that.
-/

open Run

/-- The class and its superclasses, nearest first. -/
def Class.ancestry : Class → List Class
  | ⟨identity, name, none, methods⟩ => [⟨identity, name, none, methods⟩]
  | ⟨identity, name, some superclass, methods⟩ =>
      ⟨identity, name, some superclass, methods⟩ :: superclass.ancestry

/-- The method of the nearest class that has one of this name. -/
def Class.nearestMethod? (blueprint : Class) (name : String) :
    Option Function :=
  blueprint.ancestry.findSome? fun ancestor => ancestor.methods.find? name

/-- Methods are looked up from the nearest class on. -/
theorem Class.findMethod?_eq_nearestMethod?
    (blueprint : Class)
    (name : String) :
    blueprint.findMethod? name = blueprint.nearestMethod? name := by
  unfold nearestMethod?
  fun_induction Class.findMethod? name blueprint with
  | case1 identity title methods =>
      cases found : methods.find? name <;> simp [ancestry, found]
  | case2 identity title superclass methods method own =>
      simp [ancestry, own]
  | case3 identity title superclass methods absent inductionHypothesis =>
      simp [ancestry, absent, inductionHypothesis]

/-- The function is held by a variable or a field at the moment of the deed, by
itself or as a method, or it is in the value of the expression that the deed is
about. -/
def Deed.Knows (function : Function) (deed : Deed) : Prop :=
  (∃ place, deed.machine.store.Links place (.function function.identity)) ∨
    ∃ expr value machine,
      deed = .yielded expr value machine ∧
        value.Shows (.function function.identity)

/-- What a property is: what is stored, or else the nearest method, bound to the
instance by a function that none of the deeds knows, or else it is undefined. -/
structure Machine.Gives
    (machine : Machine)
    (object : Instance)
    (name : Token)
    (stored : Option Value)
    (deeds : List Deed) : Prop where
  field : ∀ value, stored = some value →
    getProperty object name machine = .ok value machine
  method :
    ∀ found, stored = none → object.blueprint.nearestMethod? name.lexeme =
      some found →
      ∃ bound after,
        getProperty object name machine = .ok (.function bound) after ∧
          bound.declaration = found.declaration ∧
          bound.isInitializer = found.isInitializer ∧
          after.store.frames[bound.closure]? =
            some (.ofThis object found.closure) ∧
          ∀ function, ∀ deed ∈ deeds, deed.Knows function →
            function.identity ≠ bound.identity
  undefined :
    stored = none → object.blueprint.nearestMethod? name.lexeme = none →
      getProperty object name machine =
        .error (.failed (.undefinedProperty name.lexeme name.line)) machine

section Reading

variable {machine : Machine} {object : Instance} {name : Token}
  {deeds : List Deed}

/-- A property is read from the field, if there is one, or bound as a function
with the next identity. -/
theorem Machine.gives
    (known :
      ∀ function, ∀ deed ∈ deeds, deed.Knows function →
        function.identity < machine.store.nextIdentity) :
    machine.Gives object name (machine.store.field? object.identity name.lexeme)
      deeds where
  field value isStored := by
    rw [getProperty, bind_get, isStored]
    rfl
  method found absent isFound := by
    let bound : Function :=
      ⟨machine.store.nextIdentity, found.declaration, machine.store.nextFrame,
        found.isInitializer⟩
    have reads : getProperty object name machine =
        (.function <$> bind found object : Run Value) machine := by
      rw [getProperty, bind_get, absent, Class.findMethod?_eq_nearestMethod?,
        isFound]
      rfl
    exact ⟨bound, _, reads.trans rfl, rfl, rfl, Array.getElem?_push_size,
      fun function deed member knows =>
        Nat.ne_of_lt (known function deed member knows)⟩
  undefined absent isMissing := by
    rw [getProperty, bind_get, absent, Class.findMethod?_eq_nearestMethod?,
      isMissing]
    rfl

/-- Functions that a deed knows have been made, if all that is held then is
there. -/
theorem Deed.Knows.made
    {natives : List HostNative}
    {deed : Deed}
    {function : Function}
    (knows : deed.Knows function)
    (permits : (Machine.furnishing natives).permits deed) :
    function.identity < deed.machine.store.nextIdentity := by
  have made {store : Store} {value : Value} (present : value.Present store)
      (shows : value.Shows (.function function.identity)) :
      function.identity < store.nextIdentity :=
    Nat.not_le.mp (present _ shows)
  have furnished : deed.machine.Furnished natives := by
    cases deed with
    | task _ _ | included _ _ | declared _ _ _ | merged _ _ => exact permits
    | set _ _ _ _ | yielded _ _ _ => exact permits.1
  rcases knows with ⟨place, links⟩ | ⟨expr, value, machine, rfl, shows⟩
  · cases links with
    | held isFound shows =>
        exact made (furnished.holds.values _ _ _ isFound) shows
    | field isFound shows =>
        exact made (furnished.holds.fields _ _ _ isFound) shows
  · exact made (Machine.furnishing_value_iff.mp permits.2) shows

end Reading

/-- Fields are set of instances that are there. -/
theorem Deed.effective_of_permits
    {natives : List HostNative}
    {deed : Deed}
    (permits : (Machine.furnishing natives).permits deed) :
    deed.Effective := by
  cases deed with
  | set held name value machine => exact Nat.not_le.mp (permits.2.1 _ .object)
  | _ => trivial

section Permits

variable {regime : Regime} {context : Context} {allowed : Stage → Prop}
variable {stopping : Stopping} {steps : Nat} {statements : List Stmt}
  {machine : Machine}
variable {natives : List HostNative} {session : Session} {deed : Deed}

/-- All that is done by statements that are run one after another is as the
regime asks. -/
theorem Regime.Lawful.permits_runStatements
    (lawful : regime.Lawful context fun _ => True)
    (seats : regime.Seats machine (.stmts statements))
    (member : deed ∈ statementDeeds context stopping steps statements machine) :
    regime.permits deed := by
  induction statements generalizing machine with
  | nil => cases member
  | cons first rest inductionHypothesis =>
      have here := seats.covered lawful (.included .firstStmt)
      have starts : regime.Starts context (fun _ => True) steps
          (.exec first) machine :=
        ⟨here.intact, here.hosts, fun _ _ => trivial⟩
      unfold statementDeeds at member
      split at member
      · cases member
      · rcases List.mem_append.mp member with isFirst | isLater
        · exact starts.permits lawful isFirst
        · obtain ⟨flow, after, yields, isThere⟩ := mem_onwards_iff.mp isLater
          cases flow with
          | returned value => cases isThere
          | normal =>
              obtain ⟨passes, -⟩ :=
                Leads.ok (lawful.rules steps _ _ starts) yields
              have same :=
                (Machine.respected_sameContext.keeps_task context steps
                  (.exec first)).ok yields
              exact inductionHypothesis
                ((seats.covered lawful .rest).later lawful passes.moves same)
                isThere

/-- What is asked of a deed does not depend on the natives that there will
be. -/
theorem Regime.permits.forget
    (permits : (Machine.furnishing natives).permits deed) :
    (Machine.furnishing []).permits deed := by
  have forget {machine : Machine} (furnished : machine.Furnished natives) :
      machine.Furnished [] :=
    ⟨furnished.rooted, furnished.holds, by simp⟩
  cases deed with
  | task _ _ | included _ _ | declared _ _ _ | merged _ _ =>
      exact forget permits
  | set _ _ _ _ => exact ⟨forget permits.1, permits.2.1, permits.2.2⟩
  | yielded _ _ _ => exact ⟨forget permits.1, permits.2⟩

namespace Session

/-- Merging natives is as asked, and leaves a furnished machine. -/
theorem furnished_defineNatives
    (values : List Native)
    (furnished : machine.Furnished natives) :
    (Machine.furnishing natives).Moves machine (defineNatives values machine) ∧
      ∀ deed ∈ mergingDeeds values machine,
        (Machine.furnishing natives).permits deed := by
  induction values generalizing machine with
  | nil => exact ⟨furnished.aside rfl, by simp [mergingDeeds]⟩
  | cons native rest inductionHypothesis =>
      have isAtom : (Value.native native).IsAtom := trivial
      have merges : (Machine.furnishing natives).Moves machine
          (machine.defineGlobal native.name (.native native)) :=
        furnished.define (.ofAtom isAtom) globalFrame native.name
      obtain ⟨moves, permits⟩ := inductionHypothesis merges.intact
      exact ⟨⟨merges.keeps.trans moves.keeps, moves.intact⟩,
        List.forall_mem_cons.mpr ⟨merges.intact, permits⟩⟩

/-- The session is at rest, and its machine is furnished. -/
structure Furnished (session : Session) : Prop where
  machine : session.machine.Furnished session.natives
  rests : session.AtRest

namespace Furnished

variable (furnished : session.Furnished)

include furnished

/-- A run is as asked, and leaves a furnished machine. -/
theorem run
    (stopping : Stopping)
    (steps : Nat)
    (source : ByteArray) :
    (session.run stopping steps source).2.machine.Furnished session.natives ∧
      ∀ deed ∈ session.runDeeds stopping steps source,
        (Machine.furnishing session.natives).permits deed := by
  have lawful := Machine.lawful_furnishing session.context
  unfold runDeeds Session.run Machine.compile
  rcases compiled : Program.compile source session.machine.nextNode with
    ⟨error | program, next⟩
  · exact ⟨(lawful.rejected furnished.machine compiled).intact, by simp⟩
  · obtain ⟨loads, hosts⟩ := lawful.loaded furnished.machine compiled
    obtain ⟨defines, permitsMerging⟩ :=
      furnished_defineNatives session.registered.values loads.intact
    have seats := seats_prepared lawful furnished.rests defines hosts
    have passes := (lawful.passes_runStatements seats fun _ _ => trivial :
      (Machine.furnishing session.natives).Passes _
        (statementStages session.context stopping steps program.statements _) _)
    refine ⟨passes.moves.intact, fun deed member => ?_⟩
    rcases List.mem_append.mp member with isMerging | isRun
    · exact permitsMerging deed isMerging
    · rcases List.mem_cons.mp isRun with rfl | isDone
      · exact seats.intact
      · exact lawful.permits_runStatements seats isDone

/-- Where required sources come from does not count. -/
theorem beside
    (path : String) :
    (session.beside path).Furnished := by
  refine ⟨?_, ?_, ?_⟩ <;> simp only [machine_beside, natives_beside]
  · exact furnished.machine
  · exact furnished.rests.active
  · exact furnished.rests.requiring

/-- What the host does is as asked. -/
theorem permits_perform
    {action : HostAction}
    (member : deed ∈ session.actionDeeds action) :
    (Machine.furnishing session.natives).permits deed := by
  cases action with
  | register _ _ | withLibrary _ | withOutput _ | updateWorld _ => cases member
  | run stopping steps source =>
      exact (furnished.run stopping steps source).2 deed member
  | runFile steps path =>
      simp only [actionDeeds] at member
      split at member
      · cases member
      · have permits :=
          ((furnished.beside path).run .unheeding steps _).2 deed member
        rwa [natives_beside] at permits

/-- Afterwards, the session is furnished. -/
theorem perform
    {action : HostAction}
    (lends : ∀ key native, action = .register key native →
      native.Lends session.machine) :
    (session.perform action).Furnished := by
  refine ⟨?_, furnished.rests.perform action⟩
  cases action with
  | register key native =>
      obtain ⟨rooted, holds, natives⟩ := furnished.machine
      refine ⟨rooted, holds,
        fun other member arguments world value after yields => ?_⟩
      rcases List.mem_append.mp member with earlier | added
      · exact natives other earlier arguments world value after yields
      · rw [List.mem_singleton.mp added] at yields
        rcases lends key native rfl arguments world value after yields with
          isAtom | passed | ⟨frame, name, found⟩
        · exact .inl isAtom
        · exact .inr (.inl passed)
        · exact .inr (.inr (holds.values frame name value found))
  | withLibrary library => exact furnished.machine
  | withOutput _ | updateWorld _ =>
      obtain ⟨rooted, holds, natives⟩ := furnished.machine
      exact ⟨rooted, holds, natives⟩
  | run stopping steps source =>
      have intact := (furnished.run stopping steps source).1
      rwa [← natives_run session stopping steps source] at intact
  | runFile steps path =>
      cases readable : session.disk path with
      | error failure =>
          simp only [Session.perform, runFile, readable]
          exact furnished.machine
      | ok source =>
          have intact := ((furnished.beside path).run .unheeding steps source).1
          rw [← natives_run (session.beside path) .unheeding steps
            source] at intact
          simp only [Session.perform, runFile, readable]
          exact intact

/-- So is all that the host does, one after another. -/
theorem permits_performAll
    {actions : List HostAction}
    (lends : session.Lends actions)
    (member : deed ∈ session.deeds actions) :
    (Machine.furnishing []).permits deed := by
  induction actions generalizing session with
  | nil => cases member
  | cons action rest inductionHypothesis =>
      rcases List.mem_append.mp member with isFirst | isLater
      · exact (furnished.permits_perform isFirst).forget
      · exact inductionHypothesis (furnished.perform lends.1) lends.2 isLater

end Furnished

/-- A session that has run nothing yet is furnished. -/
theorem furnished_bare
    (disk : Disk)
    (output : Sink)
    (world : World) :
    (bare disk output world).Furnished :=
  ⟨⟨Nat.zero_lt_one, .initial _, nofun⟩, rfl, rfl⟩

variable {first between later : List Deed}

/-- Take any moment of a session, and divide the deeds before it so that the
later ones set nothing in this field of this instance: they may set other fields
and other instances, assign variables and declare classes.  Then a property is
what the earlier deeds stored last in the field, in whichever way they referred
to the instance.  If they stored nothing, it is the method of the nearest class
that has one, made into a function that was known nowhere until then, whose
closure has the instance as `this`.  If there is no such method, the property is
undefined at the line of its name. -/
theorem properties_follow_history
    (disk : Disk)
    (output : Sink)
    (world : World)
    {actions : List HostAction}
    (lends : (bare disk output world).Lends actions)
    (happens : (bare disk output world).deeds actions =
      (first ++ between) ++ deed :: later)
    (object : Instance)
    (name : Token)
    (unset :
      ∀ other ∈ between, other.sets? object.identity name.lexeme = none) :
    deed.machine.Gives object name
      (Deed.lastSet? object.identity name.lexeme first)
      (first ++ between ++ [deed]) := by
  have records := records_performAll (bare disk output world) actions
  have permits : ∀ other ∈ (bare disk output world).deeds actions,
      (Machine.furnishing []).permits other :=
    fun _ => (furnished_bare disk output world).permits_performAll lends
  rw [happens] at records permits
  have stored : deed.machine.store.field? object.identity name.lexeme =
      Deed.lastSet? object.identity name.lexeme first := by
    rw [records.field?_now fun other member =>
        Deed.effective_of_permits
          (permits other (List.mem_append_left _ member)),
      show (bare disk output world).machine.store = Store.initial from rfl,
      Store.field?_initial, Option.or_none, Deed.lastSet?_append]
    have nothing : Deed.lastSet? object.identity name.lexeme between =
        none := by
      rw [Deed.lastSet?, List.filterMap_eq_nil_iff.mpr unset, List.getLast?_nil]
    rw [nothing, Option.none_or]
  rw [← stored]
  refine Machine.gives fun function other member knows => ?_
  rcases List.mem_append.mp member with isEarlier | isNow
  · exact Nat.lt_of_lt_of_le
      (knows.made (permits other (List.mem_append_left _ isEarlier)))
      (records.retains_now isEarlier).identities
  · rw [List.mem_singleton.mp isNow] at knows
    exact knows.made (permits deed (List.mem_append_right _ (.head _)))

/-- An instance that two variables hold.  A field is set through the second one
and read through the first one, and in between another field is set. -/
def aliasing : List HostAction :=
  [.run .heeding 9
    ("class A \x7b \x7d var a = A(); " ++
      "var b = a; b.x = true; b.y = false; a.x;").toUTF8]

/-- The field that was set through one variable is what is read through the
other. -/
theorem field_is_shared_by_aliases :
    ∃ first between deed value,
      quiet.deeds aliasing = (first ++ between) ++ [deed] ∧
        Deed.lastSet? 0 "x" first = some value ∧
        (∀ other ∈ between, other.sets? 0 "x" = none) ∧
        ∀ blueprint : Class,
          getProperty ⟨0, blueprint⟩ ⟨.identifier "x", "x", 1⟩ deed.machine =
            .ok value deed.machine := by
  let first := (quiet.deeds aliasing).take 22
  let rest := (quiet.deeds aliasing).drop 22
  have goesOn : rest.isEmpty = false := by
    decide +kernel
  have isSet : (Deed.lastSet? 0 "x" first).isSome = true := by
    decide +kernel
  have isUnset : (rest.dropLast.all fun other => (other.sets? 0 "x").isNone) =
      true := by
    decide +kernel
  obtain ⟨value, stored⟩ := Option.isSome_iff_exists.mp isSet
  have unset : ∀ other ∈ rest.dropLast, other.sets? 0 "x" = none :=
    fun other member =>
      Option.isNone_iff_eq_none.mp (List.all_eq_true.mp isUnset other member)
  have lends : quiet.Lends aliasing := ⟨fun _ _ => nofun, trivial⟩
  have isThere : rest ≠ [] := List.isEmpty_eq_false_iff.mp goesOn
  have happens : quiet.deeds aliasing =
      (first ++ rest.dropLast) ++ [rest.getLast isThere] := by
    rw [List.append_assoc, List.dropLast_append_getLast]
    exact (List.take_append_drop 22 _).symm
  refine ⟨first, rest.dropLast, rest.getLast isThere, value, happens, stored,
    unset,
    fun blueprint => ?_⟩
  have gives := properties_follow_history _ _ _ lends happens
    ⟨0, blueprint⟩ ⟨.identifier "x", "x", 1⟩ unset
  exact gives.field value stored

end Session

end Permits

end LoxScript
