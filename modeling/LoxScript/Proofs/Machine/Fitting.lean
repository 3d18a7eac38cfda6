import LoxScript.Machine.Operators
import LoxScript.Proofs.Machine.Growth
import LoxScript.Proofs.Scope.Position

namespace LoxScript

/-!
# Frames that fit scopes

A chain of frames fits a list of scopes if it has one frame for each scope, each
with the names that are ready in the scope, and then the global frame.  A
function is sound if its own frame fits the scopes around its declaration in the
program it comes from; a machine is sound if all it holds is sound.  Both stay
true however the machine grows.
-/

/-- Only the evaluator itself defines `this` and `super`. -/
theorem Token.IsName.notReserved
    {token : Token}
    (isName : token.IsName) :
    ¬ Reserved token.lexeme := by
  rintro (same | same)
  · exact isName.ne_this same
  · exact isName.ne_super same

namespace Store

/-- The frame has what is ready in the scope: `this` is an instance and `super`
a class. -/
structure Matches (store : Store) (frame : FrameId) (scope : Scope) : Prop where
  names : ∀ name, scope.find? name = some true → store.holds frame name = true
  this :
    scope.contains "this" = true →
      ∃ object, store.lookup? frame "this" = some (.object object)
  super :
    scope.contains "super" = true →
      ∃ blueprint, store.lookup? frame "super" = some (.blueprint blueprint)

/-- The frames from this one on match the scopes one by one, and the global
frame follows. -/
def Fits (store : Store) : FrameId → List Scope → Prop
  | frame, [] => frame = globalFrame
  | frame, scope :: outer =>
      store.Matches frame scope ∧
        ∃ parent, store.parent? frame = some parent ∧ store.Fits parent outer

/-- There is a global frame, and it has no parent. -/
structure Rooted (store : Store) : Prop where
  present : globalFrame < store.nextFrame
  top : store.parent? globalFrame = none

variable {store before after : Store} {frame : FrameId}
  {scopes outer : List Scope}
variable {scope : Scope}

/-- A frame with a parent is not the global one. -/
theorem Rooted.ne_global
    {parent : FrameId}
    (rooted : store.Rooted)
    (found : store.parent? frame = some parent) :
    frame ≠ globalFrame := by
  rintro rfl
  rw [rooted.top] at found
  cases found

/-- The global frame stays where it is. -/
theorem Rooted.grow
    (rooted : before.Rooted)
    (grows : before.Grows after) :
    after.Rooted where
  present := Nat.lt_of_lt_of_le rooted.present grows.size
  top := (grows.parents globalFrame rooted.present).trans rooted.top

/-- A local frame goes on to have what is ready in a scope. -/
theorem Matches.grow
    (isMatch : before.Matches frame scope)
    (grows : before.Grows after)
    (isLocal : frame ≠ globalFrame) :
    after.Matches frame scope := by
  refine ⟨?_, ?_, ?_⟩
  · intro name ready
    exact grows.names frame name (isMatch.names name ready)
  · intro contained
    obtain ⟨object, found⟩ := isMatch.this contained
    exact ⟨object, grows.reserved frame "this" _ isLocal (.inl rfl) found⟩
  · intro contained
    obtain ⟨blueprint, found⟩ := isMatch.super contained
    exact ⟨blueprint, grows.reserved frame "super" _ isLocal (.inr rfl) found⟩

namespace Fits

/-- Frames that fit are there. -/
theorem present
    (fits : store.Fits frame scopes)
    (rooted : store.Rooted) :
    frame < store.nextFrame := by
  cases scopes with
  | nil =>
      cases fits
      exact rooted.present
  | cons scope outer =>
      obtain ⟨-, parent, found, -⟩ := fits
      exact lt_nextFrame_of_parent? found

/-- A frame that fits a local scope is not the global one. -/
theorem ne_global
    (fits : store.Fits frame (scope :: outer))
    (rooted : store.Rooted) :
    frame ≠ globalFrame := by
  obtain ⟨-, parent, found, -⟩ := fits
  exact rooted.ne_global found

/-- Frames that fit go on to fit. -/
theorem grow
    (fits : before.Fits frame scopes)
    (rooted : before.Rooted)
    (grows : before.Grows after) :
    after.Fits frame scopes := by
  induction scopes generalizing frame with
  | nil =>
      exact fits
  | cons scope outer inductionHypothesis =>
      have isLocal := fits.ne_global rooted
      obtain ⟨isMatch, parent, found, fitsOuter⟩ := fits
      refine ⟨isMatch.grow grows isLocal, parent, ?_,
        inductionHypothesis fitsOuter⟩
      rw [grows.parents frame (lt_nextFrame_of_parent? found)]
      exact found

/-- The frame a number of parents up matches the scope as many scopes out. -/
theorem ancestor
    {distance : Nat}
    (fits : store.Fits frame scopes)
    (atDistance : scopes[distance]? = some scope) :
    ∃ found, store.ancestor? frame distance = some found ∧
      store.Matches found scope := by
  induction scopes generalizing frame distance with
  | nil =>
      cases atDistance
  | cons first outer inductionHypothesis =>
      obtain ⟨isMatch, parent, isParent, fitsOuter⟩ := fits
      cases distance with
      | zero =>
          cases atDistance
          exact ⟨frame, rfl, isMatch⟩
      | succ further =>
          obtain ⟨found, isFound, isMatchFound⟩ :=
            inductionHypothesis fitsOuter atDistance
          exact ⟨found,
            by simpa [ancestor?, isParent] using isFound, isMatchFound⟩

/-- There are exactly as many frames above the global one as there are
scopes. -/
theorem ancestor_eq_global_iff
    (fits : store.Fits frame scopes)
    (rooted : store.Rooted)
    (distance : Nat) :
    store.ancestor? frame distance = some globalFrame ↔
      distance = scopes.length := by
  induction scopes generalizing frame distance with
  | nil =>
      cases fits
      cases distance with
      | zero => simp [ancestor?]
      | succ further => simp [ancestor?, rooted.top]
  | cons scope outer inductionHypothesis =>
      have isLocal := fits.ne_global rooted
      obtain ⟨-, parent, isParent, fitsOuter⟩ := fits
      cases distance with
      | zero => simp [ancestor?, isLocal]
      | succ further =>
          have step := inductionHypothesis fitsOuter further
          simpa [ancestor?, isParent] using step

end Fits

end Store

namespace Machine

variable (offered : ByteArray → Prop)

/-- The machine has the table of a program that was compiled from an offered
source. -/
def Knows (machine : Machine) (program : Program) : Prop :=
  ∃ source first next,
    offered source ∧ Program.compile source first = (.ok program, next) ∧
      next ≤ machine.nextNode ∧
      ∀ id, first ≤ id → id < next →
      machine.distances[id]? = program.distances[id]?

/-- The active frame fits the scopes and has no names but those that are ready
in the innermost one. -/
structure Fits (machine : Machine) (scopes : List Scope) : Prop where
  chain : machine.store.Fits machine.active scopes
  exact :
    ∀ scope ∈ scopes.head?, ∀ name, scope.find? name ≠ some true →
      machine.store.holds machine.active name = false

end Machine

variable (offered : ByteArray → Prop)

/-- The function's own frame fits the scopes around its declaration; an
initializer is bound to an instance. -/
def Function.Sound (machine : Machine) (function : Function) : Prop :=
  ∃ program scopes,
    machine.Knows offered program ∧
      program.Places (.function function.declaration) scopes ∧
      machine.store.Fits function.closure scopes ∧
      (function.isInitializer = true → ∃ outer, scopes = Scope.ofThis :: outer)

/-- The method's own frame fits the scopes around its class; it is not yet bound
to an instance. -/
def Function.SoundMethod (machine : Machine) (method : Function) : Prop :=
  ∃ program outer,
    machine.Knows offered program ∧
      program.Places (.function method.declaration) (Scope.ofThis :: outer) ∧
      machine.store.Fits method.closure outer

/-- All methods of the class and of its superclasses are sound. -/
def Class.Sound (machine : Machine) (blueprint : Class) : Prop :=
  ∀ name method, blueprint.findMethod? name = some method →
    method.SoundMethod offered machine

/-- Whatever can be called through the value is sound. -/
def Value.Sound (machine : Machine) : Value → Prop
  | .function called => called.Sound offered machine
  | .blueprint called => called.Sound offered machine
  | .object held => held.blueprint.Sound offered machine
  | _ => True

/-- A value that refers to nothing in the store. -/
def Value.IsAtom : Value → Prop
  | .function _ => False
  | .blueprint _ => False
  | .object _ => False
  | _ => True

/-- Whatever can be called is sound. -/
def Callee.Sound (machine : Machine) : Callee → Prop
  | .function called => called.Sound offered machine
  | .native _ => True
  | .blueprint called => called.Sound offered machine

/-- What a statement returns is sound. -/
def Flow.Sound (machine : Machine) : Flow → Prop
  | .normal => True
  | .returned value => value.Sound offered machine

/-- Everything that the machine holds is sound, and so is what the natives may
give it. -/
structure Machine.Sound (context : Context) (machine : Machine) : Prop where
  rooted : machine.store.Rooted
  values :
    ∀ frame name value, machine.store.lookup? frame name = some value →
      value.Sound offered machine
  fields :
    ∀ object name value, machine.store.field? object name = some value →
      value.Sound offered machine
  unfiled : ∀ id, machine.nextNode ≤ id → machine.distances[id]? = none
  sources : ∀ path source, context.library path = .ok source → offered source
  natives :
    ∀ native ∈ context.natives, ∀ arguments world value after,
      native.body arguments world = (.ok value, after) →
        value.IsAtom ∨ value ∈ arguments ∨ value.Sound offered machine

variable {offered} {context : Context} {before after machine : Machine}

/-- What is known of a program stays known. -/
theorem Machine.Knows.later
    {program : Program}
    (knows : before.Knows offered program)
    (precedes : before.Precedes after) :
    after.Knows offered program := by
  obtain ⟨source, first, next, isOffered, compiled, below, table⟩ := knows
  refine ⟨source, first, next, isOffered, compiled,
    Nat.le_trans below precedes.nodes, ?_⟩
  intro id above under
  rw [precedes.distances id (Nat.lt_of_lt_of_le under below)]
  exact table id above under

/-- A known program was compiled, and the machine has its distances. -/
theorem Machine.Knows.compiled
    {program : Program}
    (knows : machine.Knows offered program) :
    ∃ first next, program.Compiled first next ∧
      ∀ id, first ≤ id → id < next →
        machine.distances[id]? = program.distances[id]? := by
  obtain ⟨source, first, next, -, compiled, -, table⟩ := knows
  exact ⟨first, next, Program.compiled_of_compile compiled, table⟩

section Later

variable (precedes : before.Precedes after) (rooted : before.store.Rooted)

include precedes rooted

theorem Function.Sound.later
    {function : Function}
    (sound : function.Sound offered before) :
    function.Sound offered after := by
  obtain ⟨program, scopes, knows, places, fits, bound⟩ := sound
  exact ⟨program, scopes, knows.later precedes, places,
    fits.grow rooted precedes.grows, bound⟩

theorem Function.SoundMethod.later
    {method : Function}
    (sound : method.SoundMethod offered before) :
    method.SoundMethod offered after := by
  obtain ⟨program, outer, knows, places, fits⟩ := sound
  exact ⟨program, outer, knows.later precedes, places,
    fits.grow rooted precedes.grows⟩

theorem Class.Sound.later
    {blueprint : Class}
    (sound : blueprint.Sound offered before) :
    blueprint.Sound offered after :=
  fun name method found => (sound name method found).later precedes rooted

/-- Sound values stay sound. -/
theorem Value.Sound.later
    {value : Value}
    (sound : value.Sound offered before) :
    value.Sound offered after := by
  cases value with
  | function function => exact Function.Sound.later precedes rooted sound
  | blueprint blueprint => exact Class.Sound.later precedes rooted sound
  | object object => exact Class.Sound.later precedes rooted sound
  | _ => trivial

end Later

/-- A value that refers to nothing is sound. -/
theorem Value.IsAtom.sound
    {value : Value}
    (isAtom : value.IsAtom) :
    value.Sound offered machine := by
  cases value with
  | function function => cases isAtom
  | blueprint blueprint => cases isAtom
  | object object => cases isAtom
  | _ => trivial

/-- What a sound value can be called as is sound. -/
theorem Value.Sound.callee
    {value : Value}
    {callee : Callee}
    (sound : value.Sound offered machine)
    (callable : value.callee? = some callee) :
    callee.Sound offered machine := by
  cases value <;> cases callable <;> exact sound

/-- What is yielded for a slot, one of the natives yields. -/
theorem performNative_eq_ok
    {natives : List HostNative}
    {slot : Nat}
    {arguments : List Value}
    {world next : World}
    {value : Value}
    (performed :
      performNative natives slot arguments world = (.ok value, next)) :
    ∃ native ∈ natives, native.body arguments world = (.ok value, next) := by
  unfold performNative at performed
  split at performed
  · rename_i native isThere
    exact ⟨native, List.mem_of_getElem? isThere, performed⟩
  · cases performed

/-- A literal refers to nothing. -/
theorem Value.isAtom_ofLiteral
    (literal : Literal) :
    (Value.ofLiteral literal).IsAtom := by
  cases literal <;> trivial

namespace Operator

/-- What operators yield refers to nothing. -/
theorem isAtom_unary
    {operator : Token}
    {operand value : Value}
    (yields : unary operator operand = .ok value) :
    value.IsAtom := by
  unfold unary at yields
  split at yields <;> cases yields <;> trivial

theorem isAtom_add
    {operator : Token}
    {left right value : Value}
    (yields : add operator left right = .ok value) :
    value.IsAtom := by
  unfold add at yields
  split at yields <;> cases yields <;> trivial

theorem isAtom_arithmetic
    {operator : Token}
    {left right : Float}
    {value : Value}
    (yields : arithmetic operator left right = .ok value) :
    value.IsAtom := by
  unfold arithmetic at yields
  split at yields <;> cases yields <;> trivial

theorem isAtom_binary
    {operator : Token}
    {left right value : Value}
    (yields : binary operator left right = .ok value) :
    value.IsAtom := by
  unfold binary at yields
  split at yields
  · cases yields
    trivial
  · cases yields
    trivial
  · exact isAtom_add yields
  · split at yields
    · exact isAtom_arithmetic yields
    · cases yields

end Operator

end LoxScript
