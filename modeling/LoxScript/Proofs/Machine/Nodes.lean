import LoxScript.Proofs.Machine.Addressing

namespace LoxScript

/-!
# Nodes at run time

What a node of a program finds when the evaluator comes to it: as many frames as
there were scopes, and in the frame at the node's distance the name of the node.
The one exception is a variable that is assigned to in its own initializer.
-/

open Run Resolve

variable (offered : ByteArray → Prop)

/-- The evaluator is at an expression that the analysis of a known program came
to, in frames that fit the scopes around it. -/
structure Machine.Stands
    (machine : Machine)
    (expr : Expr)
    (program : Program)
    (analysis : Analysis) : Prop where
  knows : machine.Knows offered program
  visits : program.Visits (.expr expr) analysis
  fits : machine.FitsAt expr analysis.scopes

variable {offered} {context : Context} {machine : Machine} {expr : Expr}
variable {program : Program} {analysis : Analysis}

/-- An expression that is ready stands somewhere. -/
theorem Task.Ready.stands
    (ready : (Task.eval expr).Ready offered machine) :
    ∃ program analysis, machine.Stands offered expr program analysis := by
  obtain ⟨program, _, knows, ⟨analysis, visits, rfl⟩, fits⟩ := ready
  exact ⟨program, analysis, knows, visits, fits⟩

namespace Store

variable {store : Store} {frame found : FrameId} {distance : Nat}
  {name : String}

/-- Looking a name up at a distance is looking it up in the frame there. -/
theorem lookupAt?_eq
    (isFound : store.ancestor? frame distance = some found)
    (name : String) :
    store.lookupAt? frame distance name = store.lookup? found name := by
  simp [lookupAt?, isFound]

/-- The holder of a name at a distance is the frame there if it has the name. -/
theorem holderAt?_eq
    (isFound : store.ancestor? frame distance = some found)
    (name : String) :
    store.holderAt? frame distance name =
      if store.holds found name then some found else none := by
  simp [holderAt?, isFound]

end Store

/-- Declaring a name adds no scope. -/
theorem Scope.length_declaring
    (name : Option Token)
    (scopes : List Scope) :
    (Scope.declaring name scopes).length = scopes.length := by
  unfold Scope.declaring
  split <;> rfl

namespace Machine.Stands

/-- There are as many frames above the global one as the analysis had scopes. -/
theorem depth
    (stands : machine.Stands offered expr program analysis)
    (sound : machine.Sound offered context)
    (distance : Nat) :
    machine.store.ancestor? machine.active distance = some globalFrame ↔
      distance = analysis.scopes.length := by
  rcases stands.fits with fits | ⟨_, _, declared, outside, -, -, same, fits⟩
  · exact fits.chain.ancestor_eq_global_iff sound.rooted distance
  · rw [same, Scope.length_declaring]
    exact fits.chain.ancestor_eq_global_iff sound.rooted distance

/-- The machine has the distance that the scopes around the node give. -/
theorem distance_eq
    {node : Reference}
    (stands : machine.Stands offered expr program analysis)
    (isNode : expr.node? = some node) :
    machine.distances[node.id]? = program.distances[node.id]? := by
  obtain ⟨first, next, compiled, table⟩ := stands.knows.compiled
  obtain ⟨⟨above, below⟩, -⟩ := compiled.node_handed stands.visits isNode
  exact table node.id above below

/-- A name that is ready in the scope at a distance is in the frame at that
distance. -/
theorem holds_of_ready
    {id : NodeId}
    {name : Token}
    {distance : Nat}
    {scope : Scope}
    (stands : machine.Stands offered (.reference id name) program analysis)
    (atDistance : analysis.scopes[distance]? = some scope)
    (ready : scope.find? name.lexeme = some true) :
    ∃ frame, machine.store.ancestor? machine.active distance = some frame ∧
      machine.store.holds frame name.lexeme = true := by
  rcases stands.fits with
    fits | ⟨_, _, declared, outside, isReference, different, same, fits⟩
  · obtain ⟨frame, isFrame, isMatch⟩ := fits.chain.ancestor atDistance
    exact ⟨frame, isFrame, isMatch.names name.lexeme ready⟩
  · -- The class that is being declared has no name yet, but another one than
    -- its superclass.
    cases isReference
    rw [same] at atDistance
    cases outside with
    | nil =>
        cases atDistance
    | cons first outer =>
        cases distance with
        | zero =>
            cases atDistance
            rw [NameMap.find?_insert, if_neg (Ne.symm different)] at ready
            have innermost : (first :: outer)[0]? = some first := rfl
            obtain ⟨frame, isFrame, isMatch⟩ := fits.chain.ancestor innermost
            exact ⟨frame, isFrame, isMatch.names name.lexeme ready⟩
        | succ further =>
            have outward : (first :: outer)[further + 1]? = some scope :=
              atDistance
            obtain ⟨frame, isFrame, isMatch⟩ := fits.chain.ancestor outward
            exact ⟨frame, isFrame, isMatch.names name.lexeme ready⟩

/-- A variable with a distance is in the frame at that distance. -/
theorem reference
    {id : NodeId}
    {name : Token}
    {distance : Nat}
    (stands : machine.Stands offered (.reference id name) program analysis)
    (found : machine.distances[id]? = some distance) :
    ∃ frame, machine.store.ancestor? machine.active distance = some frame ∧
      machine.store.holds frame name.lexeme = true := by
  obtain ⟨first, next, compiled, -⟩ := stands.knows.compiled
  have inProgram : program.distances[id]? = some distance :=
    (stands.distance_eq rfl).symm.trans found
  obtain ⟨scope, atDistance, ready⟩ :=
    compiled.ready_of_read stands.visits inProgram
  exact stands.holds_of_ready atDistance ready

/-- Expressions but names stand where the active frame fits. -/
theorem fitsHere
    (stands : machine.Stands offered expr program analysis)
    (compound : ∀ id name, expr ≠ .reference id name) :
    machine.Fits analysis.scopes := by
  rcases stands.fits with fits | ⟨id, name, _, _, same, _⟩
  · exact fits
  · exact absurd same (compound id name)

/-- Every `this` has a distance, and is an instance in the frame there. -/
theorem thisRef
    {id : NodeId}
    {keyword : Token}
    (stands : machine.Stands offered (.thisRef id keyword) program analysis) :
    keyword.lexeme = "this" ∧
      ∃ distance frame object, machine.distances[id]? = some distance ∧
        machine.store.ancestor? machine.active distance = some frame ∧
        machine.store.lookup? frame "this" = some (.object object) := by
  obtain ⟨first, next, compiled, -⟩ := stands.knows.compiled
  have spelled : keyword.lexeme = "this" :=
    (compiled.node_handed stands.visits rfl).2
  obtain ⟨distance, found, atDistance⟩ := compiled.ofThis_of_use stands.visits
  obtain ⟨frame, isFrame, isMatch⟩ :=
    (stands.fitsHere nofun).chain.ancestor atDistance
  obtain ⟨object, isObject⟩ := isMatch.this rfl
  exact ⟨spelled, distance, frame, object, (stands.distance_eq rfl).trans found,
    isFrame, isObject⟩

/-- Every `super` has a distance, is a class in the frame there, and `this` is
an instance in the frame just below. -/
theorem superRef
    {id : NodeId}
    {keyword method : Token}
    (stands :
      machine.Stands offered (.superRef id keyword method) program analysis) :
    keyword.lexeme = "super" ∧
      ∃ inner outerFrame innerFrame superclass object,
        machine.distances[id]? = some (inner + 1) ∧
        machine.store.ancestor? machine.active (inner + 1) = some outerFrame ∧
        machine.store.lookup? outerFrame "super" =
          some (.blueprint superclass) ∧
        machine.store.ancestor? machine.active inner = some innerFrame ∧
        machine.store.lookup? innerFrame "this" = some (.object object) := by
  obtain ⟨first, next, compiled, -⟩ := stands.knows.compiled
  have spelled : keyword.lexeme = "super" :=
    (compiled.node_handed stands.visits rfl).2
  have fits := stands.fitsHere nofun
  obtain ⟨inner, found, atSuper, atThis⟩ :=
    compiled.ofSuper_of_use stands.visits
  obtain ⟨outerFrame, isOuter, outerMatch⟩ := fits.chain.ancestor atSuper
  obtain ⟨innerFrame, isInner, innerMatch⟩ := fits.chain.ancestor atThis
  obtain ⟨superclass, isClass⟩ := outerMatch.super rfl
  obtain ⟨object, isObject⟩ := innerMatch.this rfl
  exact ⟨spelled, inner, outerFrame, innerFrame, superclass, object,
    (stands.distance_eq rfl).trans found, isOuter, isClass, isInner, isObject⟩

end Machine.Stands

/-- The failure of a local variable that is not where its distance leads. -/
def Halt.IsUnresolved : Halt → Prop
  | .failed (.unresolvedLocal _ _ _) => True
  | _ => False

/-- The step does not fail for a local variable that is not where its distance
leads. -/
def Run.FindsLocals (step : Run α) (machine : Machine) : Prop :=
  ∀ halt after, step machine = .error halt after → ¬ halt.IsUnresolved

namespace Run

/-- Reading a variable that is where its distance leads. -/
theorem findsLocals_readVariable
    {id : NodeId}
    {name : Token}
    (held :
      ∀ distance, machine.distances[id]? = some distance →
        ∃ frame, machine.store.ancestor? machine.active distance = some frame ∧
          machine.store.holds frame name.lexeme = true) :
    FindsLocals (readVariable id name) machine := by
  intro halt after fails
  unfold readVariable at fails
  rw [bind_get] at fails
  cases found : machine.distances[id]? with
  | some distance =>
      obtain ⟨frame, isFrame, holds⟩ := held distance found
      obtain ⟨value, isValue⟩ := Store.holds_iff.mp holds
      simp only [found, Store.lookupAt?_eq isFrame, isValue] at fails
      cases fails
  | none =>
      cases isGlobal : machine.store.lookup? globalFrame name.lexeme with
      | some value =>
          simp only [found, isGlobal] at fails
          cases fails
      | none =>
          simp only [found, isGlobal] at fails
          cases fails
          exact not_false

/-- Binding a method always succeeds. -/
theorem bind_succeeds
    (method : Function)
    (object : Instance)
    (machine : Machine) :
    ∃ bound after, bind method object machine = .ok bound after :=
  ⟨_, _, rfl⟩

/-- Reading a method through a `super` that is where its distance leads. -/
theorem findsLocals_readSuper
    {id : NodeId}
    {keyword : Token}
    {inner : Nat}
    {outerFrame innerFrame : FrameId}
    {superclass : Class}
    {object : Instance}
    (found : machine.distances[id]? = some (inner + 1))
    (isOuter : machine.store.ancestor? machine.active (inner + 1) =
      some outerFrame)
    (isClass :
      machine.store.lookup? outerFrame "super" = some (.blueprint superclass))
    (isInner : machine.store.ancestor? machine.active inner = some innerFrame)
    (isObject : machine.store.lookup? innerFrame "this" = some (.object object))
    (method : Token) :
    FindsLocals (readSuper id keyword method) machine := by
  have parts : superParts id keyword machine =
      .ok (superclass, object) machine := by
    unfold superParts
    rw [bind_get]
    simp only [found, Store.lookupAt?_eq isOuter, Store.lookupAt?_eq isInner,
      isClass, isObject]
    rfl
  intro halt after fails
  unfold readSuper at fails
  rw [bind_of_ok parts] at fails
  cases isMethod : superclass.findMethod? method.lexeme with
  | none =>
      simp only [isMethod] at fails
      cases fails
      exact not_false
  | some method =>
      obtain ⟨bound, last, binds⟩ := bind_succeeds method object machine
      simp only [isMethod] at fails
      rw [bind_of_ok binds] at fails
      cases fails

/-- The instance that an initializer is bound to is there. -/
theorem findsLocals_callResult
    {function : Function}
    (isSound : function.Sound offered machine)
    (flow : Flow) :
    FindsLocals (callResult function flow) machine := by
  intro halt after fails
  unfold callResult at fails
  split at fails
  · rename_i isInitializer
    obtain ⟨program, _, -, -, fits, bound⟩ := isSound
    obtain ⟨outer, rfl⟩ := bound isInitializer
    obtain ⟨object, isObject⟩ := fits.1.this rfl
    unfold boundInstance at fails
    rw [bind_get] at fails
    simp only [isObject] at fails
    cases fails
  · split at fails <;> cases fails

end Run

/-- No variable that is read, no `this` and no `super` fails for want of a
local. -/
theorem Machine.Stands.findsLocals
    {node : Reference}
    (stands : machine.Stands offered expr program analysis)
    (isNode : expr.node? = some node)
    (reads : node.kind ≠ .write)
    (context : Context)
    (steps : Nat) :
    FindsLocals (eval context steps expr) machine := by
  cases steps with
  | zero =>
      intro halt after fails
      cases fails
      exact not_false
  | succ steps =>
      cases expr with
      | reference id name =>
          exact findsLocals_readVariable fun _ found => stands.reference found
      | thisRef id keyword =>
          obtain ⟨spelled, distance, frame, object, found, isFrame, isObject⟩ :=
            stands.thisRef
          refine findsLocals_readVariable ?_
          intro other isOther
          rw [found] at isOther
          cases isOther
          refine ⟨frame, isFrame, ?_⟩
          rw [spelled]
          exact Store.holds_iff.mpr ⟨_, isObject⟩
      | superRef id keyword method =>
          obtain ⟨-, _, _, _, _, _, found, isOuter, isClass, isInner,
              isObject⟩ :=
            stands.superRef
          exact findsLocals_readSuper found isOuter isClass isInner
            isObject method
      | assign id name value =>
          cases isNode
          exact absurd rfl reads
      | _ => cases isNode

namespace Machine.Stands

variable {id : NodeId} {name : Token} {value : Expr} {stored : Value}
  {after : Machine}
variable {steps : Nat}

/-- Once the value of an assignment is there, the frames still fit and the table
is the same. -/
theorem afterValue
    (stands : machine.Stands offered (.assign id name value) program analysis)
    (sound : machine.Sound offered context)
    (yields : eval context steps value machine = .ok stored after) :
    after.Fits analysis.scopes ∧
      after.distances[id]? = Scope.distance? name.lexeme analysis.scopes := by
  have fits := stands.fitsHere nofun
  have located : machine.Located offered (.expr (.assign id name value)) :=
    ⟨program, _, stands.knows, ⟨analysis, stands.visits, rfl⟩, fits⟩
  obtain ⟨advances, -⟩ := (works_always offered context steps).eval_ok sound
    (located.included .assigned).ready yields
  obtain ⟨_, _, compiled, table⟩ :=
    (stands.knows.later advances.precedes).compiled
  obtain ⟨⟨above, below⟩, -⟩ := compiled.node_handed stands.visits rfl
  exact ⟨fits.advance sound advances,
    (table id above below).trans (compiled.distance_eq stands.visits rfl)⟩

/-- A variable that is assigned to in its own initializer has distance zero. -/
theorem distance_inside
    (stands : machine.Stands offered (.assign id name value) program analysis)
    (sound : machine.Sound offered context)
    (inside :
      program.InOwnInitializer name (.expr (.assign id name value)) analysis)
    (yields : eval context steps value machine = .ok stored after) :
    after.distances[id]? = some 0 := by
  obtain ⟨-, table⟩ := stands.afterValue sound yields
  obtain ⟨scope, isHead, unready⟩ :=
    Program.Compiled.unready_of_inOwnInitializer inside
  rw [table]
  cases shape : analysis.scopes with
  | nil =>
      rw [shape] at isHead
      cases isHead
  | cons first outer =>
      rw [shape] at isHead
      cases isHead
      simp [Scope.distance?, NameMap.contains, unready]

/-- A variable that is assigned to in its own initializer is not there. -/
theorem assign_fails
    (stands : machine.Stands offered (.assign id name value) program analysis)
    (sound : machine.Sound offered context)
    (inside :
      program.InOwnInitializer name (.expr (.assign id name value)) analysis)
    (yields : eval context steps value machine = .ok stored after) :
    assignVariable id name stored after =
      .error (.failed (.unresolvedLocal name.lexeme 0 name.line)) after := by
  obtain ⟨fits, -⟩ := stands.afterValue sound yields
  obtain ⟨scope, isHead, unready⟩ :=
    Program.Compiled.unready_of_inOwnInitializer inside
  have absent : after.store.holds after.active name.lexeme = false :=
    fits.exact scope isHead name.lexeme (by simp [unready])
  have found := stands.distance_inside sound inside yields
  have noHolder : after.store.holderAt? after.active 0 name.lexeme = none := by
    rw [Store.holderAt?_eq rfl, absent]
    rfl
  refine bind_of_error ?_
  unfold frameOf
  rw [bind_get]
  simp only [found, noHolder]
  rfl

/-- A variable that is assigned to elsewhere is where its distance leads. -/
theorem assign_succeeds
    (stands : machine.Stands offered (.assign id name value) program analysis)
    (sound : machine.Sound offered context)
    (outside :
      ¬ program.InOwnInitializer name (.expr (.assign id name value)) analysis)
    (yields : eval context steps value machine = .ok stored after) :
    ∀ distance, after.distances[id]? = some distance →
      ∃ frame, after.store.ancestor? after.active distance = some frame ∧
        after.store.holds frame name.lexeme = true := by
  intro distance found
  obtain ⟨fits, table⟩ := stands.afterValue sound yields
  obtain ⟨_, _, compiled, -⟩ := stands.knows.compiled
  obtain ⟨scope, atDistance, contained⟩ :=
    Scope.getElem?_of_distance? (table ▸ found)
  have ready : scope.find? name.lexeme = some true := by
    cases state : scope.find? name.lexeme with
    | none =>
        simp [NameMap.contains, state] at contained
    | some isReady =>
        cases isReady with
        | true => rfl
        | false =>
            cases distance with
            | zero =>
                have isHead : scope ∈ analysis.scopes.head? := by
                  rw [List.head?_eq_getElem?]
                  exact atDistance
                exact absurd
                  (compiled.inOwnInitializer_of_unready stands.visits isHead
                    state) outside
            | succ inner =>
                have atTail : analysis.scopes.tail[inner]? = some scope := by
                  simpa using atDistance
                have settled :=
                  (compiled.placed stands.visits).outerSettled scope
                  (List.mem_of_getElem? atTail)
                exact absurd state (settled name.lexeme)
  obtain ⟨frame, isFrame, isMatch⟩ := fits.chain.ancestor atDistance
  exact ⟨frame, isFrame, isMatch.names name.lexeme ready⟩

end Machine.Stands

/-- Assigning to a variable that is where its distance leads. -/
theorem Run.findsLocals_assignVariable
    {id : NodeId}
    {name : Token}
    (held :
      ∀ distance, machine.distances[id]? = some distance →
        ∃ frame, machine.store.ancestor? machine.active distance = some frame ∧
          machine.store.holds frame name.lexeme = true)
    (value : Value) :
    FindsLocals (assignVariable id name value) machine := by
  intro halt after fails
  unfold assignVariable at fails
  rcases bind_eq_error_iff.mp fails with missing | ⟨_, _, -, writes⟩
  · unfold frameOf at missing
    rw [bind_get] at missing
    cases found : machine.distances[id]? with
    | some distance =>
        obtain ⟨frame, isFrame, holds⟩ := held distance found
        simp only [found, Store.holderAt?_eq isFrame, holds, if_true] at missing
        cases missing
    | none =>
        simp only [found] at missing
        cases isGlobal : machine.store.holds globalFrame name.lexeme with
        | true =>
            simp only [isGlobal, if_true] at missing
            cases missing
        | false =>
            simp only [isGlobal] at missing
            cases missing
            exact not_false
  · cases writes

end LoxScript
