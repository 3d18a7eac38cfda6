import LoxScript.Proofs.Scope.Nesting
import LoxScript.Proofs.Scope.Spots

namespace LoxScript

/-!
# Which programs an analysis rejects

An analysis notes as it goes whether the code at hand belongs to a function, to
which kind of class it belongs, and which names of the innermost scope are
ready.  At every spot these notes say what the text around the spot says.  So an
analysis accepts exactly the programs none of whose spots misuses its scopes,
and otherwise reports the first spot that does.
-/

open Analysis Resolve

/-- The kind of the innermost class. -/
def Surroundings.classContext : Surroundings → ClassContext
  | [] => .outside
  | .classBody none :: _ => .plain
  | .classBody (some _) :: _ => .derived
  | _ :: outer => classContext outer

namespace Surroundings

/-- Code is outside of classes exactly if no class is around it. -/
theorem classContext_eq_outside_iff
    {around : Surroundings} :
    around.classContext = .outside ↔ ∀ enclosure ∈ around,
      ¬ enclosure.IsClass := by
  induction around with
  | nil => simp [classContext]
  | cons innermost outer inductionHypothesis =>
      cases innermost with
      | classBody superclass =>
          cases superclass <;> simp [classContext, Enclosure.IsClass]
      | initializer | block | function =>
          simpa [classContext, Enclosure.IsClass] using inductionHypothesis

/-- Code is in a class without a superclass exactly if the innermost class
around it is one. -/
theorem classContext_eq_plain_iff
    {around : Surroundings} :
    around.classContext = .plain ↔
      ∃ inner outer, around = inner ++ .classBody none :: outer ∧
        ∀ enclosure ∈ inner, ¬ enclosure.IsClass := by
  induction around with
  | nil => simp [classContext]
  | cons innermost outer inductionHypothesis =>
      have skips (noClass : ¬ innermost.IsClass)
          (different : innermost ≠ .classBody none) :
          (∃ inner further,
            innermost :: outer = inner ++ .classBody none :: further ∧
            ∀ enclosure ∈ inner, ¬ enclosure.IsClass) ↔
          ∃ inner further, outer = inner ++ .classBody none :: further ∧
            ∀ enclosure ∈ inner, ¬ enclosure.IsClass := by
        constructor
        · rintro ⟨inner, further, split, areNone⟩
          cases inner with
          | nil => exact absurd (List.cons.inj split).1 different
          | cons first inner =>
              exact ⟨inner, further, (List.cons.inj split).2,
                fun enclosure member =>
                  areNone enclosure (List.mem_cons_of_mem _ member)⟩
        · rintro ⟨inner, further, rfl, areNone⟩
          exact ⟨innermost :: inner, further, rfl, List.forall_mem_cons.mpr
            ⟨noClass, areNone⟩⟩
      cases innermost with
      | classBody superclass =>
          cases superclass with
          | none => exact ⟨fun _ => ⟨[], outer, rfl, by simp⟩, fun _ => rfl⟩
          | some named =>
              constructor
              · rintro ⟨⟩
              · rintro ⟨inner, further, split, areNone⟩
                cases inner with
                | nil => cases split
                | cons first inner =>
                    cases split
                    exact absurd trivial (areNone _ List.mem_cons_self)
      | initializer | block | function =>
          exact inductionHypothesis.trans (skips id nofun).symm

end Surroundings

/-- The notes on function and class say what is around. -/
structure Reflects (around : Surroundings) (analysis : Analysis) : Prop where
  inFunction : analysis.inFunction = true ↔ ∃ enclosure ∈ around,
    enclosure.IsFunction
  inClass : analysis.inClass = around.classContext

/-- The scope declares these names, and all of them are ready. -/
def Scope.Holds (scope : Scope) (names : List Token) : Prop :=
  ∀ name, scope.find? name =
    if name ∈ names.map Token.lexeme then some true else none

/-- The innermost scope is that of the innermost enclosure, as far as its names
are declared. -/
inductive Scoped : Surroundings → List Scope → Prop where
  | top :
      Scoped [] []
  | within {innermost outer scope scopes} :
      Enclosure.IsLocal innermost → scope.Holds innermost.names →
      Scoped (innermost :: outer) (scope :: scopes)

/-- The notes say what is around a statement. -/
structure Stands (around : Surroundings) (analysis : Analysis) : Prop where
  reflects : Reflects around analysis
  innermost : Scoped around analysis.scopes

/-- The innermost scope holds the name, and it is not ready. -/
def Unready (name : Token) (scopes : List Scope) : Prop :=
  ∃ scope ∈ scopes.head?, scope.find? name.lexeme = some false

/-- The notes say what is around an expression. -/
structure Reads (around : Surroundings) (analysis : Analysis) : Prop where
  reflects : Reflects around analysis
  unready :
    ∀ name, Unready name analysis.scopes ↔
      Spot.Misuses ⟨.reads name, around⟩ .readInOwnInitializer

/-- All but the distances is the same. -/
structure Steady (before after : Analysis) : Prop where
  scopes : after.scopes = before.scopes
  inFunction : after.inFunction = before.inFunction
  inClass : after.inClass = before.inClass

namespace Steady

variable {before middle after : Analysis} {around : Surroundings}

theorem trans
    (steady : Steady before middle)
    (steadyNext : Steady middle after) :
    Steady before after :=
  ⟨steadyNext.scopes.trans steady.scopes,
    steadyNext.inFunction.trans steady.inFunction,
    steadyNext.inClass.trans steady.inClass⟩

theorem reflects
    (steady : Steady before after)
    (reflects : Reflects around before) :
    Reflects around after :=
  ⟨by rw [steady.inFunction]; exact reflects.inFunction,
    steady.inClass.trans reflects.inClass⟩

theorem reads
    (steady : Steady before after)
    (reads : Reads around before) :
    Reads around after :=
  ⟨steady.reflects reads.reflects, by rw [steady.scopes]; exact reads.unready⟩

theorem stands
    (steady : Steady before after)
    (stands : Stands around before) :
    Stands around after :=
  ⟨Steady.reflects steady stands.reflects,
    by rw [steady.scopes]; exact stands.innermost⟩

end Steady

/-- A name whose initializer is analysed gets ready then. -/
theorem Steady.define
    {name : Token}
    {before after : Analysis}
    (steady : Steady (declared name before) after) :
    Steady (defined name before) (defined name after) := by
  rw [← defined_declared name before]
  refine ⟨?_, steady.inFunction, steady.inClass⟩
  simp only [defined, steady.scopes]

/-- The step passes over the spots: it yields a good analysis if they are sound,
and otherwise fails with the error that reports the first one that is not. -/
def Judges
    (spots : List Spot)
    (step : Resolve Unit)
    (before : Analysis)
    (good : Analysis → Prop) : Prop :=
  Leads step before
    (fun _ after => (∀ spot ∈ spots, spot.Sound) ∧ good after)
    (fun error _ => Spot.FirstMisuse spots error)

namespace Judges

variable {spots others : List Spot} {spot : Spot} {step : Resolve Unit}
variable {before after : Analysis} {good better : Analysis → Prop}

theorem weaken
    (judges : Judges spots step before good)
    (onValue : ∀ after, good after → better after) :
    Judges spots step before better :=
  Leads.weaken judges (fun _ after holds => ⟨holds.1, onValue after holds.2⟩)
    fun _ _ => id

theorem congr
    {other : Resolve Unit}
    (same : step before = other before)
    (judges : Judges spots other before good) :
    Judges spots step before good := by
  unfold Judges Leads at judges ⊢
  rw [same]
  exact judges

/-- One step after the other passes over the spots of both. -/
theorem andThen
    {next : Unit → Resolve Unit}
    (judges : Judges spots step before good)
    (judgesNext :
      ∀ middle, good middle → Judges others (next ()) middle better) :
    Judges (spots ++ others) (step >>= next) before better := by
  refine Leads.bind (Leads.weaken judges ?_ ?_)
  · rintro ⟨⟩ middle ⟨allSound, isGood⟩
    refine Leads.weaken (judgesNext middle isGood) ?_ ?_
    · rintro _ after ⟨othersSound, isBetter⟩
      refine ⟨fun spot member => ?_, isBetter⟩
      exact (List.mem_append.mp member).elim (allSound spot) (othersSound spot)
    · intro error _ first
      exact first.behind allSound
  · intro error _ first
    exact first.append others

/-- A step that passes over no spot. -/
theorem ofOk
    (yields : step before = .ok () after)
    (isGood : good after) :
    Judges [] step before good := by
  unfold Judges Leads
  rw [yields]
  exact ⟨by simp, isGood⟩

/-- A step that passes over no spot, and the next one. -/
theorem afterOk
    {next : Unit → Resolve Unit}
    (yields : step before = .ok () after)
    (judges : Judges spots (next ()) after good) :
    Judges spots (step >>= next) before good := by
  unfold Judges Leads at judges ⊢
  rw [bind_of_ok yields]
  exact judges

/-- A step that accepts a sound spot and goes on as another step does from
there. -/
theorem ofSound
    {other : Resolve Unit}
    {start : Analysis}
    (sound : spot.Sound)
    (same : step before = other start)
    (judges : Judges spots other start good) :
    Judges (spot :: spots) step before good := by
  unfold Judges Leads at judges ⊢
  rw [same]
  split at judges
  · exact ⟨List.forall_mem_cons.mpr ⟨sound, judges.1⟩, judges.2⟩
  · have allSound : ∀ earlier ∈ [spot], earlier.Sound := by
      simpa using sound
    exact judges.behind allSound

/-- A step that rejects its first spot. -/
theorem ofMisuse
    {fault : ScopeFault}
    (misuses : spot.Misuses fault)
    (fails : step before = .error (spot.error fault) after) :
    Judges (spot :: spots) step before good := by
  unfold Judges Leads
  rw [fails]
  exact misuses.first spots

/-- A step that restores all but the distances. -/
theorem steady
    {ids : List NodeId}
    (judges : Judges spots step before good)
    (restores : Restores ids step) :
    Judges spots step before (Steady before) := by
  have leads := restores before
  unfold Judges Leads at *
  cases outcome : step before <;> simp only [outcome] at judges leads ⊢
  · exact ⟨judges.1, leads.1.scopes, leads.1.inFunction, leads.2⟩
  · exact judges

/-- A step inside one more scope. -/
theorem within
    {scope : Scope}
    (judges :
      Judges spots step { before with scopes := scope :: before.scopes } good) :
    Judges spots (within scope step) before fun _ => True := by
  unfold Judges Leads Resolve.within at *
  cases outcome : step { before with scopes := scope :: before.scopes } <;>
    simp only [outcome] at judges ⊢
  · exact ⟨judges.1, trivial⟩
  · exact judges

/-- A step as part of a function. -/
theorem withinFunction
    (judges : Judges spots step { before with inFunction := true } good) :
    Judges spots (withinFunction step) before fun _ => True := by
  unfold Judges Leads Resolve.withinFunction at *
  cases outcome : step { before with inFunction := true } <;>
    simp only [outcome] at judges ⊢
  · exact ⟨judges.1, trivial⟩
  · exact judges

/-- A step in the scopes of a class. -/
theorem withinClass
    {superclass : Option SuperclassRef}
    (judges : ∀ scopes, Judges spots step { before with scopes := scopes }
      fun _ => True) :
    Judges spots (withinClass superclass step) before fun _ => True := by
  cases superclass with
  | none => exact (judges _).within
  | some named =>
      have inner : Judges spots (Resolve.within Scope.ofThis step)
          { before with scopes := Scope.ofSuper :: before.scopes }
          fun _ => True :=
        within (judges _)
      exact inner.within

/-- A step after which a class is left. -/
theorem leavingClass
    {context : ClassContext}
    (judges : Judges spots step before (Steady before)) :
    Judges spots (leavingClass context step) before fun after =>
      Steady { before with inClass := context } after := by
  unfold Judges Leads Resolve.leavingClass at *
  cases outcome : step before <;> simp only [outcome] at judges ⊢
  · exact ⟨judges.1, judges.2.scopes, judges.2.inFunction, rfl⟩
  · exact judges

end Judges

section Acts

variable {around : Surroundings} {before : Analysis}

/-- Filing a distance passes over no spot. -/
theorem judges_file
    (id : NodeId)
    (name : Token)
    (before : Analysis) :
    Judges [] (file id name) before fun _ => True :=
  .ofOk rfl trivial

/-- A read of a name that is not ready is rejected. -/
theorem read_of_unready
    {id : NodeId}
    {name : Token}
    (unready : Unready name before.scopes) :
    Resolve.read id name before =
      .error ⟨.readInOwnInitializer, name.lexeme, name.line⟩ before := by
  unfold Resolve.read
  rw [bind_get]
  cases shape : before.scopes with
  | nil => simp [Unready, shape] at unready
  | cons scope outer =>
      have isUnready : (scope.find? name.lexeme == some false) = true := by
        simpa [Unready, shape] using unready
      simp only [isUnready, if_true]
      rfl

/-- Reading a variable. -/
theorem judges_read
    {name : Token}
    (unready :
      Unready name before.scopes ↔
        Spot.Misuses ⟨.reads name, around⟩ .readInOwnInitializer)
    (id : NodeId) :
    Judges [⟨.reads name, around⟩] (Resolve.read id name) before
      fun _ => True := by
  by_cases isUnready : Unready name before.scopes
  · exact .ofMisuse (unready.mp isUnready) (read_of_unready isUnready)
  · have ready : ∀ scope ∈ before.scopes.head?,
        scope.find? name.lexeme ≠ some false :=
      fun scope isInnermost unset => isUnready ⟨scope, isInnermost, unset⟩
    refine .ofSound ?_ (read_of_ready ready) (judges_file id name before)
    rintro fault misuses
    cases misuses with
    | readInOwnInitializer same =>
        exact isUnready (unready.mpr (.readInOwnInitializer same))

/-- What `this` does depends on the class around it. -/
theorem useThis_eq
    (reflects : Reflects around before)
    (id : NodeId)
    (keyword : Token) :
    useThis id keyword before =
      match around.classContext with
      | .outside => fail .thisOutsideClass keyword before
      | .plain | .derived => file id keyword before := by
  unfold useThis
  rw [bind_get, reflects.inClass]
  cases around.classContext <;> rfl

/-- Using `this`. -/
theorem judges_useThis
    (reflects : Reflects around before)
    (id : NodeId)
    (keyword : Token) :
    Judges [⟨.usesThis keyword, around⟩] (useThis id keyword) before
      fun _ => True := by
  have uses := useThis_eq reflects id keyword
  have sound (inside : around.classContext ≠ .outside) :
      Spot.Sound ⟨.usesThis keyword, around⟩ := by
    rintro fault (_ | _ | _ | isOutside)
    exact inside (Surroundings.classContext_eq_outside_iff.mpr isOutside)
  cases context : around.classContext <;> simp only [context] at uses
  · have isOutside := Surroundings.classContext_eq_outside_iff.mp context
    exact .ofMisuse (.thisOutsideClass isOutside) uses
  · exact .ofSound (sound (by simp [context])) uses
      (judges_file id keyword before)
  · exact .ofSound (sound (by simp [context])) uses
      (judges_file id keyword before)

/-- What `super` does depends on the class around it. -/
theorem useSuper_eq
    (reflects : Reflects around before)
    (id : NodeId)
    (keyword : Token) :
    useSuper id keyword before =
      match around.classContext with
      | .outside => fail .superOutsideClass keyword before
      | .plain => fail .superWithoutSuperclass keyword before
      | .derived => file id keyword before := by
  unfold useSuper
  rw [bind_get, reflects.inClass]
  cases around.classContext <;> rfl

/-- Using `super`. -/
theorem judges_useSuper
    (reflects : Reflects around before)
    (id : NodeId)
    (keyword : Token) :
    Judges [⟨.usesSuper keyword, around⟩] (useSuper id keyword) before
      fun _ => True := by
  have uses := useSuper_eq reflects id keyword
  cases context : around.classContext <;> simp only [context] at uses
  · have isOutside := Surroundings.classContext_eq_outside_iff.mp context
    exact .ofMisuse (.superOutsideClass isOutside) uses
  · obtain ⟨inner, outer, rfl, areNone⟩ :=
      Surroundings.classContext_eq_plain_iff.mp context
    exact .ofMisuse (.superWithoutSuperclass areNone) uses
  · refine .ofSound ?_ uses (judges_file id keyword before)
    rintro fault misuses
    generalize same : around = other at misuses
    cases misuses with
    | superOutsideClass isOutside =>
        rw [same, Surroundings.classContext_eq_outside_iff.mpr
          isOutside] at context
        cases context
    | superWithoutSuperclass areNone =>
        rw [same, Surroundings.classContext_eq_plain_iff.mpr ⟨_, _, rfl,
          areNone⟩] at context
        cases context

/-- Meeting a `return`. -/
theorem judges_allowReturn
    (reflects : Reflects around before)
    (keyword : Token) :
    Judges [⟨.returns keyword, around⟩] (allowReturn keyword) before
      (· = before) := by
  have meets : allowReturn keyword before =
      if before.inFunction then .ok () before
      else fail .topLevelReturn keyword before := by
    unfold allowReturn
    rw [bind_get]
    cases before.inFunction <;> rfl
  by_cases inside : before.inFunction = true
  · have passes : allowReturn keyword before =
        (pure () : Resolve Unit) before := by
      rw [meets, if_pos inside]
      rfl
    refine .ofSound ?_ passes (.ofOk rfl rfl)
    rintro fault (_ | _ | isOutside)
    obtain ⟨enclosure, member, isFunction⟩ := reflects.inFunction.mp inside
    exact isOutside enclosure member isFunction
  · rw [if_neg inside] at meets
    refine .ofMisuse (.topLevelReturn ?_) meets
    intro enclosure member isFunction
    exact inside (reflects.inFunction.mpr ⟨enclosure, member, isFunction⟩)

/-- A name can be declared where the innermost local scope has not declared
it. -/
theorem declarable_iff
    (innermost : Scoped around before.scopes)
    (name : Token) :
    Declarable name before ↔ Spot.Sound ⟨.declares name, around⟩ := by
  obtain ⟨scopes⟩ := before
  cases innermost with
  | top =>
      refine ⟨fun _ => ?_, fun _ => nofun⟩
      rintro fault ⟨⟩
  | @within innermost outer scope further isLocal holds =>
      have contains : scope.contains name.lexeme = false ↔
          name.lexeme ∉ innermost.names.map Token.lexeme := by
        unfold NameMap.contains
        rw [holds]
        split <;> simp_all
      have declarable : Declarable name ⟨scope :: further, ‹_›, ‹_›, ‹_›⟩ ↔
          scope.contains name.lexeme = false := by
        simp [Declarable]
      rw [declarable, contains]
      constructor
      · rintro free fault (_ | ⟨member, same⟩)
        exact free (List.mem_map.mpr ⟨_, member, same⟩)
      · intro sound member
        obtain ⟨earlier, isEarlier, same⟩ := List.mem_map.mp member
        exact sound _ (.alreadyDeclared isEarlier same)

/-- Declaring a name. -/
theorem judges_declare
    (innermost : Scoped around before.scopes)
    (name : Token) :
    Judges [⟨.declares name, around⟩] (declare name) before
      (· = declared name before) := by
  by_cases free : Declarable name before
  · have declares : declare name before =
        (pure () : Resolve Unit) (declared name before) :=
      declare_of_free free
    exact .ofSound ((declarable_iff innermost name).mp free) declares
      (.ofOk rfl rfl)
  · have misuses : Spot.Misuses ⟨.declares name, around⟩ .alreadyDeclared := by
      have unsound := mt (declarable_iff innermost name).mpr free
      simp only [Spot.Sound, Classical.not_forall, Classical.not_not] at unsound
      obtain ⟨fault, misuses⟩ := unsound
      cases misuses with
      | alreadyDeclared member same => exact .alreadyDeclared member same
    exact .ofMisuse misuses (declare_of_taken free)

end Acts

/-- Two steps in a row that restore all but the distances. -/
theorem Judges.inRow
    {spots others : List Spot}
    {first second : Resolve Unit}
    {before : Analysis}
    (judges : Judges spots first before (Steady before))
    (judgesNext :
      ∀ middle, Steady before middle →
        Judges others second middle (Steady middle)) :
    Judges (spots ++ others) (do first; second) before (Steady before) :=
  judges.andThen fun middle steady =>
    (judgesNext middle steady).weaken fun _ steadyNext =>
      steady.trans steadyNext

mutual

/-- The analysis of an expression passes over its spots. -/
theorem Expr.judges_resolve
    {around : Surroundings} :
    (expr : Expr) → {before : Analysis} → Reads around before →
      Judges (expr.spots around) expr.resolve before (Steady before)
  | .literal _, _, _ => .ofOk rfl ⟨rfl, rfl, rfl⟩
  | .grouping inner, _, reads => inner.judges_resolve reads
  | .unary _ operand, _, reads => operand.judges_resolve reads
  | .binary left _ right, _, reads =>
      (left.judges_resolve reads).inRow fun _ steady =>
        right.judges_resolve (steady.reads reads)
  | .logical left _ right, _, reads =>
      (left.judges_resolve reads).inRow fun _ steady =>
        right.judges_resolve (steady.reads reads)
  | .reference id name, _, reads =>
      (judges_read (reads.unready name) id).steady (files_read id name).restores
  | .assign id name value, _, reads => by
      have judges := (value.judges_resolve reads).inRow fun middle _ =>
        (judges_file id name middle).steady (files_file id name).restores
      rwa [List.append_nil] at judges
  | .call callee _ arguments, _, reads =>
      (callee.judges_resolve reads).inRow fun _ steady =>
        Expr.judges_resolveAll arguments (steady.reads reads)
  | .get object _, _, reads => object.judges_resolve reads
  | .set object _ value, _, reads =>
      (value.judges_resolve reads).inRow fun _ steady =>
        object.judges_resolve (steady.reads reads)
  | .thisRef id keyword, _, reads =>
      (judges_useThis reads.reflects id keyword).steady
        (files_useThis id keyword).restores
  | .superRef id keyword _, _, reads =>
      (judges_useSuper reads.reflects id keyword).steady
        (files_useSuper id keyword).restores

/-- The analysis of expressions passes over their spots. -/
theorem Expr.judges_resolveAll
    {around : Surroundings} :
    (exprs : List Expr) → {before : Analysis} → Reads around before →
      Judges (Expr.spotsAll around exprs) (Expr.resolveAll exprs) before
        (Steady before)
  | [], _, _ => .ofOk rfl ⟨rfl, rfl, rfl⟩
  | first :: rest, _, reads =>
      (first.judges_resolve reads).inRow fun _ steady =>
        Expr.judges_resolveAll rest (steady.reads reads)

end

/-- The analysis of an expression that may be absent passes over its spots. -/
theorem judges_resolveOptional
    {around : Surroundings}
    {before : Analysis}
    (value : Option Expr)
    (reads : Reads around before) :
    Judges (optionalSpots around value) (resolveOptional value) before
      (Steady before) := by
  cases value with
  | none => exact .ofOk rfl ⟨rfl, rfl, rfl⟩
  | some inner => exact inner.judges_resolve reads

namespace Scope

/-- A scope without names. -/
theorem holds_empty :
    Holds NameMap.empty [] :=
  fun _ => rfl

/-- One more name is ready. -/
theorem Holds.insert
    {scope : Scope}
    {names : List Token}
    (holds : scope.Holds names)
    (name : Token) :
    Holds (NameMap.insert scope name.lexeme true) (names ++ [name]) := by
  intro other
  rw [NameMap.find?_insert, holds]
  by_cases same : name.lexeme = other
  · simp [same]
  · simp [same, Ne.symm same]

end Scope

namespace Enclosure

/-- What an enclosure is does not depend on the statements before the code in
it. -/
theorem isLocal_behind
    {enclosure : Enclosure}
    {statement : Stmt} :
    (enclosure.behind statement).IsLocal ↔ enclosure.IsLocal := by
  cases enclosure <;> rfl

/-- One more statement declares its names. -/
theorem names_behind
    {enclosure : Enclosure}
    (isLocal : enclosure.IsLocal)
    (statement : Stmt) :
    (enclosure.behind statement).names =
      enclosure.names ++ statement.declarations := by
  cases enclosure with
  | block earlier => simp [behind, names]
  | function params earlier => simp [behind, names]
  | initializer | classBody => cases isLocal

end Enclosure

variable {around : Surroundings} {scopes : List Scope} {statement other : Stmt}

/-- The notes on function and class do not depend on the statements before the
code at hand. -/
theorem reflects_behind_iff
    {analysis : Analysis} :
    Reflects (around.behind statement) analysis ↔ Reflects around analysis := by
  have sameFunction :
      (∃ enclosure ∈ around.behind statement, enclosure.IsFunction) ↔
      ∃ enclosure ∈ around, enclosure.IsFunction := by
    cases around with
    | nil => rfl
    | cons innermost outer =>
        cases innermost <;>
          simp [Surroundings.behind, Enclosure.behind, Enclosure.IsFunction]
  have sameClass : (around.behind statement).classContext =
      around.classContext := by
    cases around with
    | nil => rfl
    | cons innermost outer => cases innermost <;> rfl
  constructor
  · rintro ⟨inFunction, inClass⟩
    exact ⟨inFunction.trans sameFunction, inClass.trans sameClass⟩
  · rintro ⟨inFunction, inClass⟩
    exact ⟨inFunction.trans sameFunction.symm, inClass.trans sameClass.symm⟩

namespace Scoped

/-- A statement stands right in a local scope, if it stands in anything. -/
theorem isLocal
    {enclosure : Enclosure}
    (innermost : Scoped (enclosure :: around) scopes) :
    enclosure.IsLocal := by
  cases innermost with
  | within isLocal _ => exact isLocal

/-- Behind a statement that declares nothing. -/
theorem behind_of_none
    (innermost : Scoped around scopes)
    (declares : statement.declarations = []) :
    Scoped (around.behind statement) scopes := by
  cases innermost with
  | top => exact .top
  | within isLocal holds =>
      refine .within (Enclosure.isLocal_behind.mpr isLocal) ?_
      rw [Enclosure.names_behind isLocal, declares, List.append_nil]
      exact holds

/-- In an enclosure with one more name. -/
theorem declaring
    {enclosure grown : Enclosure}
    {name : Token}
    (innermost : Scoped (enclosure :: around) scopes)
    (isLocal : grown.IsLocal)
    (names : grown.names = enclosure.names ++ [name]) :
    Scoped (grown :: around) (Scope.declaring (some name) scopes) := by
  cases innermost with
  | within _ holds =>
      refine .within isLocal ?_
      rw [names]
      exact holds.insert name

/-- Behind a statement that declares a name. -/
theorem behind_of_one
    {name : Token}
    (innermost : Scoped around scopes)
    (declares : statement.declarations = [name]) :
    Scoped (around.behind statement) (Scope.declaring (some name) scopes) := by
  cases around with
  | nil =>
      cases innermost
      exact .top
  | cons enclosure outer =>
      have isLocal := innermost.isLocal
      refine innermost.declaring (Enclosure.isLocal_behind.mpr isLocal) ?_
      rw [Enclosure.names_behind isLocal, declares]

/-- Behind a statement that declares what another one does. -/
theorem regroup
    (innermost : Scoped (around.behind other) scopes)
    (same : statement.declarations = other.declarations) :
    Scoped (around.behind statement) scopes := by
  cases around with
  | nil => exact innermost
  | cons enclosure outer =>
      cases innermost with
      | within isLocal holds =>
          have isLocal' := Enclosure.isLocal_behind.mp isLocal
          refine .within (Enclosure.isLocal_behind.mpr isLocal') ?_
          rw [Enclosure.names_behind isLocal'] at holds ⊢
          exact same ▸ holds

/-- Behind a statement that declares what two others do. -/
theorem regroupTwo
    {further : Stmt}
    (innermost : Scoped ((around.behind other).behind further) scopes)
    (same : statement.declarations =
      other.declarations ++ further.declarations) :
    Scoped (around.behind statement) scopes := by
  cases around with
  | nil => exact innermost
  | cons enclosure outer =>
      cases innermost with
      | within isLocal holds =>
          have isLocal' := Enclosure.isLocal_behind.mp isLocal
          have isLocal'' := Enclosure.isLocal_behind.mp isLocal'
          refine .within (Enclosure.isLocal_behind.mpr isLocal'') ?_
          rw [Enclosure.names_behind isLocal',
            Enclosure.names_behind isLocal''] at holds
          rw [Enclosure.names_behind isLocal'', same, ← List.append_assoc]
          exact holds

/-- Outside of initializers all names are ready. -/
theorem not_unready
    (innermost : Scoped around scopes)
    (name : Token) :
    ¬ Unready name scopes := by
  rintro ⟨scope, isHead, unready⟩
  cases innermost with
  | top => cases isHead
  | within isLocal holds =>
      cases isHead
      rw [holds] at unready
      split at unready <;> cases unready

end Scoped

namespace Stands

variable {before after : Analysis}

/-- The notes at a statement are those at its expressions. -/
theorem reads
    (stands : Stands around before) :
    Reads around before := by
  refine ⟨stands.reflects, fun name => ⟨fun unready => ?_, fun misuses => ?_⟩⟩
  · exact absurd unready (stands.innermost.not_unready name)
  · cases misuses with
    | readInOwnInitializer => exact stands.innermost.isLocal.elim

/-- A name whose initializer is analysed is there and not ready. -/
theorem reads_initializer
    (stands : Stands around before)
    (name : Token) :
    Reads (.initializer name :: around) (declared name before) := by
  have inFunction : (declared name before).inFunction = before.inFunction :=
    (kept_declared [] name before).inFunction
  refine ⟨⟨?_, ?_⟩, fun other => ?_⟩
  · rw [inFunction, stands.reflects.inFunction]
    simp [Enclosure.IsFunction]
  · rw [inClass_declared]
    exact stands.reflects.inClass
  · obtain ⟨reflects, innermost⟩ := stands
    generalize shape : before.scopes = scopes at innermost
    cases innermost with
    | top =>
        constructor
        · rintro ⟨scope, isHead, -⟩
          simp [declared, shape] at isHead
        · rintro ⟨⟩
    | @within enclosure outer scope further isLocal holds =>
        have unready : Unready other (declared name before).scopes ↔
            name.lexeme = other.lexeme := by
          simp only [Unready, declared, shape, List.head?_cons, Option.mem_def,
            Option.some.injEq, exists_eq_left', NameMap.find?_insert]
          rw [holds]
          split
          · simpa using ‹_›
          · simp only [‹¬ _›, iff_false]
            split <;> simp
        rw [unready]
        constructor
        · exact .readInOwnInitializer
        · rintro (⟨same⟩)
          exact same

/-- Behind a statement that declares nothing. -/
theorem behind_of_none
    (stands : Stands around before)
    (steady : Steady before after)
    (declares : statement.declarations = []) :
    Stands (around.behind statement) after :=
  ⟨reflects_behind_iff.mpr (steady.reflects stands.reflects),
    steady.scopes ▸ stands.innermost.behind_of_none declares⟩

/-- Behind a statement that declares a name. -/
theorem behind_of_one
    {name : Token}
    (stands : Stands around before)
    (declares : statement.declarations = [name])
    (steady : Steady (defined name before) after) :
    Stands (around.behind statement) after := by
  refine ⟨reflects_behind_iff.mpr (steady.reflects ?_), ?_⟩
  · exact ⟨stands.reflects.inFunction, stands.reflects.inClass⟩
  · rw [steady.scopes]
    exact stands.innermost.behind_of_one declares

/-- Behind a statement that declares what another one does. -/
theorem regroup
    (stands : Stands (around.behind other) before)
    (same : statement.declarations = other.declarations) :
    Stands (around.behind statement) before :=
  ⟨reflects_behind_iff.mpr (reflects_behind_iff.mp stands.reflects),
    stands.innermost.regroup same⟩

/-- Behind a statement that declares what two others do. -/
theorem regroupTwo
    {further : Stmt}
    (stands : Stands ((around.behind other).behind further) before)
    (same : statement.declarations =
      other.declarations ++ further.declarations) :
    Stands (around.behind statement) before :=
  ⟨reflects_behind_iff.mpr
    (reflects_behind_iff.mp (reflects_behind_iff.mp stands.reflects)),
    stands.innermost.regroupTwo same⟩

/-- Into a block. -/
theorem block
    (stands : Stands around before) :
    Stands (.block [] :: around)
      { before with scopes := NameMap.empty :: before.scopes } where
  reflects := ⟨by simpa [Enclosure.IsFunction] using stands.reflects.inFunction,
    stands.reflects.inClass⟩
  innermost := .within trivial Scope.holds_empty

end Stands

/-- Into a function. -/
theorem Reflects.function
    {before : Analysis}
    (reflects : Reflects around before) :
    Stands (.function [] [] :: around)
      { before with
        inFunction := true, scopes := NameMap.empty :: before.scopes } where
  reflects := ⟨by simp [Enclosure.IsFunction], reflects.inClass⟩
  innermost := .within trivial Scope.holds_empty

/-- Into the methods of a class, whatever its scopes are. -/
theorem Reflects.classBody
    {name : Token}
    {before middle : Analysis}
    {superclass : Option SuperclassRef}
    (reflects : Reflects around before)
    (headed :
      Steady { defined name before with
        inClass := if superclass.isSome then .derived else .plain } middle)
    (scopes : List Scope) :
    Reflects (.classBody superclass :: around)
      { middle with scopes := scopes } := by
  refine ⟨?_, ?_⟩
  · have inFunction : middle.inFunction = before.inFunction := headed.inFunction
    simpa [Enclosure.IsFunction, inFunction] using reflects.inFunction
  · have inClass := headed.inClass
    cases superclass <;> exact inClass

/-- A name is declared, and ready at once. -/
theorem judges_declareReady
    {before : Analysis}
    {others : List Spot}
    {next : Resolve Unit}
    {good : Analysis → Prop}
    (innermost : Scoped around before.scopes)
    (name : Token)
    (judges : Judges others next (defined name before) good) :
    Judges (⟨.declares name, around⟩ :: others)
      (do declare name; define name; next) before good := by
  refine (judges_declare innermost name).andThen ?_
  rintro _ rfl
  refine .afterOk (define_eq name _) ?_
  rw [defined_declared]
  exact judges

/-- The parameters of a function are declared one behind the other. -/
theorem judges_declareParameters
    (params : List Token)
    {earlier : List Token}
    {before : Analysis}
    (stands : Stands (.function earlier [] :: around) before) :
    Judges (parameterSpots around earlier params)
      (params.forM declareParameter) before
      (Stands (.function (earlier ++ params) [] :: around)) := by
  induction params generalizing earlier before with
  | nil =>
      rw [List.append_nil]
      exact .ofOk rfl stands
  | cons param rest inductionHypothesis =>
      have standsNext : Stands (.function (earlier ++ [param]) [] :: around)
          (defined param before) := by
        refine ⟨⟨?_, stands.reflects.inClass⟩, ?_⟩
        · simpa [Enclosure.IsFunction, defined] using stands.reflects.inFunction
        · exact stands.innermost.declaring trivial (by simp [Enclosure.names])
      have judges := judges_declareReady stands.innermost param
        (inductionHypothesis standsNext)
      rw [List.append_assoc] at judges
      change Judges _
        ((do declare param; define param) >>= fun _ =>
          rest.forM declareParameter) before _
      rw [bind_assoc]
      exact judges

/-- A superclass is named: the class itself is none, and otherwise it is
read. -/
theorem judges_inherit
    {before : Analysis}
    {name : Token}
    {superclass : SuperclassRef}
    (unready :
      Unready superclass.name before.scopes ↔
        Spot.Misuses ⟨.reads superclass.name, around⟩ .readInOwnInitializer) :
    Judges [⟨.inherits name superclass.name, around⟩,
      ⟨.reads superclass.name, around⟩] (Resolve.inherit name superclass) before
      (Steady { before with inClass := .derived }) := by
  by_cases same : superclass.name.lexeme = name.lexeme
  · have fails : Resolve.inherit name superclass before =
        .error (Spot.error ⟨.inherits name superclass.name, around⟩
          .selfInheritance) { before with inClass := .derived } := by
      unfold Resolve.inherit
      simp only [same, if_true]
      rfl
    exact .ofMisuse (.selfInheritance same) fails
  · have reads : Judges [⟨.reads superclass.name, around⟩]
        (Resolve.read superclass.id superclass.name)
        { before with inClass := .derived }
        fun _ => True := by
      apply judges_read
      exact unready
    refine .ofSound ?_ ?_
      (reads.steady (files_read superclass.id superclass.name).restores)
    · rintro fault ⟨⟩
      exact same ‹_›
    · unfold Resolve.inherit
      simp only [same, if_false]
      rfl

/-- The heading of a class declares its name, and reads its superclass. -/
theorem judges_heading
    {before : Analysis}
    (stands : Stands around before)
    (name : Token)
    (superclass : Option SuperclassRef) :
    Judges (headingSpots around name superclass)
      (heading name superclass) before (Steady { defined name before with
        inClass := if superclass.isSome then .derived else .plain }) := by
  have enters : enterClass .plain before = .ok ()
      { before with inClass := .plain } := rfl
  have innermost : Scoped around { before with inClass := .plain }.scopes :=
    stands.innermost
  refine .afterOk enters ?_
  cases superclass with
  | none => exact judges_declareReady innermost name (.ofOk rfl ⟨rfl, rfl, rfl⟩)
  | some named =>
      refine judges_declareReady innermost name
        ((judges_inherit ?_).weaken fun _ => id)
      have standsNext : Stands (around.behind (.varDecl name none))
          (defined name before) :=
        stands.behind_of_one rfl ⟨rfl, rfl, rfl⟩
      constructor
      · intro unready
        exact absurd unready (standsNext.innermost.not_unready named.name)
      · intro misuses
        cases misuses with
        | readInOwnInitializer => exact stands.innermost.isLocal.elim

mutual

/-- The analysis of a statement passes over its spots. -/
theorem Stmt.judges_resolve
    {around : Surroundings} :
    (statement : Stmt) → {before : Analysis} → Stands around before →
      Judges (statement.spots around) statement.resolve before
        (Stands (around.behind statement))
  | .print value, _, stands =>
      (value.judges_resolve stands.reads).weaken fun _ steady =>
        stands.behind_of_none steady rfl
  | .expression value, _, stands =>
      (value.judges_resolve stands.reads).weaken fun _ steady =>
        stands.behind_of_none steady rfl
  | .varDecl name initializer, before, stands => by
      refine (judges_declare stands.innermost name).andThen ?_
      rintro _ rfl
      have initializes :=
        judges_resolveOptional initializer (stands.reads_initializer name)
      have defines :
          Judges (optionalSpots (.initializer name :: around) initializer ++ [])
          (do resolveOptional initializer; define name) (declared name before)
          (Stands (around.behind (.varDecl name initializer))) :=
        initializes.andThen fun middle steady =>
          .ofOk (define_eq name middle) (stands.behind_of_one rfl steady.define)
      rw [List.append_nil] at defines
      exact defines
  | .block body, _, stands =>
      ((Stmt.judges_resolveAll body stands.block).within.steady
        ((Stmt.keeps_resolveAll body).within _)).weaken fun _ steady =>
          stands.behind_of_none steady rfl
  | .conditional condition thenBranch none, _, stands =>
      (condition.judges_resolve stands.reads).andThen fun _ steady =>
        (thenBranch.judges_resolve (steady.stands stands)).weaken fun _ ends =>
          ends.regroup rfl
  | .conditional condition thenBranch (some elseBranch), _, stands =>
      (condition.judges_resolve stands.reads).andThen fun _ steady =>
        (thenBranch.judges_resolve (steady.stands stands)).andThen
          fun _ standsElse =>
            (elseBranch.judges_resolve standsElse).weaken fun _ ends =>
              ends.regroupTwo rfl
  | .loop condition body, _, stands =>
      (condition.judges_resolve stands.reads).andThen fun _ steady =>
        (body.judges_resolve (steady.stands stands)).weaken fun _ ends =>
          ends.regroup rfl
  | .funDecl declaration, before, stands => by
      have reflects : Reflects around (defined declaration.name before) :=
        ⟨stands.reflects.inFunction, stands.reflects.inClass⟩
      exact judges_declareReady stands.innermost declaration.name
        ((declaration.judges_resolve reflects).weaken fun _ steady =>
          stands.behind_of_one rfl steady)
  | .ret keyword value, _, stands => by
      refine (judges_allowReturn stands.reflects keyword).andThen ?_
      rintro _ rfl
      exact (judges_resolveOptional value stands.reads).weaken fun _ steady =>
        stands.behind_of_none steady rfl
  | .classDecl name superclass methods, before, stands => by
      refine .congr (resolve_classDecl name superclass methods before) ?_
      refine (judges_heading stands name superclass).andThen
        fun middle headed => ?_
      have restores :=
        (FunctionDecl.restores_resolveAll methods).withinClass superclass
      have judges :
          Judges (FunctionDecl.spotsAll
          (.classBody superclass :: around) methods)
          (withinClass superclass (FunctionDecl.resolveAll methods)) middle
          fun _ => True :=
        .withinClass fun scopes =>
          (FunctionDecl.judges_resolveAll methods
            (stands.reflects.classBody headed scopes)).weaken fun _ _ => trivial
      refine (judges.steady restores).leavingClass.weaken fun after left => ?_
      refine stands.behind_of_one rfl ?_
      exact ⟨left.scopes.trans headed.scopes,
        left.inFunction.trans headed.inFunction, left.inClass⟩
  | .require _ _, _, stands =>
      .ofOk rfl (stands.behind_of_none ⟨rfl, rfl, rfl⟩ rfl)

/-- The analysis of statements passes over their spots. -/
theorem Stmt.judges_resolveAll
    {around : Surroundings} :
    (statements : List Stmt) → {before : Analysis} → Stands around before →
      Judges (Stmt.spotsAll around statements)
        (Stmt.resolveAll statements) before
        fun _ => True
  | [], _, _ => .ofOk rfl trivial
  | first :: rest, _, stands =>
      (first.judges_resolve stands).andThen fun _ standsNext =>
        Stmt.judges_resolveAll rest standsNext

/-- The analysis of a function passes over its spots. -/
theorem FunctionDecl.judges_resolve
    {around : Surroundings} :
    (declaration :
      FunctionDecl) → {before : Analysis} → Reflects around before →
      Judges (declaration.spots around) declaration.resolve before
        (Steady before)
  | ⟨name, params, body⟩, _, reflects =>
      ((judges_declareParameters params reflects.function).andThen
        fun _ standsBody =>
          Stmt.judges_resolveAll body standsBody).within.withinFunction.steady
            (FunctionDecl.restores_resolve ⟨name, params, body⟩)

/-- The analysis of functions passes over their spots. -/
theorem FunctionDecl.judges_resolveAll
    {around : Surroundings} :
    (declarations :
      List FunctionDecl) → {before : Analysis} → Reflects around before →
      Judges (FunctionDecl.spotsAll around declarations)
        (FunctionDecl.resolveAll declarations) before (Steady before)
  | [], _, _ => .ofOk rfl ⟨rfl, rfl, rfl⟩
  | first :: rest, _, reflects =>
      (first.judges_resolve reflects).inRow fun _ steady =>
        FunctionDecl.judges_resolveAll rest (steady.reflects reflects)

end

/-- The analysis of a program starts with nothing around. -/
theorem stands_top :
    Stands [] {} :=
  ⟨⟨by simp, rfl⟩, .top⟩

/-- A program is accepted exactly if none of its spots misuses its scopes, and
is otherwise rejected with the error that reports the first one that does, in
the order in which the analysis comes to them. -/
theorem resolveProgram_rejects_exactly_misuses
    (statements : List Stmt) :
    ((∃ distances, resolveProgram statements = .ok distances) ↔
      ∀ spot ∈ Stmt.spotsAll [] statements, spot.Sound) ∧
    ∀ error, resolveProgram statements = .error error ↔
      Spot.FirstMisuse (Stmt.spotsAll [] statements) error := by
  have judges := Stmt.judges_resolveAll statements stands_top
  unfold Judges Leads at judges
  unfold resolveProgram
  cases outcome : Stmt.resolveAll statements {} with
  | ok value analysis =>
      simp only [outcome] at judges
      refine ⟨⟨fun _ => judges.1, fun _ => ⟨_, rfl⟩⟩, fun error =>
        ⟨nofun, fun first => ?_⟩⟩
      exact absurd judges.1 first.not_allSound
  | error reported analysis =>
      simp only [outcome] at judges
      refine ⟨⟨nofun, fun allSound => absurd allSound judges.not_allSound⟩,
        fun error => ?_⟩
      constructor
      · rintro ⟨⟩
        exact judges
      · intro first
        rw [judges.unique first]

end LoxScript
