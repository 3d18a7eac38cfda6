import LoxScript.Proofs.Renaming.Code
import LoxScript.Proofs.Scope.Position
import LoxScript.Proofs.Tree.Alike

namespace LoxScript

/-!
# Scopes with other names

The analysis of a program with a renamed variable goes the way of the analysis
of the program itself: at each node the scopes are the same under other names,
so the node gets the same distance, and what is accepted in one is accepted in
the other.
-/

open Analysis Resolve

/-- The same token, which is spelled otherwise. -/
def Token.Avoids (name : String) (token other : Token) : Prop :=
  other = token ∧ token.lexeme ≠ name

namespace Relabelling

variable {r : Relabelling}

/-- A renamed token is spelled as in a scope that is marked. -/
theorem lexeme_token
    {name : Token}
    (fresh : name.lexeme ≠ r.new)
    (marked : Bool) :
    (r.token marked name).lexeme = r.spelled marked name.lexeme := by
  unfold Renaming.token
  cases marked with
  | false => simp
  | true =>
      by_cases isOld : name.lexeme = r.old
      · simp [isOld, Renaming.spelled]
      · rw [if_neg (by simp [isOld]), spelled_of_ne isOld fresh]

/-- A renamed token stays on its line. -/
theorem line_token
    (name : Token)
    (marked : Bool) :
    (r.token marked name).line = name.line := by
  unfold Renaming.token
  split <;> rfl

end Relabelling

variable (r : Relabelling)

/-- Scopes that declare the same under other names; the first ones do not
declare the new name. -/
inductive Scope.Twins : Marks → List Scope → List Scope → Prop where
  | nil :
      Twins [] [] []
  | cons {marked marks scope image outer outerImage} :
      (∀ name, image.find? (r.spelled marked name) = scope.find? name) →
      scope.find? r.new = none →
      Twins marks outer outerImage →
      Twins (marked :: marks) (scope :: outer) (image :: outerImage)

/-- Analyses in the same place under other names. -/
structure Analysis.Twin (marks : Marks) (analysis image : Analysis) : Prop where
  scopes : Scope.Twins r marks analysis.scopes image.scopes
  inFunction : image.inFunction = analysis.inFunction
  inClass : image.inClass = analysis.inClass
  distances : image.distances = analysis.distances

/-- If the first step succeeds, so does the second, and the analyses stay
twins. -/
def Follows
    (marks : Marks)
    (step stepImage : Resolve Unit)
    (before beforeImage : Analysis) : Prop :=
  ∀ after, step before = .ok () after →
    ∃ afterImage, stepImage beforeImage = .ok () afterImage ∧
      after.Twin r marks afterImage

variable {r} {marks : Marks} {before beforeImage : Analysis}

namespace Scope

/-- A name that a scope does not declare is not declared by its twin, however it
is spelled. -/
theorem find?_of_absent
    {marked : Bool}
    {scope image : Scope}
    {name : String}
    (same : ∀ name, image.find? (r.spelled marked name) = scope.find? name)
    (newAbsent : scope.find? r.new = none)
    (absent : scope.find? name = none)
    (fresh : name ≠ r.new)
    (spelling : Bool) :
    image.find? (r.spelled spelling name) = none := by
  have found := same (r.spelled marked (r.spelled spelling name))
  rw [Relabelling.spelled_spelled] at found
  rw [found]
  by_cases isOld : name = r.old
  · subst isOld
    cases marked <;> cases spelling <;>
      simp [Renaming.spelled, absent, newAbsent]
  · rw [Relabelling.spelled_of_ne isOld fresh,
      Relabelling.spelled_of_ne isOld fresh]
    exact absent

/-- Twins have a name at one distance, as it is spelled in the scope there. -/
theorem Twins.distance?
    {scopes images : List Scope}
    {name : String}
    (twins : Scope.Twins r marks scopes images)
    (fresh : name ≠ r.new) :
    Scope.distance?
      (r.spelled ((Scope.distance? name scopes).elim false marks.marked) name)
      images = Scope.distance? name scopes := by
  induction twins with
  | nil =>
      rfl
  | @cons marked marks scope image outer outerImage same newAbsent outers
    inductionHypothesis =>
      cases found : scope.find? name with
      | some ready =>
          have here : Scope.distance? name (scope :: outer) = some 0 := by
            simp [Scope.distance?, NameMap.contains, found]
          rw [here]
          simp [Scope.distance?, NameMap.contains, Marks.marked, same, found]
      | none =>
          have further : Scope.distance? name (scope :: outer) =
              (Scope.distance? name outer).map (· + 1) := by
            simp [Scope.distance?, NameMap.contains, found]
          have shifted : ((Scope.distance? name outer).map (· + 1)).elim false
              (Marks.marked (marked :: marks)) =
              (Scope.distance? name outer).elim false marks.marked := by
            cases Scope.distance? name outer <;> simp [Marks.marked]
          have absent := find?_of_absent same newAbsent found fresh
            ((Scope.distance? name outer).elim false marks.marked)
          rw [further, shifted]
          simp [Scope.distance?, NameMap.contains, absent, inductionHypothesis]

/-- A name that is not exchanged is at one distance. -/
theorem Twins.distance?_of_ne
    {scopes images : List Scope}
    {name : String}
    (twins : Scope.Twins r marks scopes images)
    (isNotOld : name ≠ r.old)
    (fresh : name ≠ r.new) :
    Scope.distance? name images = Scope.distance? name scopes := by
  have same := twins.distance? fresh
  rwa [Relabelling.spelled_of_ne isNotOld fresh] at same

end Scope

namespace Follows

/-- Steps that do nothing. -/
theorem ofPure
    (twin : before.Twin r marks beforeImage) :
    Follows r marks (pure ()) (pure ()) before beforeImage := by
  rintro _ ⟨⟩
  exact ⟨beforeImage, rfl, twin⟩

/-- Steps one after the other. -/
theorem andThen
    {step stepImage next nextImage : Resolve Unit}
    (follows : Follows r marks step stepImage before beforeImage)
    (followsNext :
      ∀ middle middleImage, step before = .ok () middle →
        middle.Twin r marks middleImage →
        Follows r marks next nextImage middle middleImage) :
    Follows r marks (step >>= fun _ => next)
      (stepImage >>= fun _ => nextImage) before
      beforeImage := by
  intro after resolved
  obtain ⟨⟨⟩, middle, first, second⟩ := bind_eq_ok_iff.mp resolved
  obtain ⟨middleImage, firstImage, twin⟩ := follows middle first
  obtain ⟨afterImage, secondImage, twinAfter⟩ :=
    followsNext middle middleImage first twin after second
  exact ⟨afterImage, (bind_of_ok firstImage).trans secondImage, twinAfter⟩

/-- Steps inside one more scope. -/
theorem within
    {step stepImage : Resolve Unit}
    {scope scopeImage : Scope}
    (marked : Bool)
    (follows :
      Follows r (marked :: marks) step stepImage
        { before with scopes := scope :: before.scopes }
        { beforeImage with scopes := scopeImage :: beforeImage.scopes }) :
    Follows r marks (within scope step) (within scopeImage stepImage) before
      beforeImage := by
  intro after resolved
  obtain ⟨inner, resolvedInner, rfl⟩ := within_eq_ok_iff.mp resolved
  obtain ⟨innerImage, resolvedImage, twin⟩ := follows inner resolvedInner
  refine ⟨_, within_eq_ok_iff.mpr ⟨innerImage, resolvedImage, rfl⟩, ?_,
    twin.inFunction, twin.inClass, twin.distances⟩
  have scopes := twin.scopes
  generalize inner.scopes = scopes, innerImage.scopes = images at scopes
  cases scopes with
  | cons _ _ outers => exact outers

/-- Steps inside a function. -/
theorem withinFunction
    {step stepImage : Resolve Unit}
    (inFunction : beforeImage.inFunction = before.inFunction)
    (follows :
      Follows r marks step stepImage { before with inFunction := true }
        { beforeImage with inFunction := true }) :
    Follows r marks (withinFunction step) (withinFunction stepImage) before
      beforeImage := by
  intro after resolved
  obtain ⟨inner, resolvedInner, rfl⟩ := withinFunction_eq_ok_iff.mp resolved
  obtain ⟨innerImage, resolvedImage, twin⟩ := follows inner resolvedInner
  exact ⟨_, withinFunction_eq_ok_iff.mpr ⟨innerImage, resolvedImage, rfl⟩,
    twin.scopes, inFunction, twin.inClass, twin.distances⟩

end Follows

/-- Filing the distance of a node. -/
theorem follows_file
    {id : NodeId}
    {name image : Token}
    (twin : before.Twin r marks beforeImage)
    (same :
      Scope.distance? image.lexeme beforeImage.scopes =
        Scope.distance? name.lexeme before.scopes) :
    Follows r marks (file id name) (file id image) before beforeImage := by
  rintro _ ⟨⟩
  refine ⟨_, rfl, ?_⟩
  dsimp only
  rw [same]
  split
  · rename_i distance _
    have filed : beforeImage.distances.insert id distance =
        before.distances.insert id distance := by
      rw [twin.distances]
    exact { twin with distances := filed }
  · exact twin

/-- The second name is the first as it is spelled in the scope that declares
it. -/
def Scope.Names (r : Relabelling) (marks : Marks) (scopes : List Scope)
    (name image : Token) :
    Prop :=
  image.lexeme =
    r.spelled ((Scope.distance? name.lexeme scopes).elim false marks.marked)
      name.lexeme

/-- Reading a variable. -/
theorem follows_read
    {id : NodeId}
    {name image : Token}
    (twin : before.Twin r marks beforeImage)
    (fresh : name.lexeme ≠ r.new)
    (named : Scope.Names r marks before.scopes name image) :
    Follows r marks (read id name) (read id image) before beforeImage := by
  intro after reads
  obtain ⟨ready, files⟩ := read_eq_ok reads
  have same := twin.scopes.distance? fresh
  rw [← named] at same
  have readyImage :
      ∀ scope ∈ beforeImage.scopes.head?,
        scope.find? image.lexeme ≠ some false := by
    have scopes := twin.scopes
    unfold Scope.Names at named
    generalize before.scopes = scopes, beforeImage.scopes =
      images at scopes ready named
    cases scopes with
    | nil => simp
    | @cons marked _ scope scopeImage outer _ sameNames newAbsent _ =>
        rintro _ ⟨⟩
        have isReady := ready scope rfl
        cases found : scope.find? name.lexeme with
        | none =>
            rw [named, Scope.find?_of_absent sameNames newAbsent found fresh]
            exact nofun
        | some value =>
            have here : Scope.distance? name.lexeme (scope :: outer) =
                some 0 := by
              simp [Scope.distance?, NameMap.contains, found]
            rw [here] at named
            have spelled : image.lexeme = r.spelled marked name.lexeme := named
            rw [spelled, sameNames]
            exact isReady
  obtain ⟨afterImage, filesImage, twinAfter⟩ :=
    follows_file twin same after files
  exact ⟨afterImage, (read_of_ready readyImage).trans filesImage, twinAfter⟩

/-- A name is declared in both innermost scopes. -/
theorem Scope.Twins.inserted
    {marked : Bool}
    {scope image : Scope}
    {outer outerImage : List Scope}
    {name : String}
    (twins : Scope.Twins r (marked :: marks) (scope :: outer)
      (image :: outerImage))
    (fresh : name ≠ r.new)
    (ready : Bool) :
    Scope.Twins r (marked :: marks) (scope.insert name ready :: outer)
      (image.insert (r.spelled marked name) ready :: outerImage) := by
  cases twins with
  | cons same newAbsent outers =>
      refine .cons ?_ ?_ outers
      · intro other
        rw [NameMap.find?_insert, NameMap.find?_insert, same]
        simp
      · rw [NameMap.find?_insert, if_neg fresh]
        exact newAbsent

namespace Analysis.Twin

variable {name image : Token}

/-- Twins stay twins when a name is declared in both. -/
theorem declared
    (twin : before.Twin r marks beforeImage)
    (fresh : name.lexeme ≠ r.new)
    (spelled : image.lexeme = r.spelled marks.here name.lexeme) :
    (declared name before).Twin r marks (declared image beforeImage) := by
  obtain ⟨scopes, inFunction, inClass, distances⟩ := before
  obtain ⟨images, inFunctionImage, inClassImage, distancesImage⟩ := beforeImage
  obtain ⟨twins, sameFunction, sameClass, sameDistances⟩ := twin
  cases twins with
  | nil => exact ⟨.nil, sameFunction, sameClass, sameDistances⟩
  | @cons marked _ _ _ _ _ same newAbsent outers =>
      have named : image.lexeme = r.spelled marked name.lexeme := spelled
      have grown :=
        (Scope.Twins.cons same newAbsent outers).inserted fresh false
      simp only [Resolve.declared, named]
      exact ⟨grown, sameFunction, sameClass, sameDistances⟩

/-- Twins stay twins when a name gets ready in both. -/
theorem defined
    (twin : before.Twin r marks beforeImage)
    (fresh : name.lexeme ≠ r.new)
    (spelled : image.lexeme = r.spelled marks.here name.lexeme) :
    (defined name before).Twin r marks (defined image beforeImage) := by
  obtain ⟨scopes, inFunction, inClass, distances⟩ := before
  obtain ⟨images, inFunctionImage, inClassImage, distancesImage⟩ := beforeImage
  obtain ⟨twins, sameFunction, sameClass, sameDistances⟩ := twin
  cases twins with
  | nil => exact ⟨.nil, sameFunction, sameClass, sameDistances⟩
  | @cons marked _ _ _ _ _ same newAbsent outers =>
      have named : image.lexeme = r.spelled marked name.lexeme := spelled
      have grown := (Scope.Twins.cons same newAbsent outers).inserted fresh true
      simp only [Resolve.defined, Scope.declaring, named]
      exact ⟨grown, sameFunction, sameClass, sameDistances⟩

/-- A name that may be declared in one may be declared in the other. -/
theorem declarable
    (twin : before.Twin r marks beforeImage)
    (spelled : image.lexeme = r.spelled marks.here name.lexeme)
    (free : Declarable name before) :
    Declarable image beforeImage := by
  obtain ⟨scopes, inFunction, inClass, distances⟩ := before
  obtain ⟨images, inFunctionImage, inClassImage, distancesImage⟩ := beforeImage
  obtain ⟨twins, -, -, -⟩ := twin
  cases twins with
  | nil => exact nofun
  | @cons marked _ scope _ _ _ same =>
      have named : image.lexeme = r.spelled marked name.lexeme := spelled
      rintro _ ⟨⟩
      rw [named, NameMap.contains, same]
      exact free scope rfl

end Analysis.Twin

section Declarations

variable {name image : Token}

/-- Declaring a name. -/
theorem follows_declare
    (twin : before.Twin r marks beforeImage)
    (fresh : name.lexeme ≠ r.new)
    (spelled : image.lexeme = r.spelled marks.here name.lexeme) :
    Follows r marks (declare name) (declare image) before beforeImage := by
  intro after declares
  obtain ⟨free, rfl⟩ := declare_eq_ok_iff.mp declares
  exact ⟨_, declare_of_free (twin.declarable spelled free),
    twin.declared fresh spelled⟩

/-- Making a name ready. -/
theorem follows_define
    (twin : before.Twin r marks beforeImage)
    (fresh : name.lexeme ≠ r.new)
    (spelled : image.lexeme = r.spelled marks.here name.lexeme) :
    Follows r marks (define name) (define image) before beforeImage := by
  intro after defines
  rw [define_eq] at defines
  cases defines
  exact ⟨_, define_eq image beforeImage, twin.defined fresh spelled⟩

/-- Declaring parameters, which are spelled as in one scope. -/
theorem follows_declareParameters
    (params : List Token)
    (twin : before.Twin r marks beforeImage)
    (fresh : ∀ param ∈ params, param.lexeme ≠ r.new) :
    Follows r marks (params.forM declareParameter)
      ((params.map (r.token marks.here)).forM declareParameter) before
      beforeImage := by
  induction params generalizing before beforeImage with
  | nil =>
      exact .ofPure twin
  | cons param rest inductionHypothesis =>
      have isFresh : param.lexeme ≠ r.new := fresh param (by simp)
      have spelled := Relabelling.lexeme_token isFresh marks.here
      have followsFirst : Follows r marks (declareParameter param)
          (declareParameter (r.token marks.here param)) before beforeImage :=
        (follows_declare twin isFresh spelled).andThen fun _ _ _ middle =>
          follows_define middle isFresh spelled
      exact followsFirst.andThen fun _ _ _ middle =>
        inductionHypothesis middle fun other member =>
          fresh other (by simp [member])

end Declarations

section Keywords

variable {id : NodeId} {keyword : Token}

/-- Using `this`. -/
theorem follows_useThis
    (twin : before.Twin r marks beforeImage)
    (isNotOld : keyword.lexeme ≠ r.old)
    (fresh : keyword.lexeme ≠ r.new) :
    Follows r marks (useThis id keyword) (useThis id keyword) before
      beforeImage := by
  intro after uses
  obtain ⟨inside, files⟩ := useThis_eq_ok uses
  have same := twin.scopes.distance?_of_ne isNotOld fresh
  obtain ⟨afterImage, filesImage, twinAfter⟩ :=
    follows_file twin same after files
  refine ⟨afterImage, Eq.trans ?_ filesImage, twinAfter⟩
  unfold useThis
  rw [bind_get, twin.inClass]
  cases context : before.inClass with
  | outside => exact absurd context inside
  | plain => rfl
  | derived => rfl

/-- Using `super`. -/
theorem follows_useSuper
    (twin : before.Twin r marks beforeImage)
    (isNotOld : keyword.lexeme ≠ r.old)
    (fresh : keyword.lexeme ≠ r.new) :
    Follows r marks (useSuper id keyword) (useSuper id keyword) before
      beforeImage := by
  intro after uses
  obtain ⟨inside, files⟩ := useSuper_eq_ok uses
  have same := twin.scopes.distance?_of_ne isNotOld fresh
  obtain ⟨afterImage, filesImage, twinAfter⟩ :=
    follows_file twin same after files
  refine ⟨afterImage, Eq.trans ?_ filesImage, twinAfter⟩
  unfold useSuper
  rw [bind_get, twin.inClass, inside]

/-- A `return` is met. -/
theorem follows_allowReturn
    (twin : before.Twin r marks beforeImage) :
    Follows r marks (allowReturn keyword) (allowReturn keyword) before
      beforeImage := by
  intro after allowed
  have inside := inFunction_of_allowReturn allowed
  cases allowReturn_eq_ok allowed
  refine ⟨beforeImage, ?_, twin⟩
  unfold allowReturn
  rw [bind_get, twin.inFunction, inside]
  rfl

end Keywords

namespace Analysis.Twin

/-- One more scope, which declares nothing yet. -/
theorem enter
    (twin : before.Twin r marks beforeImage)
    (marked : Bool) :
    Analysis.Twin r (marked :: marks)
      { before with scopes := NameMap.empty :: before.scopes }
      { beforeImage with scopes := NameMap.empty :: beforeImage.scopes } :=
  ⟨.cons (fun _ => rfl) rfl twin.scopes, twin.inFunction, twin.inClass,
    twin.distances⟩

/-- A scope that declares a reserved word, for which no name is exchanged. -/
theorem enterReserved
    {reserved : String}
    (twin : before.Twin r marks beforeImage)
    (isReserved : r.new ≠ reserved) :
    Analysis.Twin r (false :: marks)
      { before with
        scopes := NameMap.empty.insert reserved true :: before.scopes }
      { beforeImage with
        scopes := NameMap.empty.insert reserved true ::
          beforeImage.scopes } := by
  refine ⟨.cons (fun _ => rfl) ?_ twin.scopes, twin.inFunction, twin.inClass,
    twin.distances⟩
  rw [NameMap.find?_insert, if_neg isReserved.symm]
  rfl

end Analysis.Twin

section Classes

variable {name : Token} {superclass : Option SuperclassRef}

/-- Entering a class. -/
theorem follows_enterClass
    (twin : before.Twin r marks beforeImage)
    (context : ClassContext) :
    Follows r marks (enterClass context) (enterClass context) before
      beforeImage := by
  rintro _ ⟨⟩
  exact ⟨_, rfl, twin.scopes, twin.inFunction, rfl, twin.distances⟩

/-- Leaving a class. -/
theorem Follows.leavingClass
    {step stepImage : Resolve Unit}
    (follows : Follows r marks step stepImage before beforeImage)
    (context : ClassContext) :
    Follows r marks (leavingClass context step)
      (leavingClass context stepImage) before
      beforeImage := by
  intro after resolved
  unfold Resolve.leavingClass at resolved
  split at resolved
  · rename_i inner yields
    cases resolved
    obtain ⟨innerImage, yieldsImage, twin⟩ := follows inner yields
    refine ⟨{ innerImage with inClass := context }, ?_, twin.scopes,
      twin.inFunction, rfl, twin.distances⟩
    unfold Resolve.leavingClass
    rw [yieldsImage]
  · cases resolved

/-- The methods of a class. -/
theorem Follows.withinClass
    {step stepImage : Resolve Unit}
    (proper : r.Proper)
    (twin : before.Twin r marks beforeImage)
    (renamed : SuperclassRef → SuperclassRef)
    (follows :
      ∀ start startImage,
        start =
          { before with scopes := Scope.ofClass superclass ++ before.scopes } →
        start.Twin r (Marks.ofClass superclass marks) startImage →
        Follows r (Marks.ofClass superclass marks) step stepImage start
          startImage) :
    Follows r marks (withinClass superclass step)
      (withinClass (superclass.map renamed) stepImage) before beforeImage := by
  cases superclass with
  | none =>
      exact .within false (follows _ _ rfl (twin.enterReserved proper.newThis))
  | some named =>
      have outer := twin.enterReserved proper.newSuper
      exact .within false
        (.within false (follows _ _ rfl (outer.enterReserved proper.newThis)))

/-- The heading of a class without a superclass. -/
theorem follows_heading_none
    (twin : before.Twin r marks beforeImage)
    (fresh : name.lexeme ≠ r.new)
    (spares : r.Spares marks name) :
    Follows r marks (heading name none) (heading name none) before
      beforeImage := by
  unfold heading
  refine (follows_enterClass twin .plain).andThen fun _ _ _ entered => ?_
  refine (follows_declare entered fresh spares.symm).andThen
    fun _ _ _ declared => ?_
  refine (follows_define declared fresh spares.symm).andThen
    fun _ _ _ defined => ?_
  exact .ofPure defined

/-- Naming a superclass, which is not the class itself. -/
theorem follows_inherit
    {named image : SuperclassRef}
    (twin : before.Twin r marks beforeImage)
    (sameId : image.id = named.id)
    (fresh : named.name.lexeme ≠ r.new)
    (different :
      named.name.lexeme ≠ name.lexeme → image.name.lexeme ≠ name.lexeme)
    (isNamed : Scope.Names r marks before.scopes named.name image.name) :
    Follows r marks (Resolve.inherit name named)
      (Resolve.inherit name image) before
      beforeImage := by
  unfold Resolve.inherit
  refine (follows_enterClass twin .derived).andThen fun _ _ enters entered => ?_
  cases enters
  intro after reads
  dsimp only at reads ⊢
  split at reads
  · obtain ⟨_, _, fails, -⟩ := bind_eq_ok_iff.mp reads
    cases fails
  · rename_i isOther
    rw [if_neg (different isOther), sameId]
    exact follows_read entered fresh isNamed after reads

/-- The heading of a class with a superclass. -/
theorem follows_heading_some
    {named image : SuperclassRef}
    (twin : before.Twin r marks beforeImage)
    (fresh : name.lexeme ≠ r.new)
    (spares : r.Spares marks name)
    (sameId : image.id = named.id)
    (freshNamed : named.name.lexeme ≠ r.new)
    (different :
      named.name.lexeme ≠ name.lexeme → image.name.lexeme ≠ name.lexeme)
    (isNamed :
      Scope.Names r marks (Scope.declaring (some name) before.scopes) named.name
        image.name) :
    Follows r marks (heading name (some named))
      (heading name (some image)) before
      beforeImage := by
  unfold heading
  refine (follows_enterClass twin .plain).andThen fun _ _ enters entered => ?_
  cases enters
  refine (follows_declare entered fresh spares.symm).andThen
    fun _ _ declares declared => ?_
  obtain ⟨-, rfl⟩ := declare_eq_ok_iff.mp declares
  refine (follows_define declared fresh spares.symm).andThen
    fun _ _ defines defined => ?_
  rw [define_eq, defined_declared] at defines
  cases defines
  exact follows_inherit defined sameId freshNamed different isNamed

/-- A class. -/
theorem follows_classDecl
    {superclassImage : Option SuperclassRef}
    {methods methodsImage : List FunctionDecl}
    (sameClass : beforeImage.inClass = before.inClass)
    (heads :
      Follows r marks (heading name superclass) (heading name superclassImage)
        before beforeImage)
    (members :
      ∀ middle middleImage, heading name superclass before = .ok () middle →
        middle.Twin r marks middleImage →
        Follows r marks
          (withinClass superclass (FunctionDecl.resolveAll methods))
          (withinClass superclassImage (FunctionDecl.resolveAll methodsImage))
            middle
          middleImage) :
    Follows r marks (Stmt.resolve (.classDecl name superclass methods))
      (Stmt.resolve (.classDecl name superclassImage methodsImage)) before
      beforeImage := by
  intro after resolved
  rw [resolve_classDecl] at resolved ⊢
  rw [sameClass]
  exact (heads.andThen fun middle middleImage headed twin =>
    (members middle middleImage headed twin).leavingClass before.inClass)
      after resolved

end Classes

end LoxScript
