import LoxScript.Proofs.Scope.Corresponding

namespace LoxScript

/-!
# One analysis for several programs

A host may hand one program after another to the same analysis, and go on after
an error.  Whatever happened before, no scope is left open and the code at hand
belongs to no function.  It belongs to no class either, unless an earlier
program failed in the heading of a class that no other class was around: then
the analysis stays in that class for good, and accepts a `this` that a fresh one
rejects.
-/

open Analysis Resolve

/-- One analysis is the other with distances filed before. -/
structure Analysis.Overlays (earlier : Distances) (fresh used : Analysis) :
    Prop where
  scopes : used.scopes = fresh.scopes
  inFunction : used.inFunction = fresh.inFunction
  inClass : used.inClass = fresh.inClass
  distances : ∀ id : NodeId,
    used.distances[id]? = (fresh.distances[id]?).or earlier[id]?

namespace Resolve

/-- Distances filed before do not count: the step ends alike, with the same
error if it fails. -/
def Uniform (earlier : Distances) (step : Resolve Unit) : Prop :=
  ∀ fresh used, Overlays earlier fresh used →
    Mirrors step step fresh used
      (fun _ after _ afterUsed => Overlays earlier after afterUsed)
      (fun error after errorUsed afterUsed =>
        errorUsed = error ∧ Overlays earlier after afterUsed)

end Resolve

/-- Every tree is alike to itself, and is analysed as itself. -/
theorem Correspondence.exact_ofTokens_eq :
    (Correspondence.ofTokens Eq).Exact where
  lexemes _ _ same := congrArg Token.lexeme same.symm
  nodes _ _ _ _ same sameOther := by
    rw [← same, ← sameOther]

/-- Distances filed before do not count for statements. -/
theorem Stmt.uniform_resolveAll
    (earlier : Distances)
    (statements : List Stmt) :
    Uniform earlier (Stmt.resolveAll statements) := by
  intro fresh used overlays
  have alike : List.Forall₂ (Stmt.Alike (.ofTokens Eq)) statements statements :=
    Stmt.alike_selfAll statements ⟨fun _ => rfl, fun _ _ => rfl⟩
  have corresponds : Corresponds (.ofTokens Eq) earlier fresh used := by
    refine ⟨overlays.scopes, overlays.inFunction, overlays.inClass, ?_⟩
    rintro id _ rfl
    exact overlays.distances id
  have back : ∀ after afterUsed,
      Corresponds (.ofTokens Eq) earlier after afterUsed →
      Overlays earlier after afterUsed := fun _ _ left =>
    ⟨left.scopes, left.inFunction, left.inClass, fun id =>
      left.distances id id rfl⟩
  refine (Stmt.corresponding_resolveAll Correspondence.exact_ofTokens_eq
    statements alike fresh used corresponds).weaken ?_ ?_
  · exact fun _ after _ afterUsed _ _ left => back after afterUsed left
  · rintro error after errorUsed afterUsed ⟨errors, left⟩
    cases errors with
    | atToken same => exact ⟨by rw [same], back after afterUsed left⟩

mutual

/-- The analysis of the statement fails in the heading of a class that no other
class of the statement is around. -/
def Stmt.Strands : Stmt → Analysis → Prop
  | .block body, a =>
      Stmt.StrandsAll body { a with scopes := NameMap.empty :: a.scopes }
  | .conditional condition thenBranch none, a =>
      ∃ b, condition.resolve a = .ok () b ∧ thenBranch.Strands b
  | .conditional condition thenBranch (some elseBranch), a =>
      ∃ b, condition.resolve a = .ok () b ∧
        (thenBranch.Strands b ∨ ∃ c, thenBranch.resolve b = .ok () c ∧
          elseBranch.Strands c)
  | .loop condition body, a =>
      ∃ b, condition.resolve a = .ok () b ∧ body.Strands b
  | .funDecl declaration, a =>
      Declarable declaration.name a ∧
        declaration.Strands (defined declaration.name a)
  | .classDecl name superclass _, a =>
      ∃ error b, heading name superclass a = .error error b
  | _, _ => False

/-- The analysis of the statements fails in the heading of a class that no other
class is around. -/
def Stmt.StrandsAll : List Stmt → Analysis → Prop
  | [], _ => False
  | first :: rest, a =>
      first.Strands a ∨ ∃ b, first.resolve a = .ok () b ∧ Stmt.StrandsAll rest b

/-- The analysis of the function fails in the heading of a class that no other
class of the function is around. -/
def FunctionDecl.Strands : FunctionDecl → Analysis → Prop
  | ⟨_, params, body⟩, a =>
      ∃ b,
        params.forM declareParameter
            { a with inFunction := true, scopes := NameMap.empty :: a.scopes } =
            .ok () b ∧
          Stmt.StrandsAll body b

end

namespace Resolve

/-- Started in this analysis, the step leaves the class alone unless it is
stranded; then it fails inside of a class. -/
def StrandsOnly (stranded : Prop) (step : Resolve Unit) (before : Analysis) :
    Prop :=
  Leads step before
    (fun _ after => ¬ stranded ∧ after.inClass = before.inClass)
    (fun _ after =>
      (stranded → after.inClass ≠ .outside) ∧
        (¬ stranded → after.inClass = before.inClass))

variable {ids : List NodeId} {step : Resolve Unit} {stranded other : Prop}
variable {before after : Analysis}

/-- A step that leaves the class alone. -/
theorem Files.strandsOnly
    (files : Files ids step)
    (before : Analysis) :
    StrandsOnly False step before :=
  (files before).weaken (fun _ _ filed => ⟨id, filed.2⟩)
    fun _ _ filed => ⟨False.elim, fun _ => filed.2⟩

/-- The same in other words. -/
theorem StrandsOnly.congr
    (strandsOnly : StrandsOnly stranded step before)
    (same : stranded ↔ other) :
    StrandsOnly other step before :=
  (propext same : stranded = other) ▸ strandsOnly

/-- One step after the other. -/
theorem StrandsOnly.andThen
    {next : Unit → Resolve Unit}
    {other : Analysis → Prop}
    (first : StrandsOnly stranded step before)
    (second : ∀ middle, StrandsOnly (other middle) (next ()) middle) :
    StrandsOnly (stranded ∨ ∃ middle, step before = .ok () middle ∧
      other middle) (step >>= next) before := by
  cases outcome : step before with
  | ok value middle =>
      obtain ⟨passed, sameClass⟩ := Leads.ok first outcome
      have same : other middle ↔ stranded ∨ ∃ reached,
          (EStateM.Result.ok () middle :
            EStateM.Result ScopeError Analysis Unit) =
            .ok () reached ∧ other reached := by
        constructor
        · intro holds
          exact .inr ⟨middle, rfl, holds⟩
        · rintro (isStranded | ⟨_, isMiddle, holds⟩)
          · exact absurd isStranded passed
          · cases isMiddle
            exact holds
      have rest := (second middle).congr same
      unfold StrandsOnly Leads at rest ⊢
      rw [bind_of_ok outcome]
      rw [sameClass] at rest
      exact rest
  | error error middle =>
      have onError := Leads.error first outcome
      unfold StrandsOnly Leads
      rw [bind_of_error outcome]
      simpa using onError

/-- A step that leaves the class alone, and another one after it. -/
theorem StrandsOnly.followed
    {next : Resolve Unit}
    {other : Analysis → Prop}
    (first : StrandsOnly False step before)
    (second : ∀ middle, StrandsOnly (other middle) next middle) :
    StrandsOnly (∃ middle, step before = .ok () middle ∧ other middle)
      (do step; next) before := by
  have both : StrandsOnly (False ∨ ∃ middle, step before = .ok () middle ∧
      other middle)
      (do step; next) before :=
    first.andThen second
  exact both.congr (by simp)

/-- Two steps that leave the class alone. -/
theorem StrandsOnly.neither
    {next : Resolve Unit}
    (first : StrandsOnly False step before)
    (second : ∀ middle, StrandsOnly False next middle) :
    StrandsOnly False (do step; next) before :=
  (first.followed second).congr (by simp)

/-- Declaring a name leaves the class alone. -/
theorem strandsOnly_declare
    (name : Token)
    (before : Analysis) :
    StrandsOnly False (declare name) before := by
  unfold StrandsOnly Leads
  by_cases free : Declarable name before
  · rw [declare_of_free free]
    exact ⟨id, inClass_declared name before⟩
  · rw [declare_of_taken free]
    exact ⟨False.elim, fun _ => inClass_declared name before⟩

/-- Making a name ready leaves the class alone. -/
theorem strandsOnly_define
    (name : Token)
    (before : Analysis) :
    StrandsOnly False (define name) before := by
  unfold StrandsOnly Leads
  rw [define_eq]
  exact ⟨id, rfl⟩

/-- Declaring parameters leaves the class alone. -/
theorem strandsOnly_declareParameters
    (params : List Token)
    (before : Analysis) :
    StrandsOnly False (params.forM declareParameter) before := by
  induction params generalizing before with
  | nil =>
      exact (files_pure []).strandsOnly before
  | cons param rest inductionHypothesis =>
      have first : StrandsOnly False (declareParameter param) before :=
        (strandsOnly_declare param before).neither (strandsOnly_define param)
      exact first.neither inductionHypothesis

/-- A step inside one more scope. -/
theorem StrandsOnly.within
    {scope : Scope}
    (strandsOnly :
      StrandsOnly stranded step
      { before with scopes := scope :: before.scopes }) :
    StrandsOnly stranded (within scope step) before := by
  unfold StrandsOnly Leads Resolve.within at *
  split at strandsOnly
  · rename_i yields
    simp only [yields]
    exact strandsOnly
  · rename_i fails
    simp only [fails]
    exact strandsOnly

/-- A step as part of a function. -/
theorem StrandsOnly.withinFunction
    (strandsOnly :
      StrandsOnly stranded step { before with inFunction := true }) :
    StrandsOnly stranded (withinFunction step) before := by
  unfold StrandsOnly Leads Resolve.withinFunction at *
  split at strandsOnly
  · rename_i yields
    simp only [yields]
    exact strandsOnly
  · rename_i fails
    simp only [fails]
    exact strandsOnly

/-- However the heading of a class ends, the analysis is inside of a class. -/
theorem heading_inside
    (name : Token)
    (superclass : Option SuperclassRef)
    (before : Analysis) :
    Leads (heading name superclass) before
      (fun _ after => after.inClass ≠ .outside)
      (fun _ after => after.inClass ≠ .outside) := by
  have keepsInside {step : Resolve Unit}
      (strandsOnly : ∀ a, StrandsOnly False step a)
      {a : Analysis} (inside : a.inClass ≠ .outside) :
      Leads step a (fun _ b => b.inClass ≠ .outside)
        (fun _ b => b.inClass ≠ .outside) :=
    (strandsOnly a).weaken (fun _ _ kept => by rw [kept.2]; exact inside)
      fun _ _ kept => by rw [kept.2 id]; exact inside
  refine Leads.bind ?_
  refine Leads.ofModify ?_
  refine Leads.bind
    ((keepsInside (strandsOnly_declare name) (by simp)).weaken ?_ fun _ _ => id)
  intro _ _ inside
  refine Leads.bind
    ((keepsInside (strandsOnly_define name) inside).weaken ?_ fun _ _ => id)
  intro _ _ insideStill
  cases superclass with
  | none =>
      exact insideStill
  | some named =>
      refine Leads.bind (Leads.ofModify ?_)
      split
      · exact Leads.bind (Leads.ofThrow (by simp))
      · exact keepsInside (files_read named.id named.name).strandsOnly (by simp)

/-- A class is stranded exactly if its heading fails. -/
theorem strandsOnly_classDecl
    (name : Token)
    (superclass : Option SuperclassRef)
    (methods : List FunctionDecl)
    (before : Analysis) :
    StrandsOnly (∃ error after, heading name superclass before =
      .error error after)
      (Stmt.resolve (.classDecl name superclass methods)) before := by
  unfold StrandsOnly Leads
  rw [resolve_classDecl]
  cases headed : heading name superclass before with
  | ok value middle =>
      rw [bind_of_ok headed]
      unfold leavingClass
      split
      · rename_i yields
        split at yields <;> cases yields
        exact ⟨by simp, rfl⟩
      · rename_i fails
        split at fails <;> cases fails
        exact ⟨by simp, fun _ => rfl⟩
  | error error middle =>
      rw [bind_of_error headed]
      exact ⟨fun _ => (heading_inside name superclass before).error headed,
        fun never => absurd ⟨error, middle, rfl⟩ never⟩

end Resolve

mutual

/-- A statement leaves the class alone unless it is stranded. -/
theorem Stmt.strandsOnly_resolve :
    (statement : Stmt) → (before : Analysis) →
      StrandsOnly (statement.Strands before) statement.resolve before
  | .print value, before => value.files_resolve.strandsOnly before
  | .expression value, before => value.files_resolve.strandsOnly before
  | .varDecl name initializer, before =>
      (strandsOnly_declare name before).neither fun middle =>
        ((files_resolveOptional initializer).strandsOnly middle).neither
          (strandsOnly_define name)
  | .block body, before => (Stmt.strandsOnly_resolveAll body _).within
  | .conditional condition thenBranch none, before =>
      (condition.files_resolve.strandsOnly before).followed
        thenBranch.strandsOnly_resolve
  | .conditional condition thenBranch (some elseBranch), before =>
      (condition.files_resolve.strandsOnly before).followed fun middle =>
        (thenBranch.strandsOnly_resolve middle).andThen
          elseBranch.strandsOnly_resolve
  | .loop condition body, before =>
      (condition.files_resolve.strandsOnly before).followed
        body.strandsOnly_resolve
  | .funDecl declaration, before => by
      have inner := (strandsOnly_declare declaration.name before).followed
        fun middle =>
          (strandsOnly_define declaration.name middle).followed
            declaration.strandsOnly_resolve
      refine inner.congr ?_
      constructor
      · rintro ⟨middle, declares, last, defines, strands⟩
        obtain ⟨free, rfl⟩ := declare_eq_ok_iff.mp declares
        rw [define_eq, defined_declared] at defines
        cases defines
        exact ⟨free, strands⟩
      · rintro ⟨free, strands⟩
        refine ⟨_, declare_of_free free, _, define_eq _ _, ?_⟩
        rw [defined_declared]
        exact strands
  | .ret keyword value, before => by
      have allows : Files [] (allowReturn keyword) := by
        refine Files.look fun seen => ?_
        split
        · exact files_fail _ _ _
        · exact files_pure _
      exact (allows.strandsOnly before).neither
        (files_resolveOptional value).strandsOnly
  | .classDecl name superclass methods, before =>
      strandsOnly_classDecl name superclass methods before
  | .require _ _, before => (files_pure []).strandsOnly before

/-- Statements leave the class alone unless they are stranded. -/
theorem Stmt.strandsOnly_resolveAll :
    (statements : List Stmt) → (before : Analysis) →
      StrandsOnly (Stmt.StrandsAll statements before)
        (Stmt.resolveAll statements) before
  | [], before => (files_pure []).strandsOnly before
  | first :: rest, before =>
      (first.strandsOnly_resolve before).andThen
        (Stmt.strandsOnly_resolveAll rest)

/-- A function leaves the class alone unless it is stranded. -/
theorem FunctionDecl.strandsOnly_resolve :
    (declaration : FunctionDecl) → (before : Analysis) →
      StrandsOnly (declaration.Strands before) declaration.resolve before
  | ⟨_, params, body⟩, _ =>
      ((strandsOnly_declareParameters params _).followed
        (Stmt.strandsOnly_resolveAll body)).within.withinFunction

end

namespace Analysis

/-- The analysis after one more program, whether it was accepted or not. -/
def next (analysis : Analysis) (program : List Stmt) : Analysis :=
  match Stmt.resolveAll program analysis with
  | .ok _ after => after
  | .error _ after => after

/-- The analysis after programs, one after another. -/
def reuse (analysis : Analysis) (programs : List (List Stmt)) : Analysis :=
  programs.foldl next analysis

/-- One of the programs, handed to the analysis one after another, fails in the
heading of a class that no other class is around. -/
def Stranded : Analysis → List (List Stmt) → Prop
  | _, [] => False
  | analysis, program :: rest =>
      Stmt.StrandsAll program analysis ∨ Stranded (analysis.next program) rest

/-- The analysis treats the program as a fresh one does: it accepts it or
rejects it with the same error, and files the same distances over those that
were there. -/
def TreatsAsFresh (analysis : Analysis) (program : List Stmt) : Prop :=
  Mirrors (Stmt.resolveAll program) (Stmt.resolveAll program) {} analysis
    (fun _ fresh _ used =>
      ∀ id : NodeId,
        used.distances[id]? = (fresh.distances[id]?).or analysis.distances[id]?)
    (fun error fresh errorUsed used =>
      errorUsed = error ∧
        ∀ id : NodeId,
          used.distances[id]? = (fresh.distances[id]?).or
          analysis.distances[id]?)

variable {analysis : Analysis}

/-- No program leaves a scope open, and none leaves the analysis in a function
it was not in. -/
theorem kept_next
    (analysis : Analysis)
    (program : List Stmt) :
    (analysis.next program).scopes.length = analysis.scopes.length ∧
      (analysis.next program).inFunction = analysis.inFunction := by
  have keeps := Stmt.keeps_resolveAll program analysis
  unfold next
  split
  · rename_i yields
    exact ⟨(keeps.ok yields).1.height, (keeps.ok yields).1.inFunction⟩
  · rename_i fails
    exact ⟨(keeps.error fails).height, (keeps.error fails).inFunction⟩

/-- A program that is stranded leaves the analysis inside of a class. -/
theorem inClass_next_of_strands
    {program : List Stmt}
    (strands : Stmt.StrandsAll program analysis) :
    (analysis.next program).inClass ≠ .outside := by
  have only := Stmt.strandsOnly_resolveAll program analysis
  unfold next
  split
  · rename_i yields
    exact absurd strands (Leads.ok only yields).1
  · rename_i fails
    exact (Leads.error only fails).1 strands

/-- Every other program leaves the class alone. -/
theorem inClass_next_of_not_strands
    {program : List Stmt}
    (passes : ¬ Stmt.StrandsAll program analysis) :
    (analysis.next program).inClass = analysis.inClass := by
  have only := Stmt.strandsOnly_resolveAll program analysis
  unfold next
  split
  · rename_i yields
    exact (Leads.ok only yields).2
  · rename_i fails
    exact (Leads.error only fails).2 passes

/-- After any programs, no scope is open and the code at hand belongs to no
function. -/
theorem kept_reuse
    (analysis : Analysis)
    (programs : List (List Stmt)) :
    (analysis.reuse programs).scopes.length = analysis.scopes.length ∧
      (analysis.reuse programs).inFunction = analysis.inFunction := by
  induction programs generalizing analysis with
  | nil =>
      exact ⟨rfl, rfl⟩
  | cons program rest inductionHypothesis =>
      obtain ⟨height, inFunction⟩ := inductionHypothesis (analysis.next program)
      obtain ⟨heightFirst, inFunctionFirst⟩ := kept_next analysis program
      exact ⟨height.trans heightFirst, inFunction.trans inFunctionFirst⟩

/-- Once inside of a class, the analysis stays inside of one. -/
theorem inClass_reuse_of_inside
    (inside : analysis.inClass ≠ .outside)
    (programs : List (List Stmt)) :
    (analysis.reuse programs).inClass ≠ .outside := by
  induction programs generalizing analysis with
  | nil =>
      exact inside
  | cons program rest inductionHypothesis =>
      refine inductionHypothesis ?_
      by_cases strands : Stmt.StrandsAll program analysis
      · exact inClass_next_of_strands strands
      · rw [inClass_next_of_not_strands strands]
        exact inside

/-- The analysis is outside of all classes exactly as long as no program was
stranded. -/
theorem inClass_reuse_iff
    (outside : analysis.inClass = .outside)
    (programs : List (List Stmt)) :
    (analysis.reuse programs).inClass = .outside ↔
      ¬ analysis.Stranded programs := by
  induction programs generalizing analysis with
  | nil =>
      simpa [reuse, Stranded] using outside
  | cons program rest inductionHypothesis =>
      by_cases strands : Stmt.StrandsAll program analysis
      · have inside : ((analysis.next program).reuse rest).inClass ≠ .outside :=
          inClass_reuse_of_inside (inClass_next_of_strands strands) rest
        constructor
        · intro isOutside
          exact absurd isOutside inside
        · intro never
          exact absurd (.inl strands) never
      · have step := inductionHypothesis
          ((inClass_next_of_not_strands strands).trans outside)
        simpa [Stranded, strands, reuse] using step

/-- Outside of all scopes, functions and classes, every program is treated as by
a fresh analysis. -/
theorem treatsAsFresh_of_outside
    (noScope : analysis.scopes = [])
    (noFunction : analysis.inFunction = false)
    (outside : analysis.inClass = .outside)
    (program : List Stmt) :
    analysis.TreatsAsFresh program := by
  have overlays : Overlays analysis.distances {} analysis := by
    refine ⟨noScope, noFunction, outside, fun id => ?_⟩
    have nothing : ({} : Distances)[id]? = none := Std.TreeMap.getElem?_emptyc
    rw [nothing, Option.none_or]
  refine (Stmt.uniform_resolveAll analysis.distances program
    {} analysis overlays).weaken ?_ ?_
  · intro _ _ _ _ _ _ overlaysAfter
    exact overlaysAfter.distances
  · rintro _ _ _ _ ⟨sameError, overlaysAfter⟩
    exact ⟨sameError, overlaysAfter.distances⟩

/-- Inside of a class, a `this` is accepted that a fresh analysis rejects. -/
theorem not_treatsAsFresh_of_inside
    (inside : analysis.inClass ≠ .outside)
    (id : NodeId)
    (keyword : Token) :
    ¬ analysis.TreatsAsFresh [.expression (.thisRef id keyword)] := by
  intro treats
  have rejected : Stmt.resolveAll [.expression (.thisRef id keyword)] {} =
      .error ⟨.thisOutsideClass, keyword.lexeme, keyword.line⟩ {} :=
    rfl
  obtain ⟨error, after, fails, -⟩ := Mirrors.error treats rejected
  have accepted : useThis id keyword analysis = file id keyword analysis := by
    unfold useThis
    rw [bind_get]
    cases context : analysis.inClass with
    | outside => exact absurd context inside
    | plain => rfl
    | derived => rfl
  have filed : ∃ after, file id keyword analysis = .ok () after := by
    unfold file
    exact ⟨_, rfl⟩
  obtain ⟨filed, files⟩ := filed
  have passes : Stmt.resolveAll [.expression (.thisRef id keyword)] analysis =
      .ok () filed :=
    bind_of_ok (accepted.trans files)
  rw [passes] at fails
  cases fails

/-- Whatever programs were handed to an analysis, it has no scope open and is in
no function.  It treats every further program as a fresh one does exactly if
none of them failed in the heading of a class that no other class was around. -/
theorem reuse_is_safe_iff_not_stranded
    (programs : List (List Stmt)) :
    (reuse {} programs).scopes = [] ∧
      (reuse {} programs).inFunction = false ∧
      ((reuse {} programs).inClass = .outside ↔ ¬ Stranded {} programs) ∧
      ((∀ program, (reuse {} programs).TreatsAsFresh program) ↔
        ¬ Stranded {} programs) := by
  obtain ⟨height, noFunction⟩ := kept_reuse {} programs
  have noScope : (reuse {} programs).scopes = [] :=
    List.length_eq_zero_iff.mp height
  have outside : ({} : Analysis).inClass = .outside := rfl
  have outsideIff := inClass_reuse_iff outside programs
  refine ⟨noScope, noFunction, outsideIff, ?_⟩
  constructor
  · intro treats
    refine outsideIff.mp (Classical.byContradiction fun inside => ?_)
    exact not_treatsAsFresh_of_inside inside 0 ⟨.keyword .thisWord, "this", 1⟩
      (treats _)
  · intro passes program
    exact treatsAsFresh_of_outside noScope noFunction
      (outsideIff.mpr passes) program

end Analysis

end LoxScript
