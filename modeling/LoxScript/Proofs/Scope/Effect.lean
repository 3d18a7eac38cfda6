import LoxScript.Proofs.Outcome
import LoxScript.Proofs.Tree.Orderly
import LoxScript.Scope.Analysis

namespace LoxScript

/-!
# What an analysis changes

Analysing an expression only files distances under the identities of its own
nodes.  Analysing a statement may also declare names in the innermost scope; the
scopes further out, their number and whether the code at hand belongs to a
function are the same afterwards, whether the analysis succeeds or not.  On
success exactly the name of the statement has been declared, and the code at
hand belongs to the same class as before.
-/

namespace NameMap

/-- Storing twice for one name is storing the later value. -/
theorem insertIn_insertIn
    (name : String)
    (first second : α)
    (entries : List (String × α)) :
    insertIn name second (insertIn name first entries) =
      insertIn name second entries := by
  induction entries with
  | nil =>
      simp [insertIn]
  | cons entry rest inductionHypothesis =>
      obtain ⟨key, held⟩ := entry
      by_cases same : key = name
      · simp [insertIn, same]
      · by_cases before : name < key
        · simp [insertIn, same, before]
        · simp [insertIn, same, before, inductionHypothesis]

/-- Storing twice for one name is storing the later value. -/
theorem insert_insert
    (map : NameMap α)
    (name : String)
    (first second : α) :
    (map.insert name first).insert name second = map.insert name second := by
  simp [insert, insertIn_insertIn]

/-- What `insert` does to the names of a map. -/
theorem contains_insert
    (map : NameMap α)
    (name other : String)
    (value : α) :
    (map.insert name value).contains other =
      (decide (name = other) || map.contains other) := by
  unfold contains
  rw [find?_insert]
  by_cases same : name = other <;> simp [same]

end NameMap

/-- The identities of the nodes that a list of references names. -/
def identities (references : List Reference) : List NodeId :=
  references.map Reference.id

/-- The scopes after a declaration that is ready: at the top level nothing is
declared. -/
def Scope.declaring : Option Token → List Scope → List Scope
  | some name, scope :: outer => scope.insert name.lexeme true :: outer
  | _, scopes => scopes

namespace Analysis

/-- Nothing has changed but distances under the given identities, and perhaps
the class that the code at hand belongs to. -/
structure Filed (ids : List NodeId) (before after : Analysis) : Prop where
  scopes : after.scopes = before.scopes
  inFunction : after.inFunction = before.inFunction
  distances : ∀ id, id ∉ ids → after.distances[id]? = before.distances[id]?

/-- Nothing has changed but distances under the given identities, names added to
the innermost scope, and perhaps the class that the code at hand belongs to. -/
structure Kept (ids : List NodeId) (before after : Analysis) : Prop where
  height : after.scopes.length = before.scopes.length
  outer : after.scopes.tail = before.scopes.tail
  names :
    ∀ scope ∈ before.scopes.head?, ∀ grown ∈ after.scopes.head?, ∀ name,
      scope.contains name → grown.contains name
  inFunction : after.inFunction = before.inFunction
  distances : ∀ id, id ∉ ids → after.distances[id]? = before.distances[id]?

variable {ids others : List NodeId} {before middle after : Analysis}

namespace Filed

/-- Nothing has changed. -/
theorem refl
    (ids : List NodeId)
    (analysis : Analysis) :
    Filed ids analysis analysis :=
  ⟨rfl, rfl, fun _ _ => rfl⟩

/-- Distances under more identities may have changed. -/
theorem widen
    (filed : Filed ids before after)
    (part : ids ⊆ others) :
    Filed others before after :=
  ⟨filed.scopes, filed.inFunction,
    fun id absent => filed.distances id fun member => absent (part member)⟩

/-- One step after the other. -/
theorem trans
    (filed : Filed ids before middle)
    (filedNext : Filed ids middle after) :
    Filed ids before after :=
  ⟨filedNext.scopes.trans filed.scopes,
    filedNext.inFunction.trans filed.inFunction,
    fun id absent =>
      (filedNext.distances id absent).trans (filed.distances id absent)⟩

/-- The class does not count. -/
theorem setClass
    (filed : Filed ids before after)
    (context : ClassContext) :
    Filed ids before { after with inClass := context } :=
  ⟨filed.scopes, filed.inFunction, filed.distances⟩

/-- What only files distances keeps everything else. -/
theorem kept
    (filed : Filed ids before after) :
    Kept ids before after := by
  refine ⟨by rw [filed.scopes], by
    rw [filed.scopes], ?_, filed.inFunction, filed.distances⟩
  intro scope isHead grown isHeadAfter name contained
  rw [filed.scopes, isHead] at isHeadAfter
  cases isHeadAfter
  exact contained

end Filed

namespace Kept

/-- Distances under more identities may have changed. -/
theorem widen
    (kept : Kept ids before after)
    (part : ids ⊆ others) :
    Kept others before after :=
  ⟨kept.height, kept.outer, kept.names, kept.inFunction,
    fun id absent => kept.distances id fun member => absent (part member)⟩

/-- One step after the other. -/
theorem trans
    (kept : Kept ids before middle)
    (keptNext : Kept ids middle after) :
    Kept ids before after := by
  refine ⟨keptNext.height.trans kept.height,
    keptNext.outer.trans kept.outer, ?_,
    keptNext.inFunction.trans kept.inFunction,
    fun id absent =>
      (keptNext.distances id absent).trans (kept.distances id absent)⟩
  intro scope isHead grown isHeadAfter name contained
  cases between : middle.scopes with
  | nil =>
      have height := keptNext.height
      rw [between, List.length_nil, List.length_eq_zero_iff] at height
      rw [height] at isHeadAfter
      cases isHeadAfter
  | cons held outer =>
      have isMiddle : held ∈ middle.scopes.head? := by simp [between]
      exact keptNext.names held isMiddle grown isHeadAfter name
        (kept.names scope isHead held isMiddle name contained)

/-- A step inside one more scope, which is left afterwards, only files
distances. -/
theorem filed_of_within
    {scope : Scope}
    (kept : Kept ids { before with scopes := scope :: before.scopes } after) :
    Filed ids before { after with scopes := after.scopes.tail } :=
  ⟨kept.outer, kept.inFunction, kept.distances⟩

end Kept

end Analysis

open Analysis

namespace Resolve

/-- Whatever the outcome, only distances under the given identities are
filed. -/
def Files (ids : List NodeId) (step : Resolve Unit) : Prop :=
  ∀ before,
    Leads step before
      (fun _ after => Filed ids before after ∧ after.inClass = before.inClass)
      (fun _ after => Filed ids before after ∧ after.inClass = before.inClass)

/-- Failing changes nothing. -/
theorem files_fail
    (ids : List NodeId)
    (fault : ScopeFault)
    (token : Token) :
    Files ids (fail fault token) :=
  fun before => ⟨.refl ids before, rfl⟩

/-- Doing nothing changes nothing. -/
theorem files_pure
    (ids : List NodeId) :
    Files ids (pure ()) :=
  fun before => ⟨.refl ids before, rfl⟩

/-- One step after the other. -/
theorem Files.andThen
    {ids : List NodeId}
    {first : Resolve Unit}
    {second : Unit → Resolve Unit}
    (files : Files ids first)
    (filesNext : Files ids (second ())) :
    Files ids (first >>= second) := by
  intro before
  refine Leads.bind ((files before).weaken ?_ fun _ _ filed => filed)
  rintro ⟨⟩ middle ⟨filed, sameClass⟩
  refine (filesNext middle).weaken ?_ ?_
  · rintro _ after ⟨filedNext, sameClassNext⟩
    exact ⟨filed.trans filedNext, sameClassNext.trans sameClass⟩
  · rintro _ after ⟨filedNext, sameClassNext⟩
    exact ⟨filed.trans filedNext, sameClassNext.trans sameClass⟩

/-- Looking at the analysis before the next step. -/
theorem Files.look
    {ids : List NodeId}
    {next : Analysis → Resolve Unit}
    (files : ∀ seen, Files ids (next seen)) :
    Files ids (get >>= next) :=
  fun before => files before before

/-- More identities may be filed under. -/
theorem Files.widen
    {ids others : List NodeId}
    {step : Resolve Unit}
    (files : Files ids step)
    (part : ids ⊆ others) :
    Files others step := by
  intro before
  exact (files before).weaken
    (fun _ _ filed => ⟨filed.1.widen part, filed.2⟩)
    (fun _ _ filed => ⟨filed.1.widen part, filed.2⟩)

/-- Filing a distance. -/
theorem files_file
    (id : NodeId)
    (name : Token) :
    Files [id] (file id name) := by
  intro before
  refine Leads.ofModify ?_
  split
  · refine ⟨⟨rfl, rfl, ?_⟩, rfl⟩
    intro other absent
    have different : id ≠ other := fun same => absent (by simp [same])
    simp [Std.TreeMap.getElem?_insert, different]
  · exact ⟨.refl _ _, rfl⟩

/-- Reading a variable. -/
theorem files_read
    (id : NodeId)
    (name : Token) :
    Files [id] (read id name) := by
  refine Files.look fun seen => ?_
  split
  · split
    · exact (files_fail _ _ _).andThen (files_file id name)
    · exact files_file id name
  · exact files_file id name

/-- Using `this`. -/
theorem files_useThis
    (id : NodeId)
    (keyword : Token) :
    Files [id] (useThis id keyword) := by
  refine Files.look fun seen => ?_
  split
  · exact files_fail _ _ _
  · exact files_file id keyword
  · exact files_file id keyword

/-- Using `super`. -/
theorem files_useSuper
    (id : NodeId)
    (keyword : Token) :
    Files [id] (useSuper id keyword) := by
  refine Files.look fun seen => ?_
  split
  · exact files_fail _ _ _
  · exact files_fail _ _ _
  · exact files_file id keyword

end Resolve

open Resolve

/-- The identities of joined lists of references. -/
@[simp] theorem identities_append
    (first second : List Reference) :
    identities (first ++ second) = identities first ++ identities second :=
  List.map_append

@[simp] theorem identities_cons
    (first : Reference)
    (rest : List Reference) :
    identities (first :: rest) = first.id :: identities rest :=
  rfl

mutual

/-- An expression only files distances, under the identities of its own
nodes. -/
theorem Expr.files_resolve :
    (expr : Expr) → Files (identities expr.references) expr.resolve
  | .literal _ => files_pure _
  | .grouping inner => inner.files_resolve
  | .unary _ operand => operand.files_resolve
  | .binary left _ right => by
      simp only [Expr.resolve, Expr.references, identities_append]
      exact (left.files_resolve.widen (by simp)).andThen
        (right.files_resolve.widen (by simp))
  | .logical left _ right => by
      simp only [Expr.resolve, Expr.references, identities_append]
      exact (left.files_resolve.widen (by simp)).andThen
        (right.files_resolve.widen (by simp))
  | .reference id name => files_read id name
  | .assign id name value => by
      simp only [Expr.resolve, Expr.references, identities_cons]
      exact (value.files_resolve.widen (by simp)).andThen
        ((files_file id name).widen (by simp))
  | .call callee _ arguments => by
      simp only [Expr.resolve, Expr.references, identities_append]
      exact (callee.files_resolve.widen (by simp)).andThen
        ((Expr.files_resolveAll arguments).widen (by simp))
  | .get object _ => object.files_resolve
  | .set object _ value => by
      simp only [Expr.resolve, Expr.references, identities_append]
      exact (value.files_resolve.widen (by simp)).andThen
        (object.files_resolve.widen (by simp))
  | .thisRef id keyword => files_useThis id keyword
  | .superRef id keyword _ => files_useSuper id keyword

/-- Expressions only file distances, under the identities of their own nodes. -/
theorem Expr.files_resolveAll :
    (exprs : List Expr) →
      Files (identities (Expr.referencesAll exprs)) (Expr.resolveAll exprs)
  | [] => files_pure _
  | first :: rest => by
      simp only [Expr.resolveAll, Expr.referencesAll, identities_append]
      exact (first.files_resolve.widen (by simp)).andThen
        ((Expr.files_resolveAll rest).widen (by simp))

end

/-- An expression that may be absent only files distances. -/
theorem files_resolveOptional
    (value : Option Expr) :
    Files (identities (optionalReferences value)) (resolveOptional value) := by
  cases value with
  | none =>
      exact files_pure _
  | some inner =>
      exact inner.files_resolve

namespace Resolve

/-- The analysis once a name is declared and not yet ready. -/
def declared (name : Token) (analysis : Analysis) : Analysis :=
  match analysis.scopes with
  | [] => analysis
  | scope :: outer =>
      { analysis with scopes := scope.insert name.lexeme false :: outer }

/-- The analysis once a name is ready. -/
def defined (name : Token) (analysis : Analysis) : Analysis :=
  { analysis with scopes := Scope.declaring (some name) analysis.scopes }

/-- The name is free in the innermost scope, or there is no local scope. -/
def Declarable (name : Token) (analysis : Analysis) : Prop :=
  ∀ scope ∈ analysis.scopes.head?, scope.contains name.lexeme = false

/-- Declaring a free name succeeds; the name is then there, not yet ready. -/
theorem declare_of_free
    {name : Token}
    {analysis : Analysis}
    (free : Declarable name analysis) :
    declare name analysis = .ok () (declared name analysis) := by
  unfold declare declared
  rw [bind_get]
  cases shape : analysis.scopes with
  | nil => rfl
  | cons scope outer =>
      have absent : scope.contains name.lexeme = false :=
        free scope (by simp [shape])
      simp only [absent]
      rfl

/-- Declaring a name again fails; the name is then no longer ready. -/
theorem declare_of_taken
    {name : Token}
    {analysis : Analysis}
    (taken : ¬ Declarable name analysis) :
    declare name analysis =
      .error ⟨.alreadyDeclared, name.lexeme, name.line⟩
        (declared name analysis) := by
  cases shape : analysis.scopes with
  | nil =>
      exact absurd (by simp [Declarable, shape]) taken
  | cons scope outer =>
      have present : scope.contains name.lexeme = true := by
        simpa [Declarable, shape] using taken
      unfold declare declared
      rw [bind_get]
      simp only [shape, present]
      rfl

/-- Declaring a name succeeds only if it is free. -/
theorem declare_eq_ok_iff
    {name : Token}
    {before after : Analysis} :
    declare name before = .ok () after ↔
      Declarable name before ∧ after = declared name before := by
  by_cases free : Declarable name before
  · rw [declare_of_free free]
    constructor
    · intro same
      cases same
      exact ⟨free, rfl⟩
    · rintro ⟨-, rfl⟩
      rfl
  · rw [declare_of_taken free]
    constructor
    · intro same
      cases same
    · rintro ⟨isFree, -⟩
      exact absurd isFree free

/-- Making a name ready. -/
theorem define_eq
    (name : Token)
    (analysis : Analysis) :
    define name analysis = .ok () (defined name analysis) := by
  cases shape : analysis.scopes with
  | nil =>
      cases analysis
      cases shape
      rfl
  | cons scope outer =>
      cases analysis
      cases shape
      rfl

/-- A name that is declared and then made ready is declared. -/
theorem defined_declared
    (name : Token)
    (analysis : Analysis) :
    defined name (declared name analysis) = defined name analysis := by
  cases shape : analysis.scopes with
  | nil =>
      simp [declared, shape]
  | cons scope outer =>
      simp [defined, declared, shape, Scope.declaring, NameMap.insert_insert]

/-- Declaring a name, ready or not, changes the innermost scope only. -/
theorem kept_of_insert
    (ids : List NodeId)
    {analysis : Analysis}
    {scope : Scope}
    {outer : List Scope}
    (shape : analysis.scopes = scope :: outer)
    (name : String)
    (ready : Bool) :
    Kept ids analysis
      { analysis with scopes := scope.insert name ready :: outer } := by
  refine ⟨by simp [shape], by simp [shape], ?_, rfl, fun _ _ => rfl⟩
  intro held isHead grown isHeadAfter other contained
  simp only [shape, List.head?_cons, Option.mem_def,
    Option.some.injEq] at isHead isHeadAfter
  subst held grown
  simp [NameMap.contains_insert, contained]

/-- Declaring a name changes the innermost scope only. -/
theorem kept_declared
    (ids : List NodeId)
    (name : Token)
    (analysis : Analysis) :
    Kept ids analysis (declared name analysis) := by
  unfold declared
  split
  · exact (Filed.refl ids analysis).kept
  · exact kept_of_insert ids ‹_› _ _

/-- Making a name ready changes the innermost scope only. -/
theorem kept_defined
    (ids : List NodeId)
    (name : Token)
    (analysis : Analysis) :
    Kept ids analysis (defined name analysis) := by
  cases shape : analysis.scopes with
  | nil =>
      have same : defined name analysis = analysis := by
        cases analysis
        cases shape
        rfl
      rw [same]
      exact (Filed.refl ids analysis).kept
  | cons scope outer =>
      have grown := kept_of_insert ids shape name.lexeme true
      simpa [defined, shape, Scope.declaring] using grown

@[simp] theorem inClass_declared
    (name : Token)
    (analysis : Analysis) :
    (declared name analysis).inClass = analysis.inClass := by
  unfold declared
  split <;> rfl

/-- Whatever the outcome, only the innermost scope and distances under the given
identities change; on success the class stays the same. -/
def Keeps (ids : List NodeId) (step : Resolve Unit) : Prop :=
  ∀ before,
    Leads step before
      (fun _ after => Kept ids before after ∧ after.inClass = before.inClass)
      (fun _ after => Kept ids before after)

/-- Whatever the outcome, only distances under the given identities change; on
success the class stays the same. -/
def Restores (ids : List NodeId) (step : Resolve Unit) : Prop :=
  ∀ before,
    Leads step before
      (fun _ after => Filed ids before after ∧ after.inClass = before.inClass)
      (fun _ after => Filed ids before after)

variable {ids others : List NodeId} {step : Resolve Unit}

theorem Files.restores
    (files : Files ids step) :
    Restores ids step :=
  fun before =>
    (files before).weaken (fun _ _ filed => filed) fun _ _ filed => filed.1

theorem Restores.keeps
    (restores : Restores ids step) :
    Keeps ids step :=
  fun before => (restores before).weaken
    (fun _ _ filed => ⟨filed.1.kept, filed.2⟩) fun _ _ filed => filed.kept

theorem Keeps.widen
    (keeps : Keeps ids step)
    (part : ids ⊆ others) :
    Keeps others step :=
  fun before => (keeps before).weaken
    (fun _ _ kept => ⟨kept.1.widen part, kept.2⟩) fun _ _ kept =>
      kept.widen part

theorem Restores.widen
    (restores : Restores ids step)
    (part : ids ⊆ others) :
    Restores others step :=
  fun before => (restores before).weaken
    (fun _ _ filed => ⟨filed.1.widen part, filed.2⟩) fun _ _ filed =>
      filed.widen part

/-- One step after the other. -/
theorem Keeps.andThen
    {next : Unit → Resolve Unit}
    (keeps : Keeps ids step)
    (keepsNext : Keeps ids (next ())) :
    Keeps ids (step >>= next) := by
  intro before
  refine Leads.bind ((keeps before).weaken ?_ fun _ _ kept => kept)
  rintro ⟨⟩ middle ⟨kept, sameClass⟩
  refine (keepsNext middle).weaken ?_ fun _ _ keptNext => kept.trans keptNext
  rintro _ after ⟨keptNext, sameClassNext⟩
  exact ⟨kept.trans keptNext, sameClassNext.trans sameClass⟩

/-- One step after the other. -/
theorem Restores.andThen
    {next : Unit → Resolve Unit}
    (restores : Restores ids step)
    (restoresNext : Restores ids (next ())) :
    Restores ids (step >>= next) := by
  intro before
  refine Leads.bind ((restores before).weaken ?_ fun _ _ filed => filed)
  rintro ⟨⟩ middle ⟨filed, sameClass⟩
  refine (restoresNext middle).weaken ?_ fun _ _ filedNext =>
    filed.trans filedNext
  rintro _ after ⟨filedNext, sameClassNext⟩
  exact ⟨filed.trans filedNext, sameClassNext.trans sameClass⟩

/-- Declaring a name. -/
theorem keeps_declare
    (ids : List NodeId)
    (name : Token) :
    Keeps ids (declare name) := by
  intro before
  unfold Leads
  by_cases free : Declarable name before
  · rw [declare_of_free free]
    exact ⟨kept_declared ids name before, inClass_declared name before⟩
  · rw [declare_of_taken free]
    exact kept_declared ids name before

/-- Making a name ready. -/
theorem keeps_define
    (ids : List NodeId)
    (name : Token) :
    Keeps ids (define name) := by
  intro before
  unfold Leads
  rw [define_eq]
  exact ⟨kept_defined ids name before, rfl⟩

/-- A step inside one more scope. -/
theorem Keeps.within
    (keeps : Keeps ids step)
    (scope : Scope) :
    Restores ids (within scope step) := by
  intro before
  have leads := keeps { before with scopes := scope :: before.scopes }
  unfold Leads Resolve.within at *
  split at leads
  · rename_i yields
    simp only [yields]
    exact ⟨leads.1.filed_of_within, leads.2⟩
  · rename_i fails
    simp only [fails]
    exact leads.filed_of_within

/-- A step as part of a function. -/
theorem Restores.withinFunction
    (restores : Restores ids step) :
    Restores ids (withinFunction step) := by
  intro before
  have leads := restores { before with inFunction := true }
  unfold Leads Resolve.withinFunction at *
  split at leads
  · rename_i yields
    simp only [yields]
    exact ⟨⟨leads.1.scopes, rfl, leads.1.distances⟩, leads.2⟩
  · rename_i fails
    simp only [fails]
    exact ⟨leads.scopes, rfl, leads.distances⟩

/-- Parameters. -/
theorem keeps_declareParameters
    (ids : List NodeId)
    (params : List Token) :
    Keeps ids (params.forM declareParameter) := by
  induction params with
  | nil =>
      exact (files_pure ids).restores.keeps
  | cons param rest inductionHypothesis =>
      exact ((keeps_declare ids param).andThen (keeps_define ids param)).andThen
        inductionHypothesis

end Resolve

namespace Resolve

/-- The heading of a class: its name and its superclass. -/
def heading (name : Token) (superclass : Option SuperclassRef) :
    Resolve Unit := do
  enterClass .plain
  declare name
  define name
  if let some named := superclass then Resolve.inherit name named

/-- A class is its heading, and then its methods, after which it is left. -/
theorem resolve_classDecl
    (name : Token)
    (superclass : Option SuperclassRef)
    (methods : List FunctionDecl)
    (before : Analysis) :
    Stmt.resolve (.classDecl name superclass methods) before =
      (do
        heading name superclass
        leavingClass before.inClass
          (withinClass superclass (FunctionDecl.resolveAll methods)))
          before := by
  cases superclass <;>
    simp only [Stmt.resolve, heading, bind_assoc, pure_bind] <;>
    rfl

/-- Whatever the outcome, only the innermost scope, distances under the given
identities and the class change. -/
def Preserves (ids : List NodeId) (step : Resolve Unit) : Prop :=
  ∀ before,
    Leads step before
      (fun _ after => Kept ids before after)
      (fun _ after => Kept ids before after)

theorem Keeps.preserves
    (keeps : Keeps ids step) :
    Preserves ids step :=
  fun before =>
    (keeps before).weaken (fun _ _ kept => kept.1) fun _ _ kept => kept

/-- One step after the other. -/
theorem Preserves.andThen
    {next : Unit → Resolve Unit}
    (preserves : Preserves ids step)
    (preservesNext : Preserves ids (next ())) :
    Preserves ids (step >>= next) := by
  intro before
  refine Leads.bind ((preserves before).weaken ?_ fun _ _ kept => kept)
  rintro ⟨⟩ middle kept
  exact (preservesNext middle).weaken
    (fun _ _ keptNext => kept.trans keptNext) fun _ _ keptNext =>
      kept.trans keptNext

/-- Entering a class. -/
theorem preserves_enterClass
    (ids : List NodeId)
    (context : ClassContext) :
    Preserves ids (enterClass context) :=
  fun before => ((Filed.refl ids before).setClass context).kept

/-- The references in the heading of a class. -/
def headingReferences : Option SuperclassRef → List Reference
  | some named => named.references
  | none => []

/-- The heading of a class. -/
theorem preserves_heading
    (name : Token)
    (superclass : Option SuperclassRef) :
    Preserves (identities (headingReferences superclass))
      (heading name superclass) := by
  refine (preserves_enterClass _ _).andThen ?_
  refine (keeps_declare _ name).preserves.andThen ?_
  refine (keeps_define _ name).preserves.andThen ?_
  cases superclass with
  | none =>
      exact (files_pure _).restores.keeps.preserves
  | some named =>
      refine (preserves_enterClass _ _).andThen ?_
      have reads := (files_read named.id named.name).restores.keeps.preserves
      dsimp only
      split
      · exact (files_fail _ _ _).restores.keeps.preserves.andThen reads
      · exact reads

/-- The scopes of a class around a step. -/
theorem Restores.withinClass
    (restores : Restores ids step)
    (superclass : Option SuperclassRef) :
    Restores ids (withinClass superclass step) := by
  cases superclass with
  | none =>
      exact restores.keeps.within _
  | some named =>
      exact (restores.keeps.within _).keeps.within _

/-- A class around a step. -/
theorem Restores.leavingClass
    (restores : Restores ids step)
    (context : ClassContext)
    (before : Analysis) :
    Leads (leavingClass context step) before
      (fun _ after => Kept ids before after ∧ after.inClass = context)
      (fun _ after => Kept ids before after) := by
  have leads := restores before
  unfold Leads Resolve.leavingClass at *
  split at leads
  · rename_i yields
    simp only [yields]
    exact ⟨(leads.1.setClass context).kept, trivial⟩
  · rename_i fails
    simp only [fails]
    exact (leads.setClass context).kept

end Resolve

/-- The references of a class are those of its heading and those of its
methods. -/
theorem references_classDecl
    (name : Token)
    (superclass : Option SuperclassRef)
    (methods : List FunctionDecl) :
    Stmt.references (.classDecl name superclass methods) =
      headingReferences superclass ++ FunctionDecl.referencesAll methods := by
  cases superclass <;> simp [Stmt.references, headingReferences]

mutual

/-- A statement changes only the innermost scope and distances under its own
identities. -/
theorem Stmt.keeps_resolve :
    (statement :
      Stmt) → Keeps (identities statement.references) statement.resolve
  | .print value => value.files_resolve.restores.keeps
  | .expression value => value.files_resolve.restores.keeps
  | .varDecl name initializer =>
      (keeps_declare _ name).andThen
        ((files_resolveOptional initializer).restores.keeps.andThen
          (keeps_define _ name))
  | .block body => ((Stmt.keeps_resolveAll body).within _).keeps
  | .conditional condition thenBranch none => by
      simp only [Stmt.resolve, Stmt.references, identities_append]
      exact (condition.files_resolve.restores.keeps.widen (by simp)).andThen
        (thenBranch.keeps_resolve.widen (by simp))
  | .conditional condition thenBranch (some elseBranch) => by
      simp only [Stmt.resolve, Stmt.references, identities_append]
      exact (condition.files_resolve.restores.keeps.widen (by simp)).andThen
        ((thenBranch.keeps_resolve.widen (by simp)).andThen
          (elseBranch.keeps_resolve.widen (by simp)))
  | .loop condition body => by
      simp only [Stmt.resolve, Stmt.references, identities_append]
      exact (condition.files_resolve.restores.keeps.widen (by simp)).andThen
        (body.keeps_resolve.widen (by simp))
  | .funDecl declaration =>
      (keeps_declare _ declaration.name).andThen
        ((keeps_define _ declaration.name).andThen
          declaration.restores_resolve.keeps)
  | .ret keyword value => by
      simp only [Stmt.resolve, Stmt.references]
      refine Keeps.andThen ?_ (files_resolveOptional value).restores.keeps
      refine (Files.look fun seen => ?_).restores.keeps
      split
      · exact files_fail _ _ _
      · exact files_pure _
  | .classDecl name superclass methods => by
      intro before
      rw [Leads, resolve_classDecl, references_classDecl, identities_append]
      refine Leads.bind
        ((preserves_heading name superclass before).weaken ?_ ?_)
      · rintro ⟨⟩ middle kept
        have inner :=
          ((FunctionDecl.restores_resolveAll methods).withinClass
            superclass).leavingClass before.inClass middle
        refine inner.weaken ?_ ?_
        · rintro _ after ⟨keptNext, sameClass⟩
          exact ⟨(kept.widen (by simp)).trans (keptNext.widen (by simp)),
            sameClass⟩
        · intro _ after keptNext
          exact (kept.widen (by simp)).trans (keptNext.widen (by simp))
      · intro _ after kept
        exact kept.widen (by simp)
  | .require _ _ => (files_pure _).restores.keeps

/-- Statements change only the innermost scope and distances under their own
identities. -/
theorem Stmt.keeps_resolveAll :
    (statements : List Stmt) →
      Keeps (identities (Stmt.referencesAll statements))
        (Stmt.resolveAll statements)
  | [] => (files_pure _).restores.keeps
  | first :: rest => by
      simp only [Stmt.resolveAll, Stmt.referencesAll, identities_append]
      exact (first.keeps_resolve.widen (by simp)).andThen
        ((Stmt.keeps_resolveAll rest).widen (by simp))

/-- A function changes only distances under its own identities. -/
theorem FunctionDecl.restores_resolve :
    (declaration : FunctionDecl) →
      Restores (identities declaration.references) declaration.resolve
  | ⟨_, params, body⟩ =>
      (((keeps_declareParameters _ params).andThen
        (Stmt.keeps_resolveAll body)).within _).withinFunction

/-- Functions change only distances under their own identities. -/
theorem FunctionDecl.restores_resolveAll :
    (declarations : List FunctionDecl) →
      Restores (identities (FunctionDecl.referencesAll declarations))
        (FunctionDecl.resolveAll declarations)
  | [] => (files_pure _).restores
  | first :: rest => by
      simp only [FunctionDecl.resolveAll, FunctionDecl.referencesAll,
        identities_append]
      exact (first.restores_resolve.widen (by simp)).andThen
        ((FunctionDecl.restores_resolveAll rest).widen (by simp))

end

end LoxScript
