import Mathlib.Data.List.Nodup
import LoxScript.Proofs.Direct.Uses
import LoxScript.Proofs.Mirror

namespace LoxScript

/-!
# The direct analysis beside the usual one

Where iterations have no scopes of their own, the same programs are accepted and
the others are rejected with the same errors.  A node that gets a distance gets
one in the direct analysis too, which leaves out the iterations around the node.
-/

open Analysis Resolve

/-- Scopes with marks, and the scopes without those that are marked.  A marked
scope declares nothing, and the names of the scope around it are ready. -/
inductive Scope.Folded : Marks → List Scope → List Scope → Prop where
  | nil :
      Folded [] [] []
  | kept {marks scope outer image} :
      Folded marks outer image →
        Folded (false :: marks) (scope :: outer) (scope :: image)
  | folded {marks outer image} :
      Folded marks outer image → (∀ scope ∈ image.head?, scope.Settled) →
        Folded (true :: marks) (NameMap.empty :: outer) image

/-- An analysis and one that lacks the scopes of iterations.  Of the nodes that
are listed with their marks, each has as distance how far out the other distance
is without the marked scopes, and no distance leads to a marked scope. -/
structure Analysis.Folded
    (all : List (Marks × Reference))
    (marks : Marks)
    (analysis image : Analysis) : Prop where
  scopes : Scope.Folded marks analysis.scopes image.scopes
  inFunction : image.inFunction = analysis.inFunction
  inClass : image.inClass = analysis.inClass
  distances :
    ∀ use ∈ all,
      image.distances[use.2.id]? =
        analysis.distances[use.2.id]?.map use.1.beyond
  unmarked :
    ∀ use ∈ all, ∀ distance, analysis.distances[use.2.id]? = some distance →
      use.1.marked distance = false
  filed : ∀ id : NodeId, image.distances[id]? = none ↔
    analysis.distances[id]? = none

/-- The two steps fail alike, or succeed in analyses that are the same but for
iterations. -/
def Folds
    (all : List (Marks × Reference))
    (marks : Marks)
    (step other : Resolve α)
    (analysis image : Analysis) : Prop :=
  Mirrors step other analysis image
    (fun _ after _ afterImage => after.Folded all marks afterImage)
    (fun error _ errorImage _ => errorImage = error)

/-- All names of the innermost scope are ready. -/
def Analysis.Settled (analysis : Analysis) : Prop :=
  ∀ scope ∈ analysis.scopes.head?, scope.Settled

variable {iterations : Iterations} {all : List (Marks × Reference)}
  {marks : Marks}
variable {before image : Analysis}

namespace Scope.Folded

variable {scopes others : List Scope}

/-- Without the scopes of iterations, names are as far out as the other scopes
make them. -/
theorem distance?
    (folded : Scope.Folded marks scopes others)
    (name : String) :
    Scope.distance? name others =
      (Scope.distance? name scopes).map marks.beyond := by
  induction folded with
  | nil => rfl
  | @kept marks scope outer image _ inductionHypothesis =>
      unfold Scope.distance?
      split
      · simp
      · simp [inductionHypothesis, Function.comp_def]
  | @folded marks outer image _ _ inductionHypothesis =>
      have absent : NameMap.contains (NameMap.empty : Scope) name = false := rfl
      simp [Scope.distance?, absent, inductionHypothesis, Function.comp_def]

/-- No name is in the scope of an iteration. -/
theorem unmarked
    {distance : Nat}
    (folded : Scope.Folded marks scopes others)
    (found : Scope.distance? name scopes = some distance) :
    marks.marked distance = false := by
  induction folded generalizing distance with
  | nil => cases found
  | @kept marks scope outer image _ inductionHypothesis =>
      unfold Scope.distance? at found
      split at found
      · cases found
        rfl
      · obtain ⟨further, isFurther, rfl⟩ := Option.map_eq_some_iff.mp found
        exact inductionHypothesis isFurther
  | @folded marks outer image _ _ inductionHypothesis =>
      have absent : NameMap.contains (NameMap.empty : Scope) name = false := rfl
      simp only [Scope.distance?, absent] at found
      obtain ⟨further, isFurther, rfl⟩ := Option.map_eq_some_iff.mp found
      exact inductionHypothesis isFurther

/-- The innermost scope is the same on both sides if it is not that of an
iteration. -/
theorem head
    (folded : Scope.Folded marks scopes others)
    (kept : marks.here = false) :
    others.head? = scopes.head? := by
  cases folded with
  | nil => rfl
  | kept => rfl
  | folded => cases kept

/-- Names that are ready are ready without the scopes of iterations. -/
theorem settled
    (folded : Scope.Folded marks scopes others)
    (settled : ∀ scope ∈ scopes.head?, scope.Settled) :
    ∀ scope ∈ others.head?, scope.Settled := by
  cases folded with
  | nil => exact settled
  | kept => exact settled
  | folded _ settledOuter => exact settledOuter

/-- The innermost scope is changed on both sides. -/
theorem change
    {scope grown : Scope}
    {outer : List Scope}
    (folded : Scope.Folded marks (scope :: outer) others)
    (kept : marks.here = false) :
    ∃ otherOuter, others = scope :: otherOuter ∧
      Scope.Folded marks (grown :: outer) (grown :: otherOuter) := by
  cases folded with
  | kept outers => exact ⟨_, rfl, .kept outers⟩
  | folded => cases kept

end Scope.Folded

namespace Folds

variable {step other : Resolve α}

/-- Steps that do nothing. -/
theorem ofPure
    (folded : before.Folded all marks image)
    (value : α) :
    Folds all marks (pure value) (pure value) before image :=
  folded

/-- Steps that fail. -/
theorem ofFail
    (fault : ScopeFault)
    (token : Token) :
    Folds all marks (fail fault token : Resolve α) (fail fault token)
      before image :=
  Mirrors.ofThrow rfl

/-- One step after the other. -/
theorem andThen
    {first firstOther : Resolve Unit}
    {next nextOther : Unit → Resolve α}
    (folds : Folds all marks first firstOther before image)
    (foldsNext :
      ∀ after afterImage, first before = .ok () after →
        after.Folded all marks afterImage →
        Folds all marks (next ()) (nextOther ()) after afterImage) :
    Folds all marks (first >>= next) (firstOther >>= nextOther)
      before image := by
  refine Mirrors.andThen folds ?_
  rintro ⟨⟩ after ⟨⟩ afterImage yields - folded
  exact foldsNext after afterImage yields folded

/-- Steps around other ones: the analyses are changed first, and changed back
however the inner steps end. -/
theorem around
    {inner innerOther : Resolve α}
    {innerMarks : Marks}
    {entered enteredImage : Analysis}
    (leave leaveImage : Analysis → Analysis)
    (resolves :
      step before = match inner entered with
        | .ok value after => .ok value (leave after)
        | .error error after => .error error (leave after))
    (resolvesImage :
      other image = match innerOther enteredImage with
        | .ok value after => .ok value (leaveImage after)
        | .error error after => .error error (leaveImage after))
    (folds : Folds all innerMarks inner innerOther entered enteredImage)
    (leaves :
      ∀ after afterImage, after.Folded all innerMarks afterImage →
        (leave after).Folded all marks (leaveImage afterImage)) :
    Folds all marks step other before image := by
  cases outcome : inner entered with
  | ok value after =>
      obtain ⟨_, afterImage, outcomeImage, folded⟩ := Mirrors.ok folds outcome
      rw [outcome] at resolves
      rw [outcomeImage] at resolvesImage
      exact Mirrors.ofOk resolves resolvesImage (leaves after afterImage folded)
  | error error after =>
      obtain ⟨_, afterImage, outcomeImage, same⟩ := Mirrors.error folds outcome
      rw [outcome] at resolves
      rw [outcomeImage] at resolvesImage
      exact Mirrors.ofError resolves resolvesImage same

/-- Steps inside one more scope. -/
theorem within
    {scope : Scope}
    (folds :
      Folds all (false :: marks) step other
        { before with scopes := scope :: before.scopes }
        { image with scopes := scope :: image.scopes }) :
    Folds all marks (within scope step) (within scope other) before image := by
  refine folds.around (fun after => { after with scopes := after.scopes.tail })
    (fun after => { after with scopes := after.scopes.tail }) rfl rfl ?_
  intro after afterImage folded
  refine ⟨?_, folded.inFunction, folded.inClass, folded.distances,
    folded.unmarked, folded.filed⟩
  have scopes := folded.scopes
  generalize after.scopes = here, afterImage.scopes = there at scopes
  cases scopes with
  | kept outers => exact outers

/-- Steps inside the scope of an iteration, which there is on one side only. -/
theorem iteration
    (folds :
      Folds all (true :: marks) step other
        { before with scopes := NameMap.empty :: before.scopes } image) :
    Folds all marks (Resolve.within NameMap.empty step) other before image := by
  have resolvesImage : other image = match other image with
      | .ok value after => .ok value (id after)
      | .error error after => .error error (id after) := by
    cases other image <;> rfl
  refine folds.around (fun after => { after with scopes := after.scopes.tail })
    id rfl resolvesImage ?_
  intro after afterImage folded
  refine ⟨(?_ : Scope.Folded marks after.scopes.tail afterImage.scopes),
    folded.inFunction,
    folded.inClass, folded.distances, folded.unmarked, folded.filed⟩
  have scopes := folded.scopes
  generalize after.scopes = here, afterImage.scopes = there at scopes
  cases scopes with
  | folded outers => exact outers

/-- Steps inside a function. -/
theorem withinFunction
    (same : image.inFunction = before.inFunction)
    (folds :
      Folds all marks step other { before with inFunction := true }
        { image with inFunction := true }) :
    Folds all marks (withinFunction step) (withinFunction other)
      before image := by
  refine folds.around
    (fun after => { after with inFunction := before.inFunction })
    (fun after => { after with inFunction := image.inFunction }) rfl rfl ?_
  intro after afterImage folded
  exact ⟨folded.scopes, same, folded.inClass, folded.distances, folded.unmarked,
    folded.filed⟩

/-- Steps after which a class is left. -/
theorem leavingClass
    (context : ClassContext)
    (folds : Folds all marks step other before image) :
    Folds all marks (leavingClass context step) (leavingClass context other)
      before image := by
  refine folds.around (fun after => { after with inClass := context })
    (fun after => { after with inClass := context }) rfl rfl ?_
  intro after afterImage folded
  exact ⟨folded.scopes, folded.inFunction, rfl, folded.distances,
    folded.unmarked, folded.filed⟩

end Folds

section Steps

variable {id : NodeId} {name : Token}

/-- A node with its marks, which no other node has. -/
structure Listed (all : List (Marks × Reference)) (marks : Marks)
    (id : NodeId) : Prop where
  node : ∃ kind token, (marks, ⟨kind, id, token⟩) ∈ all
  distinct : (all.map fun use => use.2.id).Nodup

/-- Whatever has the identity of a listed node has its marks. -/
theorem Listed.marks_eq
    {use : Marks × Reference}
    (listed : Listed all marks id)
    (member : use ∈ all)
    (same : use.2.id = id) :
    use.1 = marks := by
  obtain ⟨kind, token, isListed⟩ := listed.node
  have equal := List.inj_on_of_nodup_map listed.distinct member isListed same
  rw [equal]

/-- Filing a distance. -/
theorem folds_file
    (listed : Listed all marks id)
    (folded : before.Folded all marks image) :
    Folds all marks (file id name) (file id name) before image := by
  refine Mirrors.ofOk rfl rfl ?_
  dsimp only
  rw [folded.scopes.distance?]
  cases found : Scope.distance? name.lexeme before.scopes with
  | none => exact folded
  | some distance =>
      refine ⟨folded.scopes, folded.inFunction, folded.inClass,
        fun use member => ?_,
        fun use member filed isFiled => ?_, fun other => ?_⟩
      · simp only [Option.map_some, Std.TreeMap.getElem?_insert,
          Nat.compare_eq_eq]
        by_cases same : id = use.2.id
        · simp [same, listed.marks_eq member same.symm]
        · simpa [same] using folded.distances use member
      · simp only [Std.TreeMap.getElem?_insert, Nat.compare_eq_eq] at isFiled
        split at isFiled
        · rename_i same
          cases isFiled
          rw [listed.marks_eq member same.symm]
          exact folded.scopes.unmarked found
        · exact folded.unmarked use member filed isFiled
      · simp only [Option.map_some, Std.TreeMap.getElem?_insert,
          Nat.compare_eq_eq]
        by_cases same : id = other
        · simp [same]
        · simpa [same] using folded.filed other

/-- Reading a variable. -/
theorem folds_read
    (listed : Listed all marks id)
    (folded : before.Folded all marks image) :
    Folds all marks (read id name) (read id name) before image := by
  have files : Folds all marks (file id name) (file id name) before image :=
    folds_file listed folded
  have scopes := folded.scopes
  unfold Folds Resolve.read at *
  refine Mirrors.look ?_
  generalize before.scopes = here, image.scopes = there at scopes
  cases scopes with
  | nil => exact files
  | kept =>
      dsimp only
      split
      · exact Mirrors.ofThrow rfl
      · exact files
  | folded _ settled =>
      cases there with
      | nil => exact files
      | cons scope outer =>
          have ready : (scope.find? name.lexeme == some false) = false := by
            simpa using settled scope rfl name.lexeme
          simp only [ready]
          exact files

/-- Using `this`. -/
theorem folds_useThis
    (listed : Listed all marks id)
    (folded : before.Folded all marks image) :
    Folds all marks (useThis id name) (useThis id name) before image := by
  refine Mirrors.look ?_
  rw [folded.inClass]
  cases before.inClass with
  | outside => exact Folds.ofFail _ _
  | plain => exact folds_file listed folded
  | derived => exact folds_file listed folded

/-- Using `super`. -/
theorem folds_useSuper
    (listed : Listed all marks id)
    (folded : before.Folded all marks image) :
    Folds all marks (useSuper id name) (useSuper id name) before image := by
  refine Mirrors.look ?_
  rw [folded.inClass]
  cases before.inClass with
  | outside => exact Folds.ofFail _ _
  | plain => exact Folds.ofFail _ _
  | derived => exact folds_file listed folded

/-- Meeting a `return`. -/
theorem folds_allowReturn
    (folded : before.Folded all marks image) :
    Folds all marks (allowReturn name) (allowReturn name) before image := by
  refine Mirrors.look ?_
  rw [folded.inFunction]
  cases before.inFunction with
  | false => exact Folds.ofFail _ _
  | true => exact Folds.ofPure folded ()

/-- Entering a class. -/
theorem folds_enterClass
    (context : ClassContext)
    (folded : before.Folded all marks image) :
    Folds all marks (enterClass context) (enterClass context) before image :=
  Mirrors.ofOk rfl rfl
    ⟨folded.scopes, folded.inFunction, rfl, folded.distances, folded.unmarked,
      folded.filed⟩

/-- Declaring a name outside of iterations. -/
theorem folds_declare
    (kept : marks.here = false)
    (folded : before.Folded all marks image) :
    Folds all marks (declare name) (declare name) before image := by
  have same : Declarable name image ↔ Declarable name before := by
    rw [Declarable, Declarable, folded.scopes.head kept]
  by_cases free : Declarable name before
  · refine Mirrors.ofOk (declare_of_free free)
      (declare_of_free (same.mpr free)) ?_
    have scopes := folded.scopes
    unfold declared
    cases shape : before.scopes with
    | nil =>
        rw [shape] at scopes
        generalize there : image.scopes = others at scopes
        cases scopes
        exact folded
    | cons scope outer =>
        rw [shape] at scopes
        obtain ⟨otherOuter, there, grown⟩ := scopes.change kept
        simp only [there]
        exact ⟨grown, folded.inFunction, folded.inClass, folded.distances,
          folded.unmarked, folded.filed⟩
  · exact Mirrors.ofError (declare_of_taken free)
      (declare_of_taken fun there => free (same.mp there)) rfl

/-- Making a name ready outside of iterations. -/
theorem folds_define
    (kept : marks.here = false)
    (folded : before.Folded all marks image) :
    Folds all marks (define name) (define name) before image := by
  refine Mirrors.ofOk (define_eq name before) (define_eq name image) ?_
  refine ⟨?_, folded.inFunction, folded.inClass, folded.distances,
    folded.unmarked, folded.filed⟩
  have scopes := folded.scopes
  unfold defined
  generalize before.scopes = here, image.scopes = there at scopes
  cases scopes with
  | nil => exact .nil
  | kept outers => exact .kept outers
  | folded => cases kept

/-- Declaring parameters. -/
theorem folds_declareParameters
    (kept : marks.here = false)
    (params : List Token)
    (folded : before.Folded all marks image) :
    Folds all marks (params.forM declareParameter)
      (params.forM declareParameter) before
      image := by
  induction params generalizing before image with
  | nil => exact .ofPure folded ()
  | cons param rest inductionHypothesis =>
      have declares : Folds all marks (declareParameter param)
          (declareParameter param) before image :=
        (folds_declare kept folded).andThen fun _ _ _ middle =>
          folds_define kept middle
      exact declares.andThen fun _ _ _ middle => inductionHypothesis middle

/-- The heading of a class. -/
theorem folds_heading
    {superclass : Option SuperclassRef}
    (distinct : (all.map fun use => use.2.id).Nodup)
    (listed : marks.around (headingReferences superclass) ⊆ all)
    (kept : marks.here = false)
    (folded : before.Folded all marks image) :
    Folds all marks (heading name superclass) (heading name superclass)
      before image := by
  refine (folds_enterClass _ folded).andThen fun _ _ _ folded₁ => ?_
  refine (folds_declare kept folded₁).andThen fun _ _ _ folded₂ => ?_
  refine (folds_define kept folded₂).andThen fun _ _ _ folded₃ => ?_
  cases superclass with
  | none => exact .ofPure folded₃ ()
  | some named =>
      have isListed : Listed all marks named.id :=
        ⟨⟨_, _, listed (List.mem_singleton.mpr rfl)⟩, distinct⟩
      refine (folds_enterClass _ folded₃).andThen fun _ _ _ folded₄ => ?_
      dsimp only
      split
      · exact Mirrors.ofThrow rfl
      · exact folds_read isListed folded₄

end Steps

section Trees

mutual

/-- Expressions are analysed alike. -/
theorem Expr.folds_resolve
    (distinct : (all.map fun use => use.2.id).Nodup) :
    (expr : Expr) → ∀ {marks before image},
      marks.around expr.references ⊆ all → before.Folded all marks image →
        Folds all marks expr.resolve expr.resolve before image
  | .literal _, _, _, _, _, folded => .ofPure folded ()
  | .grouping inner, _, _, _, listed, folded =>
      (inner.folds_resolve distinct listed folded :)
  | .unary _ operand, _, _, _, listed, folded =>
      (operand.folds_resolve distinct listed folded :)
  | .binary left _ right, _, _, _, listed, folded => by
      simp only [Expr.references, Marks.around, List.map_append,
        List.append_subset] at listed
      exact (left.folds_resolve distinct listed.1 folded).andThen
        fun _ _ _ middle =>
          right.folds_resolve distinct listed.2 middle
  | .logical left _ right, _, _, _, listed, folded => by
      simp only [Expr.references, Marks.around, List.map_append,
        List.append_subset] at listed
      exact (left.folds_resolve distinct listed.1 folded).andThen
        fun _ _ _ middle =>
          right.folds_resolve distinct listed.2 middle
  | .reference _ _, _, _, _, listed, folded =>
      folds_read ⟨⟨_, _, listed (List.mem_singleton.mpr rfl)⟩, distinct⟩ folded
  | .assign _ _ value, _, _, _, listed, folded => by
      simp only [Expr.references, Marks.around, List.map_cons,
        List.cons_subset] at listed
      exact (value.folds_resolve distinct listed.2 folded).andThen
        fun _ _ _ middle =>
          folds_file ⟨⟨_, _, listed.1⟩, distinct⟩ middle
  | .call callee _ arguments, _, _, _, listed, folded => by
      simp only [Expr.references, Marks.around, List.map_append,
        List.append_subset] at listed
      exact (callee.folds_resolve distinct listed.1 folded).andThen
        fun _ _ _ middle =>
          Expr.folds_resolveAll distinct arguments listed.2 middle
  | .get object _, _, _, _, listed, folded =>
      (object.folds_resolve distinct listed folded :)
  | .set object _ value, _, _, _, listed, folded => by
      simp only [Expr.references, Marks.around, List.map_append,
        List.append_subset] at listed
      exact (value.folds_resolve distinct listed.2 folded).andThen
        fun _ _ _ middle =>
          object.folds_resolve distinct listed.1 middle
  | .thisRef _ _, _, _, _, listed, folded =>
      folds_useThis ⟨⟨_, _, listed (List.mem_singleton.mpr rfl)⟩, distinct⟩
        folded
  | .superRef _ _ _, _, _, _, listed, folded =>
      folds_useSuper ⟨⟨_, _, listed (List.mem_singleton.mpr rfl)⟩, distinct⟩
        folded

/-- So are expressions in order. -/
theorem Expr.folds_resolveAll
    (distinct : (all.map fun use => use.2.id).Nodup) :
    (exprs : List Expr) → ∀ {marks before image},
      marks.around (Expr.referencesAll exprs) ⊆ all →
        before.Folded all marks image →
        Folds all marks (Expr.resolveAll exprs)
          (Expr.resolveAll exprs) before image
  | [], _, _, _, _, folded => .ofPure folded ()
  | first :: rest, _, _, _, listed, folded => by
      simp only [Expr.referencesAll, Marks.around, List.map_append,
        List.append_subset] at listed
      exact (first.folds_resolve distinct listed.1 folded).andThen
        fun _ _ _ middle =>
          Expr.folds_resolveAll distinct rest listed.2 middle

end

/-- So are expressions that may be absent. -/
theorem folds_resolveOptional
    {value : Option Expr}
    (distinct : (all.map fun use => use.2.id).Nodup)
    (listed : marks.around (optionalReferences value) ⊆ all)
    (folded : before.Folded all marks image) :
    Folds all marks (resolveOptional value) (resolveOptional value)
      before image := by
  cases value with
  | none => exact .ofPure folded ()
  | some value => exact value.folds_resolve distinct listed folded

/-- Parameters are ready at once. -/
theorem Scope.settled_ofParams
    (params : List Token) :
    Scope.Settled (Scope.ofParams params NameMap.empty) := by
  intro name
  rw [Scope.find?_ofParams]
  split
  · simp
  · exact Scope.settled_empty name

/-- After a statement, all names of the scope that it stands in are ready. -/
theorem Analysis.Settled.afterwards
    {statement : Stmt}
    {after : Analysis}
    (settled : before.Settled)
    (orderly : statement.Orderly)
    (resolved : statement.resolve before = .ok () after) :
    after.Settled := by
  unfold Analysis.Settled at *
  rw [statement.scopes_of_resolve orderly resolved]
  unfold Scope.declaring
  split
  · rename_i shape
    rintro _ ⟨⟩
    exact (settled _ (by simp [shape])).insert _
  · exact settled

/-- Expressions leave the names of the scope that they stand in ready. -/
theorem Analysis.Settled.afterExpr
    {expr : Expr}
    {after : Analysis}
    (settled : before.Settled)
    (resolved : expr.resolve before = .ok () after) :
    after.Settled := by
  unfold Analysis.Settled
  rw [Expr.scopes_of_resolve resolved]
  exact settled

/-- Outside of iterations, the walk comes to a class in this way too. -/
theorem Stmt.resolveDirectly_classDecl
    (name : Token)
    (superclass : Option SuperclassRef)
    (methods : List FunctionDecl)
    (before : Analysis) :
    Stmt.resolveDirectly iterations
      (.classDecl name superclass methods) before =
      (do
        heading name superclass
        leavingClass before.inClass (withinClass superclass
          (FunctionDecl.resolveAllDirectly iterations methods))) before := by
  cases superclass <;>
    simp only [Stmt.resolveDirectly, heading, bind_assoc, pure_bind] <;>
    rfl

/-- The scopes of a class around steps. -/
theorem folds_withinClass
    {step other : Resolve Unit}
    (superclass : Option SuperclassRef)
    (folded : before.Folded all marks image)
    (folds :
      ∀ {entered enteredImage : Analysis},
        entered.Folded all (Marks.ofClass superclass marks) enteredImage →
          Folds all (Marks.ofClass superclass marks) step other entered
            enteredImage) :
    Folds all marks (withinClass superclass step) (withinClass superclass other)
      before image := by
  cases superclass with
  | none =>
      exact Folds.within (folds { folded with scopes := .kept folded.scopes })
  | some named =>
      exact Folds.within (Folds.within
        (folds { folded with scopes := .kept (.kept folded.scopes) }))

mutual

/-- Statements are analysed alike, with the scopes of iterations or without
them. -/
theorem Stmt.folds_resolve
    (distinct : (all.map fun use => use.2.id).Nodup) :
    (statement : Stmt) → ∀ {marks before image},
      statement.uses iterations marks ⊆ all → statement.Orderly →
        (marks.here = true → statement.declared? = none) → before.Settled →
        before.Folded all marks image →
        Folds all marks statement.resolve (statement.resolveDirectly iterations)
          before image
  | .print value, _, _, _, listed, _, _, _, folded =>
      value.folds_resolve distinct listed folded
  | .expression value, _, _, _, listed, _, _, _, folded =>
      value.folds_resolve distinct listed folded
  | .varDecl name initializer, marks, _, _, listed, _, kept, _, folded => by
      have isKept : marks.here = false := by simpa [Stmt.declared?] using kept
      exact (folds_declare isKept folded).andThen fun _ _ _ folded₁ =>
        (folds_resolveOptional distinct listed folded₁).andThen
          fun _ _ _ folded₂ =>
            folds_define isKept folded₂
  | .block body, marks, _, _, listed, orderly, _, _, folded => by
      simp only [Stmt.Orderly] at orderly
      refine Folds.within
        (Stmt.folds_resolveAll distinct body listed orderly nofun ?_
          { folded with scopes := .kept folded.scopes })
      rintro _ ⟨⟩
      exact Scope.settled_empty
  | .conditional condition thenBranch none, _, _, _, listed, orderly, _,
    settled, folded => by
      simp only [Stmt.uses, List.append_subset] at listed
      simp only [Stmt.Orderly] at orderly
      exact (condition.folds_resolve distinct listed.1 folded).andThen
        fun _ _ accepted folded₁ =>
          thenBranch.folds_resolve distinct listed.2 orderly.2
            (fun _ => orderly.1) (settled.afterExpr accepted) folded₁
  | .conditional condition thenBranch (some elseBranch), _, _, _, listed,
    orderly, _, settled,
      folded => by
      simp only [Stmt.uses, List.append_subset] at listed
      simp only [Stmt.Orderly] at orderly
      obtain ⟨⟨listedCondition, listedThen⟩, listedElse⟩ := listed
      refine (condition.folds_resolve distinct listedCondition folded).andThen
        fun middle _ accepted folded₁ => ?_
      have settled₁ := settled.afterExpr accepted
      exact (thenBranch.folds_resolve distinct listedThen orderly.1.2
        (fun _ => orderly.1.1) settled₁ folded₁).andThen fun _ _ acceptedThen folded₂ =>
          elseBranch.folds_resolve distinct listedElse orderly.2.2
            (fun _ => orderly.2.1)
            (settled₁.afterwards orderly.1.2 acceptedThen) folded₂
  | .loop condition body, marks, _, _, listed, orderly, _, settled, folded => by
      simp only [Stmt.Orderly] at orderly
      have folds {marks : Marks} {before image : Analysis}
          (listed : body.uses iterations marks ⊆ all) :
          before.Settled → before.Folded all marks image →
            Folds all marks body.resolve (body.resolveDirectly iterations)
              before image :=
        body.folds_resolve distinct listed orderly.2 fun _ => orderly.1
      cases body with
      | block body =>
          simp only [Stmt.uses, List.append_subset] at listed
          simp only [Stmt.Orderly] at orderly
          refine (condition.folds_resolve distinct listed.1 folded).andThen
            fun _ _ accepted folded₁ => ?_
          have settled₁ := settled.afterExpr accepted
          cases isIteration : iterations.chooses body with
          | false =>
              rw [isIteration] at listed
              exact folds listed.2 settled₁ folded₁
          | true =>
              rw [isIteration] at listed
              simp only [if_true]
              refine Folds.iteration
                (Stmt.folds_resolveAll distinct body listed.2 orderly.2
                  (fun _ => iterations.plain isIteration) ?_
                  { folded₁ with
                    scopes := .folded folded₁.scopes
                      (folded₁.scopes.settled settled₁) })
              rintro _ ⟨⟩
              exact Scope.settled_empty
      | _ =>
          obtain ⟨listedCondition, listedBody⟩ := List.append_subset.mp
            (listed : marks.around condition.references ++
              Stmt.uses iterations marks _ ⊆ all)
          exact (condition.folds_resolve distinct listedCondition
            folded).andThen
            fun _ _ accepted folded₁ =>
              folds listedBody (settled.afterExpr accepted) folded₁
  | .funDecl declaration, marks, _, _, listed, orderly, kept, _, folded => by
      have isKept : marks.here = false := by simpa [Stmt.declared?] using kept
      simp only [Stmt.Orderly] at orderly
      exact (folds_declare isKept folded).andThen fun _ _ _ folded₁ =>
        (folds_define isKept folded₁).andThen fun _ _ _ folded₂ =>
          declaration.folds_resolve distinct listed orderly.2 folded₂
  | .ret _ value, _, _, _, listed, _, _, _, folded =>
      (folds_allowReturn folded).andThen fun _ _ _ folded₁ =>
        folds_resolveOptional distinct listed folded₁
  | .classDecl name superclass methods, marks, before, image, listed, orderly,
    kept, _, folded => by
      have isKept : marks.here = false := by simpa [Stmt.declared?] using kept
      simp only [Stmt.uses, List.append_subset] at listed
      simp only [Stmt.Orderly] at orderly
      unfold Folds Mirrors
      rw [resolve_classDecl, Stmt.resolveDirectly_classDecl, folded.inClass]
      refine (folds_heading distinct listed.1 isKept folded).andThen
        fun _ _ _ folded₁ =>
          Folds.leavingClass _
            (folds_withinClass superclass folded₁ fun {_ _} folded₂ =>
              FunctionDecl.folds_resolveAll distinct methods listed.2
                orderly.2 folded₂)
  | .require _ _, _, _, _, _, _, _, _, folded => .ofPure folded ()

/-- So are statements in order. -/
theorem Stmt.folds_resolveAll
    (distinct : (all.map fun use => use.2.id).Nodup) :
    (statements : List Stmt) → ∀ {marks before image},
      Stmt.usesAll iterations marks statements ⊆ all →
        Stmt.OrderlyAll statements →
        (marks.here = true → ∀ statement ∈ statements,
          statement.declared? = none) →
        before.Settled → before.Folded all marks image →
        Folds all marks (Stmt.resolveAll statements)
          (Stmt.resolveAllDirectly iterations statements) before image
  | [], _, _, _, _, _, _, _, folded => .ofPure folded ()
  | first :: rest, _, _, _, listed, orderly, kept, settled, folded => by
      simp only [Stmt.usesAll, List.append_subset] at listed
      simp only [Stmt.OrderlyAll] at orderly
      exact (first.folds_resolve distinct listed.1 orderly.1
        (fun isHere => kept isHere first List.mem_cons_self) settled
        folded).andThen
          fun _ _ accepted folded₁ =>
            Stmt.folds_resolveAll distinct rest listed.2 orderly.2
              (fun isHere statement member =>
                kept isHere statement (.tail _ member))
              (settled.afterwards orderly.1 accepted) folded₁

/-- So are functions. -/
theorem FunctionDecl.folds_resolve
    (distinct : (all.map fun use => use.2.id).Nodup) :
    (declaration : FunctionDecl) → ∀ {marks before image},
      declaration.uses iterations marks ⊆ all → declaration.Orderly →
        before.Folded all marks image →
        Folds all marks declaration.resolve
          (declaration.resolveDirectly iterations) before image
  | ⟨_, params, body⟩, _, before, image, listed, orderly, folded => by
      simp only [FunctionDecl.Orderly] at orderly
      refine Folds.withinFunction folded.inFunction (Folds.within ?_)
      have entered : Analysis.Folded all _
          { before with
            scopes := NameMap.empty :: before.scopes, inFunction := true }
          { image with
            scopes := NameMap.empty :: image.scopes, inFunction := true } :=
        ⟨.kept folded.scopes, rfl, folded.inClass, folded.distances,
          folded.unmarked, folded.filed⟩
      refine (folds_declareParameters rfl params entered).andThen
        fun middle _ declares folded₁ => ?_
      refine Stmt.folds_resolveAll distinct body listed orderly.2
        nofun ?_ folded₁
      unfold Analysis.Settled
      rw [(declareParameters_eq_ok rfl declares).1]
      rintro _ ⟨⟩
      exact Scope.settled_ofParams params

/-- So are functions in order. -/
theorem FunctionDecl.folds_resolveAll
    (distinct : (all.map fun use => use.2.id).Nodup) :
    (declarations : List FunctionDecl) → ∀ {marks before image},
      FunctionDecl.usesAll iterations marks declarations ⊆ all →
        FunctionDecl.OrderlyAll declarations →
        before.Folded all marks image →
        Folds all marks (FunctionDecl.resolveAll declarations)
          (FunctionDecl.resolveAllDirectly iterations declarations) before image
  | [], _, _, _, _, _, folded => .ofPure folded ()
  | first :: rest, _, _, _, listed, orderly, folded => by
      simp only [FunctionDecl.usesAll, List.append_subset] at listed
      simp only [FunctionDecl.OrderlyAll] at orderly
      exact (first.folds_resolve distinct listed.1 orderly.1 folded).andThen
        fun _ _ _ folded₁ =>
          FunctionDecl.folds_resolveAll distinct rest listed.2 orderly.2 folded₁

end

end Trees

/-- The same statements, and a table of distances that leaves out iterations. -/
structure Program.Folded (iterations : Iterations) (program direct : Program) :
    Prop where
  statements : direct.statements = program.statements
  distances :
    ∀ use ∈ Stmt.usesAll iterations [] program.statements,
      direct.distances[use.2.id]? =
        program.distances[use.2.id]?.map use.1.beyond
  unmarked :
    ∀ use ∈ Stmt.usesAll iterations [] program.statements, ∀ distance,
      program.distances[use.2.id]? = some distance →
        use.1.marked distance = false
  filed : ∀ id : NodeId, direct.distances[id]? = none ↔
    program.distances[id]? = none

/-- Statements that were parsed are accepted by both analyses or rejected by
both with one error. -/
theorem Program.folds_ofStatements
    (iterations : Iterations)
    {statements : List Stmt}
    {first next : NodeId}
    (made : Stmt.MadeAll first statements next) :
    (∃ error, Program.ofStatements statements = .error error ∧
      Program.ofStatementsDirectly iterations statements = .error error) ∨
    ∃ program direct, Program.ofStatements statements = .ok program ∧
      Program.ofStatementsDirectly iterations statements = .ok direct ∧
        program.Folded iterations direct := by
  have distinct : ((Stmt.usesAll iterations [] statements).map fun use =>
      use.2.id).Nodup := by
    have handed := made.1.distinct
    rwa [← Stmt.map_usesAll iterations statements [], List.map_map] at handed
  have unfiled (id : NodeId) : ({} : Distances)[id]? = none :=
    Std.TreeMap.getElem?_emptyc
  have start : Analysis.Folded (Stmt.usesAll iterations [] statements)
      [] {} {} :=
    ⟨.nil, rfl, rfl, fun use _ => by rw [unfiled]; rfl,
      fun use _ distance filed => (nomatch (unfiled _).symm.trans filed),
        fun _ => Iff.rfl⟩
  have settled : Analysis.Settled {} := by
    rintro _ ⟨⟩
  have folds := Stmt.folds_resolveAll distinct statements (List.Subset.refl _)
    made.2 nofun settled start
  unfold ofStatements ofStatementsDirectly resolveProgram resolveProgramDirectly
  cases outcome : Stmt.resolveAll statements {} with
  | ok _ after =>
      obtain ⟨_, afterImage, outcomeImage, folded⟩ := Mirrors.ok folds outcome
      rw [outcomeImage]
      exact .inr ⟨_, _, rfl, rfl, rfl, folded.distances, folded.unmarked,
        folded.filed⟩
  | error error after =>
      obtain ⟨_, afterImage, outcomeImage, rfl⟩ := Mirrors.error folds outcome
      rw [outcomeImage]
      exact .inl ⟨_, rfl, rfl⟩

/-- A source is accepted by both analyses or rejected by both with one error. -/
theorem Program.folds_compile
    (iterations : Iterations)
    (source : ByteArray)
    (first : NodeId) :
    (∃ error next, Program.compile source first = (.error error, next) ∧
      Program.compileDirectly iterations source first = (.error error, next)) ∨
    ∃ program direct next, Program.compile source first = (.ok program, next) ∧
      Program.compileDirectly iterations source first = (.ok direct, next) ∧
        program.Folded iterations direct := by
  rw [← compileBy_ofStatements]
  unfold compileDirectly compileBy
  cases scanned : Program.tokens source with
  | error error => exact .inl ⟨_, _, rfl, rfl⟩
  | ok tokens =>
      dsimp only
      rcases parsed : parseProgram tokens first with ⟨error | statements, next⟩
      · exact .inl ⟨_, _, rfl, rfl⟩
      · have made := parseProgram_made (spelled_of_tokens scanned) parsed
        rcases folds_ofStatements iterations made with
          ⟨error, fails, failsToo⟩ | ⟨program, direct, yields, yieldsToo,
            folded⟩
        · simp only [fails, failsToo]
          exact .inl ⟨_, _, rfl, rfl⟩
        · simp only [yields, yieldsToo]
          exact .inr ⟨_, _, _, rfl, rfl, folded⟩

end LoxScript
