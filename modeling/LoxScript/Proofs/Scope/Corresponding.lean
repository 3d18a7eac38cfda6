import LoxScript.Proofs.Scope.Effect
import LoxScript.Proofs.Tree.Correspondence

namespace LoxScript

/-!
# Analyses of trees that are alike

An analysis looks at nothing but how names are spelled, and files distances
under identities without looking at them.  Of two trees that are alike and
spelled alike it accepts both or neither, and nodes that are related get the
same distances, whatever was filed before for others.
-/

open Analysis Resolve

/-- Related tokens are spelled alike, and no node is related to two nodes. -/
structure Correspondence.Exact (related : Correspondence) : Prop where
  lexemes : ∀ token other, related.tokens token other →
    other.lexeme = token.lexeme
  nodes :
    ∀ id image other otherImage, related.nodes id image →
      related.nodes other otherImage →
      (image = otherImage ↔ id = other)

/-- One fault at related tokens. -/
inductive ScopeError.Alike (related : Correspondence) : ScopeError →
    ScopeError → Prop where
  | atToken {fault token token'} :
      related.tokens token token' →
      Alike related ⟨fault, token.lexeme, token.line⟩
        ⟨fault, token'.lexeme, token'.line⟩

/-- The two analyses have the same scopes around them, and related nodes have
the same distances; distances that were filed earlier come second. -/
structure Analysis.Corresponds
    (related : Correspondence)
    (earlier : Distances)
    (analysis other : Analysis) : Prop where
  scopes : other.scopes = analysis.scopes
  inFunction : other.inFunction = analysis.inFunction
  inClass : other.inClass = analysis.inClass
  distances :
    ∀ id image : NodeId, related.nodes id image →
      other.distances[image]? = (analysis.distances[id]?).or earlier[image]?

namespace Resolve

/-- Analyses that correspond still do after the two steps, which fail at related
tokens or not at all. -/
def Corresponding
    (related : Correspondence)
    (earlier : Distances)
    (step other : Resolve Unit) : Prop :=
  ∀ analysis analysisOther, Corresponds related earlier analysis analysisOther →
    Mirrors step other analysis analysisOther
      (fun _ after _ afterOther => Corresponds related earlier after afterOther)
      (fun error after errorOther afterOther =>
        ScopeError.Alike related error errorOther ∧
          Corresponds related earlier after afterOther)

variable {related : Correspondence} {earlier : Distances}
  {step other : Resolve Unit}

namespace Corresponding

/-- Steps that do nothing. -/
theorem ofPure : Corresponding related earlier (pure ()) (pure ()) :=
  fun _ _ corresponds => corresponds

/-- Steps that fail at related tokens. -/
theorem ofFail
    {token token' : Token}
    (tokens : related.tokens token token')
    (fault : ScopeFault) :
    Corresponding related earlier (fail fault token) (fail fault token') :=
  fun _ _ corresponds => ⟨.atToken tokens, corresponds⟩

/-- One step after the other. -/
theorem andThen
    {next nextOther : Unit → Resolve Unit}
    (corresponding : Corresponding related earlier step other)
    (correspondingNext :
      Corresponding related earlier (next ()) (nextOther ())) :
    Corresponding related earlier (step >>= next) (other >>= nextOther) := by
  intro analysis analysisOther corresponds
  refine (corresponding analysis analysisOther corresponds).andThen ?_
  rintro ⟨⟩ after ⟨⟩ afterOther _ _ correspondsNext
  exact correspondingNext after afterOther correspondsNext

/-- A choice that depends on the scopes, the function and the class only. -/
theorem look
    {next nextOther : Analysis → Resolve Unit}
    (corresponding :
      ∀ seen, Corresponding related earlier (next seen) (nextOther seen))
    (same :
      ∀ analysis analysisOther,
        Corresponds related earlier analysis analysisOther →
        nextOther analysisOther = nextOther analysis) :
    Corresponding related earlier (get >>= next) (get >>= nextOther) := by
  intro analysis analysisOther corresponds
  refine Mirrors.look ?_
  rw [same analysis analysisOther corresponds]
  exact corresponding analysis analysis analysisOther corresponds

/-- Steps inside one more scope. -/
theorem within
    (corresponding : Corresponding related earlier step other)
    (scope : Scope) :
    Corresponding related earlier (within scope step) (within scope other) := by
  intro analysis analysisOther corresponds
  have entered : Corresponds related earlier
      { analysis with scopes := scope :: analysis.scopes }
      { analysisOther with scopes := scope :: analysisOther.scopes } :=
    ⟨by simp [corresponds.scopes], corresponds.inFunction, corresponds.inClass,
      corresponds.distances⟩
  have inner := corresponding _ _ entered
  cases outcome : step { analysis with scopes := scope :: analysis.scopes } with
  | ok value after =>
      obtain ⟨_, afterOther, outcomeOther, left⟩ := inner.ok outcome
      refine .ofOk (by simp only [Resolve.within, outcome]; rfl)
        (by simp only [Resolve.within, outcomeOther]; rfl) ?_
      exact ⟨by rw [left.scopes], left.inFunction, left.inClass, left.distances⟩
  | error error after =>
      obtain ⟨_, afterOther, outcomeOther, errors, left⟩ := inner.error outcome
      refine .ofError (by simp only [Resolve.within, outcome]; rfl)
        (by simp only [Resolve.within, outcomeOther]; rfl) ?_
      exact ⟨errors,
        by rw [left.scopes], left.inFunction, left.inClass, left.distances⟩

/-- Steps as part of a function. -/
theorem withinFunction
    (corresponding : Corresponding related earlier step other) :
    Corresponding related earlier (withinFunction step)
      (withinFunction other) := by
  intro analysis analysisOther corresponds
  have entered : Corresponds related earlier
      { analysis with inFunction := true }
      { analysisOther with inFunction := true } :=
    ⟨corresponds.scopes, rfl, corresponds.inClass, corresponds.distances⟩
  have inner := corresponding _ _ entered
  cases outcome : step { analysis with inFunction := true } with
  | ok value after =>
      obtain ⟨_, afterOther, outcomeOther, left⟩ := inner.ok outcome
      refine .ofOk (by simp only [Resolve.withinFunction, outcome]; rfl)
        (by simp only [Resolve.withinFunction, outcomeOther]; rfl) ?_
      exact ⟨left.scopes, corresponds.inFunction, left.inClass, left.distances⟩
  | error error after =>
      obtain ⟨_, afterOther, outcomeOther, errors, left⟩ := inner.error outcome
      refine .ofError (by simp only [Resolve.withinFunction, outcome]; rfl)
        (by simp only [Resolve.withinFunction, outcomeOther]; rfl) ?_
      exact ⟨errors, left.scopes, corresponds.inFunction, left.inClass,
        left.distances⟩

/-- Steps after which a class is left. -/
theorem leavingClass
    (corresponding : Corresponding related earlier step other)
    (context : ClassContext) :
    Corresponding related earlier (leavingClass context step)
      (leavingClass context other) := by
  intro analysis analysisOther corresponds
  have inner := corresponding analysis analysisOther corresponds
  cases outcome : step analysis with
  | ok value after =>
      obtain ⟨_, afterOther, outcomeOther, left⟩ := inner.ok outcome
      refine .ofOk (by simp only [Resolve.leavingClass, outcome]; rfl)
        (by simp only [Resolve.leavingClass, outcomeOther]; rfl) ?_
      exact ⟨left.scopes, left.inFunction, rfl, left.distances⟩
  | error error after =>
      obtain ⟨_, afterOther, outcomeOther, errors, left⟩ := inner.error outcome
      refine .ofError (by simp only [Resolve.leavingClass, outcome]; rfl)
        (by simp only [Resolve.leavingClass, outcomeOther]; rfl) ?_
      exact ⟨errors, left.scopes, left.inFunction, rfl, left.distances⟩

/-- The scopes of a class around steps. -/
theorem withinClass
    {superclass superclass' : Option SuperclassRef}
    (corresponding : Corresponding related earlier step other)
    (superclasses :
      Option.Rel (SuperclassRef.Alike related) superclass superclass') :
    Corresponding related earlier (withinClass superclass step)
      (withinClass superclass' other) := by
  cases superclasses with
  | none => exact corresponding.within _
  | some _ => exact (corresponding.within _).within _

end Corresponding

/-- Entering a class. -/
theorem corresponding_enterClass
    (context : ClassContext) :
    Corresponding related earlier (enterClass context) (enterClass context) :=
  fun _ _ corresponds =>
    ⟨corresponds.scopes, corresponds.inFunction, rfl, corresponds.distances⟩

variable (isExact : related.Exact)

include isExact

section Nodes

variable {id id' : NodeId} {name name' : Token}

/-- Filing the distances of related nodes. -/
theorem corresponding_file
    (nodes : related.nodes id id')
    (names : related.tokens name name') :
    Corresponding related earlier (file id name) (file id' name') := by
  intro analysis analysisOther corresponds
  refine .ofOk rfl rfl ?_
  dsimp only
  rw [corresponds.scopes, isExact.lexemes name name' names]
  split
  · refine ⟨rfl, corresponds.inFunction, corresponds.inClass,
      fun other image pair => ?_⟩
    have same := isExact.nodes id id' other image nodes pair
    simp only [Std.TreeMap.getElem?_insert, Nat.compare_eq_eq, same]
    split
    · rfl
    · exact corresponds.distances other image pair
  · exact corresponds

/-- Reading variables. -/
theorem corresponding_read
    (nodes : related.nodes id id')
    (names : related.tokens name name') :
    Corresponding related earlier (read id name) (read id' name') := by
  refine Corresponding.look (fun seen => ?_)
    fun _ _ corresponds => by rw [corresponds.scopes]
  rw [isExact.lexemes name name' names]
  split
  · split
    · exact (Corresponding.ofFail names _).andThen
        (corresponding_file isExact nodes names)
    · exact corresponding_file isExact nodes names
  · exact corresponding_file isExact nodes names

/-- Using `this`. -/
theorem corresponding_useThis
    (nodes : related.nodes id id')
    (keywords : related.tokens name name') :
    Corresponding related earlier (useThis id name) (useThis id' name') := by
  refine Corresponding.look (fun seen => ?_)
    fun _ _ corresponds => by rw [corresponds.inClass]
  split
  · exact .ofFail keywords _
  · exact corresponding_file isExact nodes keywords
  · exact corresponding_file isExact nodes keywords

/-- Using `super`. -/
theorem corresponding_useSuper
    (nodes : related.nodes id id')
    (keywords : related.tokens name name') :
    Corresponding related earlier (useSuper id name) (useSuper id' name') := by
  refine Corresponding.look (fun seen => ?_)
    fun _ _ corresponds => by rw [corresponds.inClass]
  split
  · exact .ofFail keywords _
  · exact .ofFail keywords _
  · exact corresponding_file isExact nodes keywords

omit isExact in
/-- Meeting a `return`. -/
theorem corresponding_allowReturn
    (keywords : related.tokens name name') :
    Corresponding related earlier (allowReturn name) (allowReturn name') := by
  refine Corresponding.look (fun seen => ?_)
    fun _ _ corresponds => by rw [corresponds.inFunction]
  split
  · exact .ofFail keywords _
  · exact .ofPure

/-- Making names ready. -/
theorem corresponding_define
    (names : related.tokens name name') :
    Corresponding related earlier (define name) (define name') := by
  intro analysis analysisOther corresponds
  refine .ofOk (define_eq name analysis) (define_eq name' analysisOther) ?_
  refine ⟨?_, corresponds.inFunction, corresponds.inClass,
    corresponds.distances⟩
  simp only [defined, corresponds.scopes]
  cases analysis.scopes with
  | nil => rfl
  | cons scope outer =>
      simp only [Scope.declaring, isExact.lexemes name name' names]

/-- Declaring names. -/
theorem corresponding_declare
    (names : related.tokens name name') :
    Corresponding related earlier (declare name) (declare name') := by
  intro analysis analysisOther corresponds
  have spelled := isExact.lexemes name name' names
  have same : Declarable name' analysisOther ↔ Declarable name analysis := by
    rw [Declarable, Declarable, corresponds.scopes, spelled]
  have declares : Corresponds related earlier (declared name analysis)
      (declared name' analysisOther) := by
    unfold declared
    rw [corresponds.scopes, spelled]
    split
    · exact corresponds
    · exact ⟨rfl, corresponds.inFunction, corresponds.inClass,
        corresponds.distances⟩
  by_cases free : Declarable name analysis
  · exact .ofOk (declare_of_free free)
      (declare_of_free (same.mpr free)) declares
  · exact .ofError (declare_of_taken free) (declare_of_taken fun there =>
      free (same.mp there)) ⟨.atToken names, declares⟩

end Nodes

/-- Declaring parameters. -/
theorem corresponding_declareParameters
    {params params' : List Token}
    (tokens : List.Forall₂ related.tokens params params') :
    Corresponding related earlier (params.forM declareParameter)
      (params'.forM declareParameter) := by
  induction tokens with
  | nil => exact .ofPure
  | cons first _ inductionHypothesis =>
      exact ((corresponding_declare isExact first).andThen
        (corresponding_define isExact first)).andThen inductionHypothesis

/-- The headings of classes. -/
theorem corresponding_heading
    {name name' : Token}
    {superclass superclass' : Option SuperclassRef}
    (names : related.tokens name name')
    (superclasses :
      Option.Rel (SuperclassRef.Alike related) superclass superclass') :
    Corresponding related earlier (heading name superclass)
      (heading name' superclass') := by
  refine (corresponding_enterClass _).andThen ?_
  refine (corresponding_declare isExact names).andThen ?_
  refine (corresponding_define isExact names).andThen ?_
  cases superclasses with
  | none => exact .ofPure
  | @some named named' pair =>
      refine (corresponding_enterClass _).andThen ?_
      have reads : Corresponding related earlier (read named.id named.name)
          (read named'.id named'.name) :=
        corresponding_read isExact pair.1 pair.2
      dsimp only
      rw [isExact.lexemes _ _ pair.2, isExact.lexemes _ _ names]
      split
      · exact (Corresponding.ofFail pair.2 _).andThen reads
      · exact reads

/-- Classes whose methods are analysed alike.  What the analysis is left in
depends on the class around it, which is the same on both sides. -/
theorem corresponding_classDecl
    {name name' : Token}
    {superclass superclass' : Option SuperclassRef}
    {methods methods' : List FunctionDecl}
    (names : related.tokens name name')
    (superclasses :
      Option.Rel (SuperclassRef.Alike related) superclass superclass')
    (bodies :
      Corresponding related earlier (FunctionDecl.resolveAll methods)
        (FunctionDecl.resolveAll methods')) :
    Corresponding related earlier
      (Stmt.classDecl name superclass methods).resolve
      (Stmt.classDecl name' superclass' methods').resolve := by
  intro analysis analysisOther corresponds
  have both : Corresponding related earlier
      (do
        heading name superclass
        leavingClass analysis.inClass
          (withinClass superclass (FunctionDecl.resolveAll methods)))
      (do
        heading name' superclass'
        leavingClass analysis.inClass
          (withinClass superclass' (FunctionDecl.resolveAll methods'))) :=
    (corresponding_heading isExact names superclasses).andThen
      ((bodies.withinClass superclasses).leavingClass analysis.inClass)
  have inner := both analysis analysisOther corresponds
  unfold Mirrors at inner ⊢
  rw [resolve_classDecl, resolve_classDecl, corresponds.inClass]
  exact inner

end Resolve

section Trees

variable {related : Correspondence} {earlier : Distances}

mutual

/-- Expressions that are alike are analysed alike. -/
theorem Expr.corresponding_resolve
    (isExact : related.Exact) :
    (expr : Expr) → ∀ {other}, Expr.Alike related expr other →
      Corresponding related earlier expr.resolve other.resolve
  | .literal _, _, .literal => .ofPure
  | .grouping inner, _, .grouping alike =>
      (inner.corresponding_resolve isExact alike :)
  | .unary _ operand, _, .unary _ alike =>
      (operand.corresponding_resolve isExact alike :)
  | .binary left _ right, _, .binary lefts _ rights =>
      (left.corresponding_resolve isExact lefts).andThen
        (right.corresponding_resolve isExact rights)
  | .logical left _ right, _, .logical lefts _ rights =>
      (left.corresponding_resolve isExact lefts).andThen
        (right.corresponding_resolve isExact rights)
  | .reference _ _, _, .reference nodes names =>
      corresponding_read isExact nodes names
  | .assign _ _ value, _, .assign nodes names values =>
      (value.corresponding_resolve isExact values).andThen
        (corresponding_file isExact nodes names)
  | .call callee _ arguments, _, .call callees _ alike =>
      (callee.corresponding_resolve isExact callees).andThen
        (Expr.corresponding_resolveAll isExact arguments alike)
  | .get object _, _, .get objects _ =>
      (object.corresponding_resolve isExact objects :)
  | .set object _ value, _, .set objects _ values =>
      (value.corresponding_resolve isExact values).andThen
        (object.corresponding_resolve isExact objects)
  | .thisRef _ _, _, .thisRef nodes keywords =>
      corresponding_useThis isExact nodes keywords
  | .superRef _ _ _, _, .superRef nodes keywords _ =>
      corresponding_useSuper isExact nodes keywords

/-- So are expressions that are alike one by one. -/
theorem Expr.corresponding_resolveAll
    (isExact : related.Exact) :
    (exprs : List Expr) → ∀ {others},
      List.Forall₂ (Expr.Alike related) exprs others →
      Corresponding related earlier (Expr.resolveAll exprs)
        (Expr.resolveAll others)
  | [], _, .nil => .ofPure
  | first :: rest, _, .cons alike others =>
      (first.corresponding_resolve isExact alike).andThen
        (Expr.corresponding_resolveAll isExact rest others)

end

/-- So are expressions that may be absent. -/
theorem corresponding_resolveOptional
    (isExact : related.Exact)
    {value other : Option Expr}
    (alike : Option.Rel (Expr.Alike related) value other) :
    Corresponding related earlier (resolveOptional value)
      (resolveOptional other) := by
  cases alike with
  | none => exact .ofPure
  | some alike => exact Expr.corresponding_resolve isExact _ alike

mutual

/-- Statements that are alike are analysed alike. -/
theorem Stmt.corresponding_resolve
    (isExact : related.Exact) :
    (statement : Stmt) → ∀ {other}, Stmt.Alike related statement other →
      Corresponding related earlier statement.resolve other.resolve
  | .print value, _, .print alike => value.corresponding_resolve isExact alike
  | .expression value, _, .expression alike =>
      value.corresponding_resolve isExact alike
  | .varDecl _ _, _, .varDecl names initializers =>
      (corresponding_declare isExact names).andThen
        ((corresponding_resolveOptional isExact initializers).andThen
          (corresponding_define isExact names))
  | .block body, _, .block alike =>
      (Stmt.corresponding_resolveAll isExact body alike).within _
  | .conditional condition thenBranch none, _,
    .conditional conditions branches .none =>
      (condition.corresponding_resolve isExact conditions).andThen
        (thenBranch.corresponding_resolve isExact branches)
  | .conditional condition thenBranch (some elseBranch), _,
      .conditional conditions branches (.some others) =>
      (condition.corresponding_resolve isExact conditions).andThen
        ((thenBranch.corresponding_resolve isExact branches).andThen
          (elseBranch.corresponding_resolve isExact others))
  | .loop condition body, _, .loop conditions bodies =>
      (condition.corresponding_resolve isExact conditions).andThen
        (body.corresponding_resolve isExact bodies)
  | .funDecl declaration, _, .funDecl alike =>
      (corresponding_declare isExact alike.name).andThen
        ((corresponding_define isExact alike.name).andThen
          (declaration.corresponding_resolve isExact alike))
  | .ret _ _, _, .ret keywords values =>
      (corresponding_allowReturn keywords).andThen
        (corresponding_resolveOptional isExact values)
  | .classDecl _ _ methods, _, .classDecl names superclasses alike =>
      corresponding_classDecl isExact names superclasses
        (FunctionDecl.corresponding_resolveAll isExact methods alike)
  | .require _ _, _, .require _ => .ofPure
termination_by structural statement => statement

/-- So are statements that are alike one by one. -/
theorem Stmt.corresponding_resolveAll
    (isExact : related.Exact) :
    (statements : List Stmt) → ∀ {others},
      List.Forall₂ (Stmt.Alike related) statements others →
      Corresponding related earlier (Stmt.resolveAll statements)
        (Stmt.resolveAll others)
  | [], _, .nil => .ofPure
  | first :: rest, _, .cons alike others =>
      (first.corresponding_resolve isExact alike).andThen
        (Stmt.corresponding_resolveAll isExact rest others)
termination_by structural statements => statements

/-- So are functions. -/
theorem FunctionDecl.corresponding_resolve
    (isExact : related.Exact) :
    (declaration :
      FunctionDecl) → ∀ {other}, FunctionDecl.Alike related declaration other →
      Corresponding related earlier declaration.resolve other.resolve
  | ⟨_, _, body⟩, _, .intro _ params bodies =>
      (((corresponding_declareParameters isExact params).andThen
        (Stmt.corresponding_resolveAll isExact body bodies)).within
        _).withinFunction
termination_by structural declaration => declaration

/-- So are functions that are alike one by one. -/
theorem FunctionDecl.corresponding_resolveAll
    (isExact : related.Exact) :
    (declarations : List FunctionDecl) →
      ∀ {others}, List.Forall₂ (FunctionDecl.Alike related)
        declarations others →
      Corresponding related earlier (FunctionDecl.resolveAll declarations)
        (FunctionDecl.resolveAll others)
  | [], _, .nil => .ofPure
  | first :: rest, _, .cons alike others =>
      (first.corresponding_resolve isExact alike).andThen
        (FunctionDecl.corresponding_resolveAll isExact rest others)
termination_by structural declarations => declarations

end

end Trees

end LoxScript
