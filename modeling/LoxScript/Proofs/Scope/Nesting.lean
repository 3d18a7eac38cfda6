import LoxScript.Proofs.Scope.Table

namespace LoxScript

/-!
# How scopes are nested

Wherever the analysis of a compiled program comes to, the scopes around are
those of blocks and functions, with one scope for `this` around the methods of
every class and, around that, one for `super` if the class has a superclass.
Only the innermost scope can hold a name that is not ready, and only while the
initializer of that name is analysed.
-/

open Analysis Resolve

namespace Scope

/-- The scope of a block or a function. -/
structure Plain (scope : Scope) : Prop where
  lacksThis : scope.contains "this" = false
  lacksSuper : scope.contains "super" = false

/-- Every name of the scope is ready. -/
def Settled (scope : Scope) : Prop :=
  ∀ name, scope.find? name ≠ some false

/-- Scopes of blocks, functions and classes, innermost first. -/
inductive Nested : List Scope → Prop where
  | top : Nested []
  | plain {scope : Scope} {outer : List Scope} :
      scope.Plain → Nested outer → Nested (scope :: outer)
  | ofThis {outer : List Scope} : Nested outer → Nested (ofThis :: outer)
  | ofSuper {outer : List Scope} : Nested outer →
    Nested (ofThis :: ofSuper :: outer)

/-- One of the scopes declares the name. -/
def Declares (name : String) (scopes : List Scope) : Prop :=
  ∃ scope ∈ scopes, scope.contains name = true

variable {scope : Scope} {scopes outer : List Scope} {name : String}
  {distance : Nat}

/-- A scope that declares nothing is the scope of a block. -/
theorem plain_empty : Plain NameMap.empty :=
  ⟨rfl, rfl⟩

theorem settled_empty : Settled NameMap.empty := by
  intro name found
  cases found

theorem settled_ofThis : Settled ofThis := by
  intro name
  rw [ofThis, NameMap.find?_insert]
  split
  · simp
  · exact settled_empty name

theorem settled_ofSuper : Settled ofSuper := by
  intro name
  rw [ofSuper, NameMap.find?_insert]
  split
  · simp
  · exact settled_empty name

/-- Declaring a proper name leaves the scope one of a block or a function. -/
theorem Plain.insert
    {token : Token}
    (plain : scope.Plain)
    (isName : token.IsName)
    (ready : Bool) :
    Plain (NameMap.insert scope token.lexeme ready) := by
  constructor
  · simp [NameMap.contains_insert, plain.lacksThis, isName.ne_this]
  · simp [NameMap.contains_insert, plain.lacksSuper, isName.ne_super]

/-- Declaring a name that is ready leaves every name ready. -/
theorem Settled.insert
    (settled : scope.Settled)
    (name : String) :
    Settled (NameMap.insert scope name true) := by
  intro other
  rw [NameMap.find?_insert]
  split
  · simp
  · exact settled other

/-- A name that a settled scope declares is ready. -/
theorem Settled.find?_eq
    (settled : scope.Settled)
    (contained : scope.contains name = true) :
    scope.find? name = some true := by
  cases found : scope.find? name with
  | none =>
      simp [NameMap.contains, found] at contained
  | some ready =>
      cases ready with
      | false => exact absurd found (settled name)
      | true => rfl

/-- The scope at the distance of a name declares the name. -/
theorem getElem?_of_distance?
    (found : distance? name scopes = some distance) :
    ∃ scope, scopes[distance]? = some scope ∧ scope.contains name = true := by
  induction scopes generalizing distance with
  | nil =>
      cases found
  | cons scope outer inductionHypothesis =>
      simp only [distance?] at found
      split at found
      · cases found
        exact ⟨scope, rfl, ‹_›⟩
      · obtain ⟨inner, foundInner, rfl⟩ := Option.map_eq_some_iff.mp found
        obtain ⟨held, atInner, contained⟩ := inductionHypothesis foundInner
        exact ⟨held, by simpa using atInner, contained⟩

/-- A declared name has a distance. -/
theorem Declares.distance?
    (declares : Declares name scopes) :
    ∃ distance, Scope.distance? name scopes = some distance := by
  obtain ⟨scope, member, contained⟩ := declares
  induction scopes with
  | nil =>
      cases member
  | cons first outer inductionHypothesis =>
      by_cases here : first.contains name = true
      · exact ⟨0, by simp [Scope.distance?, here]⟩
      · rcases List.mem_cons.mp member with same | further
        · exact absurd (same ▸ contained) here
        · obtain ⟨distance, found⟩ := inductionHypothesis further
          exact ⟨distance + 1, by simp [Scope.distance?, here, found]⟩

/-- What is declared further out is declared. -/
theorem Declares.cons
    (declares : Declares name outer)
    (scope : Scope) :
    Declares name (scope :: outer) := by
  obtain ⟨held, member, contained⟩ := declares
  exact ⟨held, List.mem_cons_of_mem scope member, contained⟩

/-- What is declared stays declared when a name is added. -/
theorem Declares.declaring
    (declares : Declares name scopes)
    (added : Option Token) :
    Declares name (Scope.declaring added scopes) := by
  unfold Scope.declaring
  split
  · rename_i token scope outer
    obtain ⟨held, member, contained⟩ := declares
    rcases List.mem_cons.mp member with rfl | further
    · exact ⟨_, List.mem_cons_self,
        by simp [NameMap.contains_insert, contained]⟩
    · exact ⟨held, List.mem_cons_of_mem _ further, contained⟩
  · exact declares

namespace Nested

/-- Only the scope of a class declares `this`. -/
theorem ofThis_at
    (nested : Nested scopes)
    (found : scopes[distance]? = some scope)
    (contained : scope.contains "this" = true) :
    scope = Scope.ofThis := by
  induction nested generalizing distance with
  | top =>
      cases found
  | plain plain _ inductionHypothesis =>
      cases distance with
      | zero =>
          cases found
          rw [plain.lacksThis] at contained
          cases contained
      | succ inner => exact inductionHypothesis found
  | ofThis _ inductionHypothesis =>
      cases distance with
      | zero =>
          cases found
          rfl
      | succ inner => exact inductionHypothesis found
  | ofSuper _ inductionHypothesis =>
      match distance, found with
      | 0, found =>
          cases found
          rfl
      | 1, found =>
          cases found
          cases contained
      | inner + 2, found => exact inductionHypothesis found

/-- Only the scope of a subclass declares `super`, and the scope just inside of
it declares `this`. -/
theorem ofSuper_at
    (nested : Nested scopes)
    (found : scopes[distance]? = some scope)
    (contained : scope.contains "super" = true) :
    scope = Scope.ofSuper ∧
      ∃ inner, distance = inner + 1 ∧ scopes[inner]? = some Scope.ofThis := by
  induction nested generalizing distance with
  | top =>
      cases found
  | plain plain _ inductionHypothesis =>
      cases distance with
      | zero =>
          cases found
          rw [plain.lacksSuper] at contained
          cases contained
      | succ inner =>
          obtain ⟨same, next, rfl, foundNext⟩ := inductionHypothesis found
          exact ⟨same, next + 1, rfl, foundNext⟩
  | ofThis _ inductionHypothesis =>
      cases distance with
      | zero =>
          cases found
          cases contained
      | succ inner =>
          obtain ⟨same, next, rfl, foundNext⟩ := inductionHypothesis found
          exact ⟨same, next + 1, rfl, foundNext⟩
  | ofSuper _ inductionHypothesis =>
      match distance, found with
      | 0, found =>
          cases found
          cases contained
      | 1, found =>
          cases found
          exact ⟨rfl, 0, rfl, rfl⟩
      | inner + 2, found =>
          obtain ⟨same, next, rfl, foundNext⟩ := inductionHypothesis found
          exact ⟨same, next + 2, rfl, foundNext⟩

/-- Declaring a proper name in the scope of a block or function keeps the
nesting. -/
theorem declaring
    {added : Option Token}
    (nested : Nested scopes)
    (plain : ∀ scope ∈ scopes.head?, scope.Plain)
    (isName : ∀ token ∈ added, token.IsName) :
    Nested (Scope.declaring added scopes) := by
  unfold Scope.declaring
  split
  · rename_i token scope outer
    have plainHere := plain scope rfl
    cases nested with
    | plain _ nestedOuter =>
        exact .plain (plainHere.insert (isName token rfl) true) nestedOuter
    | ofThis _ => cases plainHere.lacksThis
    | ofSuper _ => cases plainHere.lacksThis
  · exact nested

end Nested

end Scope

/-- The name that an orderly statement declares is a proper name. -/
theorem Stmt.isName_of_declared?
    {statement : Stmt}
    (orderly : statement.Orderly) :
    ∀ token ∈ statement.declared?, token.IsName := by
  intro token member
  cases statement with
  | varDecl name initializer =>
      cases member
      simpa [Stmt.Orderly] using orderly
  | funDecl declaration =>
      cases member
      simp only [Stmt.Orderly] at orderly
      exact orderly.1
  | classDecl name superclass methods =>
      cases member
      simp only [Stmt.Orderly] at orderly
      exact orderly.1
  | _ => cases member

variable {before after : Analysis}

/-- Expressions leave the scopes alone. -/
theorem Expr.scopes_of_resolve
    {expr : Expr}
    (resolved : expr.resolve before = .ok () after) :
    after.scopes = before.scopes :=
  ((expr.files_resolve before).ok resolved).1.scopes

/-- Expressions leave the class alone. -/
theorem Expr.inClass_of_resolve
    {expr : Expr}
    (resolved : expr.resolve before = .ok () after) :
    after.inClass = before.inClass :=
  ((expr.files_resolve before).ok resolved).2

/-- Functions leave the scopes alone. -/
theorem FunctionDecl.scopes_of_resolve
    {declaration : FunctionDecl}
    (resolved : declaration.resolve before = .ok () after) :
    after.scopes = before.scopes :=
  ((declaration.restores_resolve before).ok resolved).1.scopes

/-- Functions leave the class alone. -/
theorem FunctionDecl.inClass_of_resolve
    {declaration : FunctionDecl}
    (resolved : declaration.resolve before = .ok () after) :
    after.inClass = before.inClass :=
  ((declaration.restores_resolve before).ok resolved).2

/-- The heading of a class declares its name and enters the class. -/
theorem scopes_heading
    {name : Token}
    {superclass : Option SuperclassRef}
    (headed : heading name superclass before = .ok () after) :
    after.scopes = Scope.declaring (some name) before.scopes ∧
      after.inClass = (if superclass.isSome then .derived else .plain) := by
  cases superclass with
  | none =>
      obtain ⟨-, rfl⟩ := heading_none_eq_ok headed
      exact ⟨rfl, rfl⟩
  | some named =>
      obtain ⟨-, -, reads⟩ := heading_some_eq_ok headed
      exact ⟨Expr.scopes_of_resolve reads, Expr.inClass_of_resolve reads⟩

/-- An accepted class has declared its name. -/
theorem scopes_classDecl
    {name : Token}
    {superclass : Option SuperclassRef}
    {methods : List FunctionDecl}
    (resolved : Stmt.resolve (.classDecl name superclass methods) before =
      .ok () after) :
    after.scopes = Scope.declaring (some name) before.scopes := by
  rw [resolve_classDecl] at resolved
  obtain ⟨⟨⟩, middle, headed, resolvedNext⟩ := bind_eq_ok_iff.mp resolved
  have inner :=
    (FunctionDecl.restores_resolveAll methods).withinClass superclass
  have restored := inner middle
  unfold leavingClass at resolvedNext
  split at resolvedNext
  · rename_i yields
    cases resolvedNext
    exact (restored.ok yields).1.scopes.trans (scopes_heading headed).1
  · cases resolvedNext

/-- An accepted orderly statement has declared its name and nothing else. -/
theorem Stmt.scopes_of_resolve :
    (statement : Stmt) →
      ∀ {before after : Analysis}, statement.Orderly →
        statement.resolve before = .ok () after →
        after.scopes = Scope.declaring statement.declared? before.scopes
  | .print _, _, _, _, resolved => Expr.scopes_of_resolve resolved
  | .expression _, _, _, _, resolved => Expr.scopes_of_resolve resolved
  | .varDecl name none, before, _, _, resolved => by
      simp only [Stmt.resolve] at resolved
      obtain ⟨_, _, declares, defines⟩ := bind_eq_ok_iff.mp resolved
      obtain ⟨-, rfl⟩ := declare_eq_ok_iff.mp declares
      obtain ⟨_, _, nothing, definesName⟩ := bind_eq_ok_iff.mp defines
      cases nothing
      rw [define_eq, defined_declared] at definesName
      cases definesName
      rfl
  | .varDecl name (some initializer), before, _, _, resolved => by
      obtain ⟨-, middle, initialized, rfl⟩ := resolve_varDecl_eq_ok resolved
      have same := congrArg Analysis.scopes (defined_declared name before)
      simp only [defined] at same ⊢
      rw [Expr.scopes_of_resolve initialized, same]
      rfl
  | .block body, before, _, _, resolved => by
      have restores := (Stmt.keeps_resolveAll body).within NameMap.empty
      exact ((restores before).ok resolved).1.scopes
  | .conditional condition thenBranch none, _, _, orderly, resolved => by
      simp only [Stmt.Orderly] at orderly
      simp only [Stmt.resolve] at resolved
      obtain ⟨⟨⟩, middle, conditionResolved, thenResolved⟩ :=
        bind_eq_ok_iff.mp resolved
      have inner := thenBranch.scopes_of_resolve orderly.2 thenResolved
      rw [inner, orderly.1, Expr.scopes_of_resolve conditionResolved]
      rfl
  | .conditional condition thenBranch (some elseBranch), _, _, orderly,
    resolved => by
      simp only [Stmt.Orderly] at orderly
      simp only [Stmt.resolve] at resolved
      obtain ⟨⟨⟩, _, conditionResolved, branches⟩ := bind_eq_ok_iff.mp resolved
      obtain ⟨⟨⟩, _, thenResolved, elseResolved⟩ := bind_eq_ok_iff.mp branches
      have former := thenBranch.scopes_of_resolve orderly.1.2 thenResolved
      have latter := elseBranch.scopes_of_resolve orderly.2.2 elseResolved
      rw [latter, orderly.2.1, former, orderly.1.1,
        Expr.scopes_of_resolve conditionResolved]
      rfl
  | .loop condition body, _, _, orderly, resolved => by
      simp only [Stmt.Orderly] at orderly
      simp only [Stmt.resolve] at resolved
      obtain ⟨⟨⟩, _, conditionResolved, bodyResolved⟩ :=
        bind_eq_ok_iff.mp resolved
      have inner := body.scopes_of_resolve orderly.2 bodyResolved
      rw [inner, orderly.1, Expr.scopes_of_resolve conditionResolved]
      rfl
  | .funDecl declaration, _, _, _, resolved => by
      obtain ⟨-, resolvedInner⟩ := resolve_funDecl_eq_ok resolved
      exact FunctionDecl.scopes_of_resolve resolvedInner
  | .ret keyword none, _, _, _, resolved => by
      simp only [Stmt.resolve] at resolved
      obtain ⟨⟨⟩, _, allowed, nothing⟩ := bind_eq_ok_iff.mp resolved
      cases nothing
      rw [allowReturn_eq_ok allowed]
      rfl
  | .ret keyword (some value), _, _, _, resolved => by
      simp only [Stmt.resolve] at resolved
      obtain ⟨⟨⟩, _, allowed, valueResolved⟩ := bind_eq_ok_iff.mp resolved
      have same := Expr.scopes_of_resolve valueResolved
      rw [same, allowReturn_eq_ok allowed]
      rfl
  | .classDecl _ _ _, _, _, _, resolved => scopes_classDecl resolved
  | .require _ _, _, _, _, resolved => by
      cases resolved
      rfl

/-- Accepted statements leave the class alone. -/
theorem Stmt.inClass_of_resolve
    {statement : Stmt}
    (resolved : statement.resolve before = .ok () after) :
    after.inClass = before.inClass :=
  ((statement.keeps_resolve before).ok resolved).2

/-- The scope of a function once its parameters are declared. -/
def Scope.ofParams (params : List Token) (scope : Scope) : Scope :=
  params.foldl (fun grown param => grown.insert param.lexeme true) scope

/-- What the scope of a function declares. -/
theorem Scope.find?_ofParams
    (params : List Token)
    (scope : Scope)
    (name : String) :
    (Scope.ofParams params scope).find? name =
      if name ∈ params.map Token.lexeme then some true
      else scope.find? name := by
  induction params generalizing scope with
  | nil =>
      simp [Scope.ofParams]
  | cons param rest inductionHypothesis =>
      have step := inductionHypothesis (scope.insert param.lexeme true)
      simp only [Scope.ofParams, List.foldl_cons] at step ⊢
      rw [step, NameMap.find?_insert]
      by_cases later : name ∈ rest.map Token.lexeme
      · simp [later]
      · by_cases here : param.lexeme = name
        · simp [here]
        · simp [later, here, Ne.symm here]

/-- No parameter is called `this` or `super`. -/
theorem Scope.plain_ofParams
    {params : List Token}
    (isName : ∀ param ∈ params, param.IsName) :
    Scope.Plain (Scope.ofParams params NameMap.empty) := by
  have absent (reserved : String)
      (different : ∀ param ∈ params, param.lexeme ≠ reserved) :
      (Scope.ofParams params NameMap.empty).contains reserved = false := by
    have missing : reserved ∉ params.map Token.lexeme := by
      intro member
      obtain ⟨param, isParam, same⟩ := List.mem_map.mp member
      exact different param isParam same
    simp only [NameMap.contains, Scope.find?_ofParams, missing, if_false]
    rfl
  exact ⟨absent "this" fun param member => (isName param member).ne_this,
    absent "super" fun param member => (isName param member).ne_super⟩

/-- Parameters are declared in the innermost scope, ready at once. -/
theorem declareParameters_eq_ok
    {params : List Token}
    {scope : Scope}
    {outer : List Scope}
    (shape : before.scopes = scope :: outer)
    (declares : params.forM declareParameter before = .ok () after) :
    after.scopes = Scope.ofParams params scope :: outer ∧
      after.inClass = before.inClass := by
  induction params generalizing before scope with
  | nil =>
      cases declares
      exact ⟨shape, rfl⟩
  | cons param rest inductionHypothesis =>
      obtain ⟨⟨⟩, middle, declaresFirst, declaresRest⟩ :=
        bind_eq_ok_iff.mp declares
      obtain ⟨_, _, declaresName, defines⟩ := bind_eq_ok_iff.mp declaresFirst
      obtain ⟨-, rfl⟩ := declare_eq_ok_iff.mp declaresName
      rw [define_eq, defined_declared] at defines
      cases defines
      have grown : (defined param before).scopes =
          scope.insert param.lexeme true :: outer := by
        simp [defined, shape, Scope.declaring]
      obtain ⟨sameScopes, sameClass⟩ := inductionHypothesis grown declaresRest
      exact ⟨sameScopes, sameClass⟩

namespace Part

/-- The part is an expression or a list of them. -/
def IsExpr : Part → Prop
  | .expr _ => True
  | .exprs _ => True
  | _ => False

/-- The part is a function or a list of them. -/
def IsFunction : Part → Prop
  | .function _ => True
  | .functions _ => True
  | _ => False

/-- The part is the name of a variable. -/
def IsReference : Part → Prop
  | .expr (.reference _ _) => True
  | _ => False

end Part

/-- What holds of the scopes and the class wherever an analysis comes to. -/
structure Placed (part : Part) (scopes : List Scope) (context : ClassContext) :
    Prop where
  nested : Scope.Nested scopes
  /-- Functions, methods among them, may be in the scope of a class. -/
  plain : part.IsFunction ∨ ∀ scope ∈ scopes.head?, scope.Plain
  outerSettled : ∀ scope ∈ scopes.tail, scope.Settled
  /-- Initializers are analysed while their name is not ready. -/
  settled : part.IsExpr ∨ ∀ scope ∈ scopes.head?, scope.Settled
  /-- The superclass is named before the scopes of the class are entered. -/
  this : part.IsReference ∨ (context ≠ .outside → Scope.Declares "this" scopes)
  super : part.IsReference ∨
    (context = .derived → Scope.Declares "super" scopes)

namespace Placed

variable {part : Part} {scopes : List Scope} {context : ClassContext}

/-- From a part to one of the same kind, or to an expression of a statement. -/
theorem move
    (placed : Placed part scopes context)
    (other : Part)
    (expr : part.IsExpr → other.IsExpr)
    (function : part.IsFunction → other.IsFunction)
    (noReference : ¬ part.IsReference) :
    Placed other scopes context where
  nested := placed.nested
  plain := placed.plain.imp_left function
  outerSettled := placed.outerSettled
  settled := placed.settled.imp_left expr
  this := .inr (placed.this.resolve_left noReference)
  super := .inr (placed.super.resolve_left noReference)

/-- From a statement to the statement or function after the declaration of a
name. -/
theorem declaring
    {statement : Stmt}
    {name : Option Token}
    (placed : Placed (.stmt statement) scopes context)
    (isName : ∀ token ∈ name, token.IsName)
    (other : Part) :
    Placed other (Scope.declaring name scopes) context := by
  have plain : ∀ scope ∈ scopes.head?, scope.Plain :=
    placed.plain.resolve_left id
  have settled : ∀ scope ∈ scopes.head?, scope.Settled :=
    placed.settled.resolve_left id
  refine ⟨placed.nested.declaring plain isName, .inr ?_, ?_, .inr ?_, .inr ?_,
    .inr ?_⟩
  · unfold Scope.declaring
    split
    · rintro _ ⟨⟩
      exact (plain _ rfl).insert (isName _ rfl) true
    · exact plain
  · unfold Scope.declaring
    split
    · exact placed.outerSettled
    · exact placed.outerSettled
  · unfold Scope.declaring
    split
    · rintro _ ⟨⟩
      exact (settled _ rfl).insert _
    · exact settled
  · intro inside
    exact (placed.this.resolve_left id inside).declaring name
  · intro derived
    exact (placed.super.resolve_left id derived).declaring name

/-- Into a block or a function. -/
theorem enter
    {other : Part}
    {scope : Scope}
    (nested : Scope.Nested scopes)
    (settledOuter : ∀ scope ∈ scopes, scope.Settled)
    (this : context ≠ .outside → Scope.Declares "this" scopes)
    (super : context = .derived → Scope.Declares "super" scopes)
    (plain : scope.Plain)
    (settled : scope.Settled) :
    Placed other (scope :: scopes) context where
  nested := .plain plain nested
  plain := .inr (by rintro _ ⟨⟩; exact plain)
  outerSettled := settledOuter
  settled := .inr (by rintro _ ⟨⟩; exact settled)
  this := .inr fun inside => (this inside).cons scope
  super := .inr fun derived => (super derived).cons scope

/-- Outside of initializers all names are ready. -/
theorem allSettled
    (placed : Placed part scopes context)
    (noExpr : ¬ part.IsExpr) :
    ∀ scope ∈ scopes, scope.Settled := by
  intro scope member
  cases scopes with
  | nil =>
      cases member
  | cons first outer =>
      rcases List.mem_cons.mp member with rfl | further
      · exact placed.settled.resolve_left noExpr _ rfl
      · exact placed.outerSettled scope further

end Placed

/-- The initializer of a name is analysed with the name there and not ready. -/
theorem placed_declared
    {name : Token}
    {initializer : Expr}
    {statement : Stmt}
    {analysis : Analysis}
    (placed : Placed (.stmt statement) analysis.scopes analysis.inClass)
    (isName : name.IsName) :
    Placed (.expr initializer) (declared name analysis).scopes
      (declared name analysis).inClass := by
  have plain : ∀ scope ∈ analysis.scopes.head?, scope.Plain :=
    placed.plain.resolve_left id
  have this := placed.this.resolve_left id
  have super := placed.super.resolve_left id
  rw [inClass_declared]
  cases shape : analysis.scopes with
  | nil =>
      rw [shape] at placed
      simpa [declared, shape] using placed.move (.expr initializer)
        (fun _ => trivial) id id
  | cons scope outer =>
      have plainHere := plain scope (by simp [shape])
      have nested := placed.nested
      rw [shape] at nested
      have nestedOuter : Scope.Nested outer := by
        cases nested with
        | plain _ nestedOuter => exact nestedOuter
        | ofThis _ => cases plainHere.lacksThis
        | ofSuper _ => cases plainHere.lacksThis
      have grown {wanted : String}
          (declares : Scope.Declares wanted analysis.scopes) :
          Scope.Declares wanted (scope.insert name.lexeme false :: outer) := by
        obtain ⟨held, member, contained⟩ := declares
        rw [shape] at member
        rcases List.mem_cons.mp member with rfl | further
        · exact ⟨_, List.mem_cons_self,
            by simp [NameMap.contains_insert, contained]⟩
        · exact ⟨held, List.mem_cons_of_mem _ further, contained⟩
      simp only [declared, shape]
      refine ⟨.plain (plainHere.insert isName false) nestedOuter, .inr ?_, ?_,
        .inl trivial,
        .inr fun inside => grown (this inside), .inr fun derived =>
          grown (super derived)⟩
      · rintro _ ⟨⟩
        exact plainHere.insert isName false
      · have settledOuter := placed.outerSettled
        rw [shape] at settledOuter
        exact settledOuter

/-- The methods of a class are analysed in the scopes of the class. -/
theorem placed_methods
    {superclass : Option SuperclassRef}
    {methods : List FunctionDecl}
    {scopes : List Scope}
    (nested : Scope.Nested scopes)
    (settled : ∀ scope ∈ scopes, scope.Settled) :
    Placed (.functions methods) (Scope.ofClass superclass ++ scopes)
      (if superclass.isSome then .derived else .plain) := by
  cases superclass with
  | none =>
      refine ⟨.ofThis nested, .inl trivial, settled, .inr ?_, .inr fun _ => ?_,
        .inr ?_⟩
      · rintro _ ⟨⟩
        exact Scope.settled_ofThis
      · exact ⟨Scope.ofThis, by simp [Scope.ofClass], rfl⟩
      · intro derived
        cases derived
  | some named =>
      refine ⟨.ofSuper nested, .inl trivial, ?_, .inr ?_, .inr fun _ => ?_,
        .inr fun _ => ?_⟩
      · intro scope member
        rcases List.mem_cons.mp member with rfl | further
        · exact Scope.settled_ofSuper
        · exact settled scope further
      · rintro _ ⟨⟩
        exact Scope.settled_ofThis
      · exact ⟨Scope.ofThis, by simp [Scope.ofClass], rfl⟩
      · exact ⟨Scope.ofSuper, by simp [Scope.ofClass], rfl⟩

/-- The body of a function is analysed in the scope of its parameters. -/
theorem placed_body
    {name : Token}
    {params : List Token}
    {body : List Stmt}
    {before after : Analysis}
    (placed :
      Placed (.function ⟨name, params, body⟩) before.scopes before.inClass)
    (isName : ∀ param ∈ params, param.IsName)
    (declares :
      params.forM declareParameter
          { before with
            inFunction := true, scopes := NameMap.empty :: before.scopes } =
        .ok () after) :
    Placed (.stmts body) after.scopes after.inClass := by
  obtain ⟨sameScopes, sameClass⟩ := declareParameters_eq_ok rfl declares
  rw [sameScopes, sameClass]
  refine Placed.enter placed.nested (placed.allSettled id)
    (placed.this.resolve_left id) (placed.super.resolve_left id) ?_ ?_
  · exact Scope.plain_ofParams isName
  · intro wanted
    rw [Scope.find?_ofParams]
    split
    · simp
    · exact Scope.settled_empty wanted

/-- One move of an analysis keeps scopes and class in order. -/
theorem Enters.placed
    {part other : Part}
    {before start : Analysis}
    (enters : Enters part before other start)
    (orderly : part.Orderly)
    (placed : Placed part before.scopes before.inClass) :
    Placed other start.scopes start.inClass := by
  cases enters with
  | grouping | operand | binaryLeft | logicalLeft | assigned | callee
  | object | stored
  | firstExpr | printed | stated | condition | guard | returned _ =>
      exact placed.move _ (fun _ => trivial) id id
  | firstStmt | firstFunction =>
      exact placed.move _ id id id
  | binaryRight resolved | logicalRight resolved | arguments resolved
  | holder resolved
  | restExprs resolved | thenBranch resolved | repeated resolved =>
      rw [Expr.scopes_of_resolve resolved, Expr.inClass_of_resolve resolved]
      exact placed.move _ id id id
  | restFunctions resolved =>
      rw [FunctionDecl.scopes_of_resolve resolved,
        FunctionDecl.inClass_of_resolve resolved]
      exact placed.move _ id id id
  | initializer free =>
      refine placed_declared placed ?_
      simpa [Part.Orderly, Stmt.Orderly] using orderly
  | block =>
      exact .enter placed.nested (placed.allSettled id)
        (placed.this.resolve_left id)
        (placed.super.resolve_left id) Scope.plain_empty Scope.settled_empty
  | @elseBranch _ thenBranch _ _ _ _ condition resolved =>
      simp only [Part.Orderly, Stmt.Orderly] at orderly
      rw [thenBranch.scopes_of_resolve orderly.1.2 resolved, orderly.1.1,
        Stmt.inClass_of_resolve resolved, Expr.scopes_of_resolve condition,
        Expr.inClass_of_resolve condition]
      exact placed.move _ id id id
  | @declaration declaration _ free =>
      simp only [Part.Orderly, Stmt.Orderly] at orderly
      have isName : ∀ token ∈ some declaration.name, token.IsName := by
        rintro _ ⟨⟩
        exact orderly.1
      exact placed.declaring isName _
  | @superclass name _ _ _ free different =>
      simp only [Part.Orderly, Stmt.Orderly] at orderly
      have isName : ∀ token ∈ some name, token.IsName := by
        rintro _ ⟨⟩
        exact orderly.1
      have declared := placed.declaring isName (.stmts [])
      exact ⟨declared.nested, .inr (declared.plain.resolve_left id),
        declared.outerSettled, .inl trivial, .inl trivial, .inl trivial⟩
  | @methods name _ _ _ _ headed =>
      simp only [Part.Orderly, Stmt.Orderly] at orderly
      obtain ⟨sameScopes, sameClass⟩ := scopes_heading headed
      have isName : ∀ token ∈ some name, token.IsName := by
        rintro _ ⟨⟩
        exact orderly.1
      have declared := placed.declaring isName (.stmts [])
      rw [sameClass, sameScopes]
      exact placed_methods declared.nested (declared.allSettled id)
  | @restStmts first _ _ _ resolved =>
      simp only [Part.Orderly, Stmt.OrderlyAll] at orderly
      rw [Stmt.scopes_of_resolve _ orderly.1 resolved,
        Stmt.inClass_of_resolve resolved]
      have here := placed.move (.stmt first) id id id
      exact here.declaring (Stmt.isName_of_declared? orderly.1) _
  | body declares =>
      simp only [Part.Orderly, FunctionDecl.Orderly] at orderly
      exact placed_body placed orderly.1 declares

namespace Program.Compiled

variable {program : Program} {first next : NodeId}

/-- Wherever the analysis of a compiled program comes to, scopes and class are
in order. -/
theorem placed
    (compiled : program.Compiled first next)
    {part : Part}
    {analysis : Analysis}
    (visits : program.Visits part analysis) :
    Placed part analysis.scopes analysis.inClass := by
  induction visits with
  | here =>
      refine ⟨.top, .inr ?_, ?_, .inr ?_, .inr fun inside => absurd rfl inside,
        .inr ?_⟩
      · intro scope member
        cases member
      · intro scope member
        cases member
      · intro scope member
        cases member
      · intro derived
        cases derived
  | enter comes enters inductionHypothesis =>
      exact enters.placed (compiled.part_orderly comes) inductionHypothesis

variable {analysis : Analysis} {node : Reference} {expr : Expr} {distance : Nat}

/-- A variable that is read at a distance is ready in the scope there. -/
theorem ready_of_read
    (compiled : program.Compiled first next)
    {id : NodeId}
    {name : Token}
    (visits : program.Visits (.expr (.reference id name)) analysis)
    (found : program.distances[id]? = some distance) :
    ∃ scope, analysis.scopes[distance]? = some scope ∧
      scope.find? name.lexeme = some true := by
  have table : program.distances[id]? =
      Scope.distance? name.lexeme analysis.scopes :=
    compiled.distance_eq visits rfl
  obtain ⟨scope, atDistance, contained⟩ :=
    Scope.getElem?_of_distance? (table ▸ found)
  refine ⟨scope, atDistance, ?_⟩
  cases distance with
  | zero =>
      -- The innermost scope may have names that are not ready, but they cannot
      -- be read.
      obtain ⟨after, accepted⟩ := compiled.accepts visits
      have isHead : scope ∈ analysis.scopes.head? := by
        rw [List.head?_eq_getElem?]
        exact atDistance
      have isReady := (read_eq_ok accepted).1 scope isHead
      cases state : scope.find? name.lexeme with
      | none => simp [NameMap.contains, state] at contained
      | some ready =>
          cases ready with
          | false => exact absurd state isReady
          | true => rfl
  | succ inner =>
      have atTail : analysis.scopes.tail[inner]? = some scope := by
        simpa using atDistance
      have member : scope ∈ analysis.scopes.tail := List.mem_of_getElem? atTail
      exact ((compiled.placed visits).outerSettled scope member).find?_eq
        contained

/-- Every `this` has a distance, and the scope there is that of a class. -/
theorem ofThis_of_use
    (compiled : program.Compiled first next)
    {id : NodeId}
    {keyword : Token}
    (visits : program.Visits (.expr (.thisRef id keyword)) analysis) :
    ∃ distance, program.distances[id]? = some distance ∧
      analysis.scopes[distance]? = some Scope.ofThis := by
  have spelled : keyword.lexeme = "this" := (compiled.node_handed visits rfl).2
  have table : program.distances[id]? =
      Scope.distance? keyword.lexeme analysis.scopes :=
    compiled.distance_eq visits rfl
  obtain ⟨after, accepted⟩ := compiled.accepts visits
  have placed := compiled.placed visits
  have declares := placed.this.resolve_left not_false (useThis_eq_ok accepted).1
  obtain ⟨distance, found⟩ := declares.distance?
  obtain ⟨scope, atDistance, contained⟩ := Scope.getElem?_of_distance? found
  have same := placed.nested.ofThis_at atDistance contained
  exact ⟨distance, by rw [table, spelled, found], same ▸ atDistance⟩

/-- Every `super` has a distance, and the scopes there and just inside of there
are those of a subclass. -/
theorem ofSuper_of_use
    (compiled : program.Compiled first next)
    {id : NodeId}
    {keyword method : Token}
    (visits : program.Visits (.expr (.superRef id keyword method)) analysis) :
    ∃ inner, program.distances[id]? = some (inner + 1) ∧
      analysis.scopes[inner + 1]? = some Scope.ofSuper ∧
      analysis.scopes[inner]? = some Scope.ofThis := by
  have spelled : keyword.lexeme = "super" := (compiled.node_handed visits rfl).2
  have table : program.distances[id]? =
      Scope.distance? keyword.lexeme analysis.scopes :=
    compiled.distance_eq visits rfl
  obtain ⟨after, accepted⟩ := compiled.accepts visits
  have placed := compiled.placed visits
  have declares :=
    placed.super.resolve_left not_false (useSuper_eq_ok accepted).1
  obtain ⟨distance, found⟩ := declares.distance?
  obtain ⟨scope, atDistance, contained⟩ := Scope.getElem?_of_distance? found
  obtain ⟨same, inner, rfl, atInner⟩ :=
    placed.nested.ofSuper_at atDistance contained
  exact ⟨inner, by rw [table, spelled, found], same ▸ atDistance, atInner⟩

end Program.Compiled

end LoxScript
