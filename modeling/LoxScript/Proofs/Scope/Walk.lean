import LoxScript.Proofs.Scope.Effect
import LoxScript.Program

namespace LoxScript

/-!
# The walk of an analysis

An analysis walks over a program and comes to each of its parts once, with the
scopes that are around the part.  `Enters` lists the parts that the walk goes on
to from each kind of part, together with the analysis it has there; `Comes` is
any number of such moves.  The main statement is that the distance filed for a
node is still the one that the scopes at the node gave, once the walk has ended.
-/

open Analysis Resolve

/-- What an analysis walks over. -/
inductive Part where
  | expr (value : Expr)
  | exprs (values : List Expr)
  | stmt (statement : Stmt)
  | stmts (statements : List Stmt)
  | function (declaration : FunctionDecl)
  | functions (declarations : List FunctionDecl)

namespace Part

/-- Analyses a part. -/
def resolve : Part → Resolve Unit
  | .expr value => value.resolve
  | .exprs values => Expr.resolveAll values
  | .stmt statement => statement.resolve
  | .stmts statements => Stmt.resolveAll statements
  | .function declaration => declaration.resolve
  | .functions declarations => FunctionDecl.resolveAll declarations

/-- The references of a part. -/
def references : Part → List Reference
  | .expr value => value.references
  | .exprs values => Expr.referencesAll values
  | .stmt statement => statement.references
  | .stmts statements => Stmt.referencesAll statements
  | .function declaration => declaration.references
  | .functions declarations => FunctionDecl.referencesAll declarations

/-- The identities of the references of a part. -/
def ids (part : Part) : List NodeId :=
  identities part.references

/-- A part is orderly if its statements and functions are. -/
def Orderly : Part → Prop
  | .expr _ => True
  | .exprs _ => True
  | .stmt statement => statement.Orderly
  | .stmts statements => Stmt.OrderlyAll statements
  | .function declaration => declaration.Orderly
  | .functions declarations => FunctionDecl.OrderlyAll declarations

/-- A part changes only the innermost scope and distances under its own
identities. -/
theorem keeps_resolve
    (part : Part) :
    Keeps part.ids part.resolve := by
  cases part with
  | expr value => exact value.files_resolve.restores.keeps
  | exprs values => exact (Expr.files_resolveAll values).restores.keeps
  | stmt statement => exact statement.keeps_resolve
  | stmts statements => exact Stmt.keeps_resolveAll statements
  | function declaration => exact declaration.restores_resolve.keeps
  | functions declarations =>
      exact (FunctionDecl.restores_resolveAll declarations).keeps

/-- Analysing a part files nothing for the nodes of other parts. -/
theorem distances_of_resolve
    {part : Part}
    {before after : Analysis}
    (resolved : part.resolve before = .ok () after)
    {id : NodeId}
    (absent : id ∉ part.ids) :
    after.distances[id]? = before.distances[id]? :=
  ((part.keeps_resolve before).ok resolved).1.distances id absent

end Part

/-- The scopes that a class puts around its methods, innermost first. -/
def Scope.ofClass : Option SuperclassRef → List Scope
  | some _ => [Scope.ofThis, Scope.ofSuper]
  | none => [Scope.ofThis]

/-- From one part with an analysis, the walk goes on to another part with
another analysis. -/
inductive Enters : Part → Analysis → Part → Analysis → Prop where
  | grouping {inner a} :
      Enters (.expr (.grouping inner)) a (.expr inner) a
  | operand {operator operand a} :
      Enters (.expr (.unary operator operand)) a (.expr operand) a
  | binaryLeft {left operator right a} :
      Enters (.expr (.binary left operator right)) a (.expr left) a
  | binaryRight {left operator right a b} :
      left.resolve a = .ok () b →
      Enters (.expr (.binary left operator right)) a (.expr right) b
  | logicalLeft {left operator right a} :
      Enters (.expr (.logical left operator right)) a (.expr left) a
  | logicalRight {left operator right a b} :
      left.resolve a = .ok () b →
      Enters (.expr (.logical left operator right)) a (.expr right) b
  | assigned {id name value a} :
      Enters (.expr (.assign id name value)) a (.expr value) a
  | callee {callee paren arguments a} :
      Enters (.expr (.call callee paren arguments)) a (.expr callee) a
  | arguments {callee paren arguments a b} :
      callee.resolve a = .ok () b →
      Enters (.expr (.call callee paren arguments)) a (.exprs arguments) b
  | object {object name a} :
      Enters (.expr (.get object name)) a (.expr object) a
  | stored {object name value a} :
      Enters (.expr (.set object name value)) a (.expr value) a
  | holder {object name value a b} :
      value.resolve a = .ok () b →
      Enters (.expr (.set object name value)) a (.expr object) b
  | firstExpr {first rest a} :
      Enters (.exprs (first :: rest)) a (.expr first) a
  | restExprs {first rest a b} :
      first.resolve a = .ok () b →
      Enters (.exprs (first :: rest)) a (.exprs rest) b
  | printed {value a} :
      Enters (.stmt (.print value)) a (.expr value) a
  | stated {value a} :
      Enters (.stmt (.expression value)) a (.expr value) a
  | initializer {name initializer a} :
      Declarable name a →
      Enters (.stmt (.varDecl name (some initializer))) a (.expr initializer)
        (declared name a)
  | block {body a} :
      Enters (.stmt (.block body)) a (.stmts body)
        { a with scopes := NameMap.empty :: a.scopes }
  | condition {condition thenBranch elseBranch a} :
      Enters (.stmt (.conditional condition thenBranch elseBranch)) a
        (.expr condition) a
  | thenBranch {condition thenBranch elseBranch a b} :
      condition.resolve a = .ok () b →
      Enters (.stmt (.conditional condition thenBranch elseBranch)) a
        (.stmt thenBranch) b
  | elseBranch {condition thenBranch elseBranch a b c} :
      condition.resolve a = .ok () b →
      thenBranch.resolve b = .ok () c →
      Enters (.stmt (.conditional condition thenBranch (some elseBranch))) a
        (.stmt elseBranch) c
  | guard {condition body a} :
      Enters (.stmt (.loop condition body)) a (.expr condition) a
  | repeated {condition body a b} :
      condition.resolve a = .ok () b →
      Enters (.stmt (.loop condition body)) a (.stmt body) b
  | declaration {declaration a} :
      Declarable declaration.name a →
      Enters (.stmt (.funDecl declaration)) a (.function declaration)
        (defined declaration.name a)
  | returned {keyword value a} :
      a.inFunction = true →
      Enters (.stmt (.ret keyword (some value))) a (.expr value) a
  | superclass {name named methods a} :
      Declarable name a →
      named.name.lexeme ≠ name.lexeme →
      Enters (.stmt (.classDecl name (some named) methods)) a (.expr named.expr)
        { defined name a with inClass := .derived }
  | methods {name superclass methods a b} :
      heading name superclass a = .ok () b →
      Enters (.stmt (.classDecl name superclass methods)) a (.functions methods)
        { b with scopes := Scope.ofClass superclass ++ b.scopes }
  | firstStmt {first rest a} :
      Enters (.stmts (first :: rest)) a (.stmt first) a
  | restStmts {first rest a b} :
      first.resolve a = .ok () b →
      Enters (.stmts (first :: rest)) a (.stmts rest) b
  | body {name params body a b} :
      params.forM declareParameter
          { a with inFunction := true, scopes := NameMap.empty :: a.scopes } =
          .ok () b →
      Enters (.function ⟨name, params, body⟩) a (.stmts body) b
  | firstFunction {first rest a} :
      Enters (.functions (first :: rest)) a (.function first) a
  | restFunctions {first rest a b} :
      first.resolve a = .ok () b →
      Enters (.functions (first :: rest)) a (.functions rest) b

/-- Starting with one part and an analysis, the walk comes to another part with
another analysis. -/
inductive Comes (start : Part) (initial : Analysis) : Part →
    Analysis → Prop where
  | here : Comes start initial start initial
  | enter {part other : Part} {a b : Analysis} :
      Comes start initial part a → Enters part a other b →
        Comes start initial other b

/-- The analysis of a program comes to a part of it. -/
def Program.Visits (program : Program) (part : Part) (analysis : Analysis) :
    Prop :=
  Comes (.stmts program.statements) {} part analysis

/-- An identity of the later of two parts is none of the earlier one. -/
theorem not_mem_left_of_nodup
    {earlier later : List NodeId}
    (distinct : (earlier ++ later).Nodup)
    {id : NodeId}
    (member : id ∈ later) :
    id ∉ earlier := by
  intro memberEarlier
  exact (List.nodup_append.mp distinct).2.2 id memberEarlier id member rfl

/-- An identity of the earlier of two parts is none of the later one. -/
theorem not_mem_right_of_nodup
    {earlier later : List NodeId}
    (distinct : (earlier ++ later).Nodup)
    {id : NodeId}
    (member : id ∈ earlier) :
    id ∉ later := by
  intro memberLater
  exact (List.nodup_append.mp distinct).2.2 id member id memberLater rfl

/-- A part of a part that the analysis accepts is accepted; what the rest of the
part files lies under other identities. -/
structure Carried (part other : Part) (before after start : Analysis) :
    Prop where
  earlier : ∀ id ∈ other.ids, start.distances[id]? = before.distances[id]?
  accepted :
    ∃ finish, other.resolve start = .ok () finish ∧
      ∀ id ∈ other.ids, after.distances[id]? = finish.distances[id]?

/-- A part is analysed as two parts in a row. -/
structure Part.Splits (part first second : Part) : Prop where
  ids : part.ids.Perm (first.ids ++ second.ids)
  resolve :
    ∀ analysis, part.resolve analysis =
      (do first.resolve; second.resolve) analysis

namespace Carried

variable {part other first second : Part} {before middle after : Analysis}

/-- The only part there is. -/
theorem only
    (resolved : other.resolve before = .ok () after) :
    Carried part other before after before :=
  ⟨fun _ _ => rfl, after, resolved, fun _ _ => rfl⟩

/-- The first of two parts in a row. -/
theorem former
    (splits : part.Splits first second)
    (distinct : part.ids.Nodup)
    (resolved : part.resolve before = .ok () after) :
    Carried part first before after before := by
  rw [splits.resolve] at resolved
  obtain ⟨_, middle, resolvedFirst, resolvedSecond⟩ :=
    bind_eq_ok_iff.mp resolved
  refine ⟨fun _ _ => rfl, middle, resolvedFirst, fun _ member => ?_⟩
  have apart := splits.ids.nodup_iff.mp distinct
  exact Part.distances_of_resolve resolvedSecond
    (not_mem_right_of_nodup apart member)

/-- The second of two parts in a row. -/
theorem latter
    (splits : part.Splits first second)
    (distinct : part.ids.Nodup)
    (resolved : part.resolve before = .ok () after)
    (resolvedFirst : first.resolve before = .ok () middle) :
    Carried part second before after middle := by
  rw [splits.resolve, bind_of_ok resolvedFirst] at resolved
  refine ⟨fun _ member => ?_, after, resolved, fun _ _ => rfl⟩
  have apart := splits.ids.nodup_iff.mp distinct
  exact Part.distances_of_resolve resolvedFirst
    (not_mem_left_of_nodup apart member)

/-- A part of a part of a part. -/
theorem trans
    {start inner : Analysis}
    (carried : Carried part first before after start)
    (carriedInner :
      ∀ finish, first.resolve start = .ok () finish →
        Carried first second start finish inner)
    (within : second.ids ⊆ first.ids) :
    Carried part second before after inner := by
  obtain ⟨finish, resolved, later⟩ := carried.accepted
  obtain ⟨last, resolvedInner, laterInner⟩ :=
    (carriedInner finish resolved).accepted
  refine ⟨fun id member => ?_, last, resolvedInner, fun id member => ?_⟩
  · exact ((carriedInner finish resolved).earlier id member).trans
      (carried.earlier id (within member))
  · exact (later id (within member)).trans (laterInner id member)

end Carried

/-- A step inside one more scope succeeds exactly if it does so with the scope
around. -/
theorem within_eq_ok_iff
    {scope : Scope}
    {step : Resolve Unit}
    {before after : Analysis} :
    within scope step before = .ok () after ↔
      ∃ inner, step { before with scopes := scope :: before.scopes } =
        .ok () inner ∧
        after = { inner with scopes := inner.scopes.tail } := by
  unfold within
  cases outcome : step { before with scopes := scope :: before.scopes } with
  | ok value inner =>
      simp [eq_comm]
  | error error inner =>
      simp

/-- A step as part of a function succeeds exactly if it does so inside a
function. -/
theorem withinFunction_eq_ok_iff
    {step : Resolve Unit}
    {before after : Analysis} :
    withinFunction step before = .ok () after ↔
      ∃ inner, step { before with inFunction := true } = .ok () inner ∧
        after = { inner with inFunction := before.inFunction } := by
  unfold withinFunction
  cases outcome : step { before with inFunction := true } with
  | ok value inner =>
      simp [eq_comm]
  | error error inner =>
      simp

/-- The methods of a class succeed exactly if they do so in the scopes of the
class. -/
theorem withinClass_eq_ok
    {superclass : Option SuperclassRef}
    {step : Resolve Unit}
    {before after : Analysis}
    (resolved : withinClass superclass step before = .ok () after) :
    ∃ inner,
      step { before with scopes := Scope.ofClass superclass ++ before.scopes } =
        .ok () inner ∧
        after.distances = inner.distances := by
  cases superclass with
  | none =>
      obtain ⟨inner, resolvedInner, rfl⟩ := within_eq_ok_iff.mp resolved
      exact ⟨inner, resolvedInner, rfl⟩
  | some named =>
      obtain ⟨outer, resolvedOuter, rfl⟩ := within_eq_ok_iff.mp resolved
      obtain ⟨inner, resolvedInner, rfl⟩ := within_eq_ok_iff.mp resolvedOuter
      exact ⟨inner, resolvedInner, rfl⟩

/-- A variable with an initializer is accepted if its name is free and its
initializer is accepted with the name there. -/
theorem resolve_varDecl_eq_ok
    {name : Token}
    {initializer : Expr}
    {before after : Analysis}
    (resolved : Stmt.resolve (.varDecl name (some initializer)) before =
      .ok () after) :
    Declarable name before ∧
      ∃ middle, initializer.resolve (declared name before) = .ok () middle ∧
        after = defined name middle := by
  simp only [Stmt.resolve] at resolved
  obtain ⟨_, _, declares, resolvedNext⟩ := bind_eq_ok_iff.mp resolved
  obtain ⟨free, rfl⟩ := declare_eq_ok_iff.mp declares
  obtain ⟨_, middle, initialized, defines⟩ := bind_eq_ok_iff.mp resolvedNext
  rw [define_eq] at defines
  cases defines
  exact ⟨free, middle, initialized, rfl⟩

/-- A function is accepted if its name is free and it is accepted with the name
ready. -/
theorem resolve_funDecl_eq_ok
    {declaration : FunctionDecl}
    {before after : Analysis}
    (resolved : Stmt.resolve (.funDecl declaration) before = .ok () after) :
    Declarable declaration.name before ∧
      declaration.resolve (defined declaration.name before) = .ok () after := by
  simp only [Stmt.resolve] at resolved
  obtain ⟨_, _, declares, resolvedNext⟩ := bind_eq_ok_iff.mp resolved
  obtain ⟨free, rfl⟩ := declare_eq_ok_iff.mp declares
  obtain ⟨_, _, defines, resolvedLast⟩ := bind_eq_ok_iff.mp resolvedNext
  rw [define_eq, defined_declared] at defines
  cases defines
  exact ⟨free, resolvedLast⟩

/-- The body of a function is analysed with its parameters ready. -/
theorem resolve_function_eq_ok
    (name : Token)
    {params : List Token}
    {body : List Stmt}
    {before after : Analysis}
    (resolved : FunctionDecl.resolve ⟨name, params, body⟩ before =
      .ok () after) :
    ∃ middle inner,
      params.forM declareParameter
          { before with
            inFunction := true, scopes := NameMap.empty :: before.scopes } =
        .ok () middle ∧
      Stmt.resolveAll body middle = .ok () inner ∧
      after.distances = inner.distances := by
  simp only [FunctionDecl.resolve] at resolved
  obtain ⟨outer, resolvedOuter, rfl⟩ := withinFunction_eq_ok_iff.mp resolved
  obtain ⟨inner, resolvedInner, rfl⟩ := within_eq_ok_iff.mp resolvedOuter
  obtain ⟨_, middle, declares, resolvedBody⟩ := bind_eq_ok_iff.mp resolvedInner
  exact ⟨middle, inner, declares, resolvedBody, rfl⟩

/-- The heading of a class with a superclass is accepted if the name is free,
the superclass has another name, and reading it is accepted. -/
theorem heading_some_eq_ok
    {name : Token}
    {named : SuperclassRef}
    {before after : Analysis}
    (headed : heading name (some named) before = .ok () after) :
    Declarable name before ∧ named.name.lexeme ≠ name.lexeme ∧
      named.expr.resolve { defined name before with inClass := .derived } =
        .ok () after := by
  unfold heading at headed
  obtain ⟨_, _, enters, headedNext⟩ := bind_eq_ok_iff.mp headed
  cases enters
  obtain ⟨_, _, declares, headedLast⟩ := bind_eq_ok_iff.mp headedNext
  obtain ⟨free, rfl⟩ := declare_eq_ok_iff.mp declares
  obtain ⟨_, _, defines, inherits⟩ := bind_eq_ok_iff.mp headedLast
  rw [define_eq, defined_declared] at defines
  cases defines
  obtain ⟨_, _, entersDerived, reads⟩ := bind_eq_ok_iff.mp inherits
  cases entersDerived
  dsimp only at reads
  split at reads
  · obtain ⟨_, _, fails, -⟩ := bind_eq_ok_iff.mp reads
    cases fails
  · exact ⟨free, ‹_›, reads⟩

/-- The heading of a class without a superclass is accepted if the name is
free. -/
theorem heading_none_eq_ok
    {name : Token}
    {before after : Analysis}
    (headed : heading name none before = .ok () after) :
    Declarable name before ∧
      after = { defined name before with inClass := .plain } := by
  unfold heading at headed
  obtain ⟨_, _, enters, headedNext⟩ := bind_eq_ok_iff.mp headed
  cases enters
  obtain ⟨_, _, declares, headedLast⟩ := bind_eq_ok_iff.mp headedNext
  obtain ⟨free, rfl⟩ := declare_eq_ok_iff.mp declares
  obtain ⟨_, _, defines, ends⟩ := bind_eq_ok_iff.mp headedLast
  rw [define_eq, defined_declared] at defines
  cases defines
  cases ends
  exact ⟨free, rfl⟩

/-- A class is accepted if its heading is, and then its methods are. -/
theorem resolve_classDecl_eq_ok
    {name : Token}
    {superclass : Option SuperclassRef}
    {methods : List FunctionDecl}
    {before after : Analysis}
    (resolved : Stmt.resolve (.classDecl name superclass methods) before =
      .ok () after) :
    ∃ middle inner,
      heading name superclass before = .ok () middle ∧
      FunctionDecl.resolveAll methods
          { middle with scopes := Scope.ofClass superclass ++ middle.scopes } =
        .ok () inner ∧
      after.distances = inner.distances := by
  rw [resolve_classDecl] at resolved
  obtain ⟨_, middle, headed, resolvedNext⟩ := bind_eq_ok_iff.mp resolved
  unfold leavingClass at resolvedNext
  split at resolvedNext
  · rename_i yields
    cases resolvedNext
    obtain ⟨inner, resolvedInner, same⟩ := withinClass_eq_ok yields
    exact ⟨middle, inner, headed, resolvedInner, same⟩
  · cases resolvedNext

namespace Part

theorem splits_binary
    (left right : Expr)
    (operator : Token) :
    Splits (.expr (.binary left operator right)) (.expr left) (.expr right) :=
  ⟨by simp [ids, references, Expr.references], fun _ => rfl⟩

theorem splits_logical
    (left right : Expr)
    (operator : Token) :
    Splits (.expr (.logical left operator right)) (.expr left) (.expr right) :=
  ⟨by simp [ids, references, Expr.references], fun _ => rfl⟩

theorem splits_call
    (callee : Expr)
    (paren : Token)
    (arguments : List Expr) :
    Splits (.expr (.call callee paren arguments)) (.expr callee)
      (.exprs arguments) :=
  ⟨by simp [ids, references, Expr.references], fun _ => rfl⟩

theorem splits_set
    (object value : Expr)
    (name : Token) :
    Splits (.expr (.set object name value)) (.expr value) (.expr object) :=
  ⟨by
    simpa [ids, references, Expr.references] using List.perm_append_comm,
    fun _ => rfl⟩

theorem splits_exprs
    (first : Expr)
    (rest : List Expr) :
    Splits (.exprs (first :: rest)) (.expr first) (.exprs rest) :=
  ⟨by simp [ids, references, Expr.referencesAll], fun _ => rfl⟩

theorem splits_conditional
    (condition : Expr)
    (thenBranch : Stmt) :
    Splits (.stmt (.conditional condition thenBranch none)) (.expr condition)
      (.stmt thenBranch) :=
  ⟨by simp [ids, references, Stmt.references], fun _ => by
    simp [resolve, Stmt.resolve]⟩

theorem splits_loop
    (condition : Expr)
    (body : Stmt) :
    Splits (.stmt (.loop condition body)) (.expr condition) (.stmt body) :=
  ⟨by simp [ids, references, Stmt.references], fun _ => by
    simp [resolve, Stmt.resolve]⟩

theorem splits_stmts
    (first : Stmt)
    (rest : List Stmt) :
    Splits (.stmts (first :: rest)) (.stmt first) (.stmts rest) :=
  ⟨by simp [ids, references, Stmt.referencesAll], fun _ => by
    simp [resolve, Stmt.resolveAll]⟩

theorem splits_functions
    (first : FunctionDecl)
    (rest : List FunctionDecl) :
    Splits (.functions (first :: rest)) (.function first) (.functions rest) :=
  ⟨by simp [ids, references, FunctionDecl.referencesAll],
    fun _ => by simp [resolve, FunctionDecl.resolveAll]⟩

end Part

theorem Part.splits_conditional_some
    (condition : Expr)
    (thenBranch elseBranch : Stmt) :
    Splits (.stmt (.conditional condition thenBranch (some elseBranch)))
      (.expr condition) (.stmts [thenBranch, elseBranch]) :=
  ⟨by simp [ids, references, Stmt.references, Stmt.referencesAll],
    fun _ => by simp [resolve, Stmt.resolve, Stmt.resolveAll]⟩

/-- A part whose own names and scopes aside is one other part. -/
theorem Carried.sole
    {part other : Part}
    {before after start finish : Analysis}
    (resolved : other.resolve start = .ok () finish)
    (earlier : start.distances = before.distances)
    (later : after.distances = finish.distances) :
    Carried part other before after start :=
  ⟨fun _ _ => by rw [earlier], finish, resolved, fun _ _ => by rw [later]⟩

/-- Declaring names files no distances. -/
theorem distances_declared
    (name : Token)
    (analysis : Analysis) :
    (declared name analysis).distances = analysis.distances := by
  unfold declared
  split <;> rfl

/-- Parameters file no distances. -/
theorem distances_declareParameters
    {params : List Token}
    {before after : Analysis}
    (declares : params.forM declareParameter before = .ok () after) :
    after.distances = before.distances := by
  induction params generalizing before with
  | nil =>
      cases declares
      rfl
  | cons param rest inductionHypothesis =>
      obtain ⟨_, middle, declaresFirst, declaresRest⟩ :=
        bind_eq_ok_iff.mp declares
      obtain ⟨_, between, declaresName, defines⟩ :=
        bind_eq_ok_iff.mp declaresFirst
      obtain ⟨-, rfl⟩ := declare_eq_ok_iff.mp declaresName
      rw [define_eq] at defines
      cases defines
      rw [inductionHypothesis declaresRest]
      exact distances_declared param before

/-- A `return` that is allowed changes nothing. -/
theorem allowReturn_eq_ok
    {keyword : Token}
    {before after : Analysis}
    (allowed : allowReturn keyword before = .ok () after) :
    after = before := by
  obtain ⟨seen, middle, looks, decides⟩ := bind_eq_ok_iff.mp allowed
  cases looks
  split at decides
  · cases decides
  · cases decides
    rfl

/-- The identities of a class are those of its heading and those of its
methods. -/
theorem Part.ids_classDecl
    (name : Token)
    (superclass : Option SuperclassRef)
    (methods : List FunctionDecl) :
    (Part.stmt (.classDecl name superclass methods)).ids =
      identities (headingReferences superclass) ++
        (Part.functions methods).ids := by
  simp only [Part.ids, Part.references, references_classDecl, identities_append]

/-- What the walk goes on to from an accepted part is accepted too. -/
theorem Enters.carried
    {part other : Part}
    {before after start : Analysis}
    (enters : Enters part before other start)
    (distinct : part.ids.Nodup)
    (resolved : part.resolve before = .ok () after) :
    Carried part other before after start := by
  cases enters with
  | grouping => exact .only resolved
  | operand => exact .only resolved
  | binaryLeft => exact .former (Part.splits_binary _ _ _) distinct resolved
  | binaryRight left =>
      exact .latter (Part.splits_binary _ _ _) distinct resolved left
  | logicalLeft => exact .former (Part.splits_logical _ _ _) distinct resolved
  | logicalRight left =>
      exact .latter (Part.splits_logical _ _ _) distinct resolved left
  | assigned =>
      rename_i id name value
      obtain ⟨⟨⟩, middle, resolvedValue, files⟩ := bind_eq_ok_iff.mp resolved
      refine ⟨fun _ _ => rfl, middle, resolvedValue, fun other member => ?_⟩
      have different : other ∉ [id] := by
        intro same
        rw [List.mem_singleton] at same
        exact (List.nodup_cons.mp distinct).1 (same ▸ member)
      exact ((files_file id name middle).ok files).1.distances other different
  | callee => exact .former (Part.splits_call _ _ _) distinct resolved
  | arguments callee =>
      exact .latter (Part.splits_call _ _ _) distinct resolved callee
  | object => exact .only resolved
  | stored => exact .former (Part.splits_set _ _ _) distinct resolved
  | holder value =>
      exact .latter (Part.splits_set _ _ _) distinct resolved value
  | firstExpr => exact .former (Part.splits_exprs _ _) distinct resolved
  | restExprs first =>
      exact .latter (Part.splits_exprs _ _) distinct resolved first
  | printed =>
      exact .sole (by simpa [Part.resolve, Stmt.resolve] using resolved) rfl rfl
  | stated =>
      exact .sole (by simpa [Part.resolve, Stmt.resolve] using resolved) rfl rfl
  | initializer free =>
      obtain ⟨-, middle, initialized, rfl⟩ := resolve_varDecl_eq_ok resolved
      exact .sole initialized (distances_declared _ _) rfl
  | block =>
      simp only [Part.resolve, Stmt.resolve] at resolved
      obtain ⟨inner, resolvedInner, rfl⟩ := within_eq_ok_iff.mp resolved
      exact .sole resolvedInner rfl rfl
  | @condition _ _ elseBranch _ =>
      cases elseBranch with
      | none => exact .former (Part.splits_conditional _ _) distinct resolved
      | some _ =>
          exact .former (Part.splits_conditional_some _ _ _) distinct resolved
  | @thenBranch _ _ elseBranch _ _ tests =>
      cases elseBranch with
      | none =>
          exact .latter (Part.splits_conditional _ _) distinct resolved tests
      | some elseBranch =>
          have both :=
            Carried.latter (Part.splits_conditional_some _ _ _)
            distinct resolved tests
          have apart : (Part.stmts [_, elseBranch]).ids.Nodup :=
            (List.nodup_append.mp
              ((Part.splits_conditional_some _ _ _).ids.nodup_iff.mp
                distinct)).2.1
          refine both.trans (fun finish resolvedBoth =>
            .former (Part.splits_stmts _ _) apart resolvedBoth) ?_
          simp [Part.ids, Part.references, Stmt.referencesAll]
  | elseBranch tests passes =>
      have both := Carried.latter (Part.splits_conditional_some _ _ _) distinct
        resolved tests
      have apart := (List.nodup_append.mp
        ((Part.splits_conditional_some _ _ _).ids.nodup_iff.mp distinct)).2.1
      refine both.trans (fun finish resolvedBoth => ?_) ?_
      · have rest :=
          Carried.latter (Part.splits_stmts _ _) apart resolvedBoth passes
        refine rest.trans (fun last resolvedRest => ?_) ?_
        · refine .former (Part.splits_stmts _ _) ?_ resolvedRest
          exact (List.nodup_append.mp
            ((Part.splits_stmts _ _).ids.nodup_iff.mp apart)).2.1
        · simp [Part.ids, Part.references, Stmt.referencesAll]
      · simp [Part.ids, Part.references, Stmt.referencesAll]
  | guard => exact .former (Part.splits_loop _ _) distinct resolved
  | repeated tests =>
      exact .latter (Part.splits_loop _ _) distinct resolved tests
  | declaration free =>
      obtain ⟨-, resolvedFunction⟩ := resolve_funDecl_eq_ok resolved
      exact .sole resolvedFunction rfl rfl
  | returned inside =>
      simp only [Part.resolve, Stmt.resolve] at resolved
      obtain ⟨⟨⟩, middle, allowed, resolvedValue⟩ := bind_eq_ok_iff.mp resolved
      obtain rfl := allowReturn_eq_ok allowed
      exact .sole resolvedValue rfl rfl
  | superclass free different =>
      have resolvedClass : Stmt.resolve (.classDecl _ (some _) _) before = _ :=
        resolved
      obtain ⟨middle, inner, headed, resolvedMethods, same⟩ :=
        resolve_classDecl_eq_ok resolvedClass
      obtain ⟨-, -, resolvedName⟩ := heading_some_eq_ok headed
      rw [Part.ids_classDecl] at distinct
      refine ⟨fun _ _ => rfl, middle, resolvedName, fun id member => ?_⟩
      have resolvedPart : (Part.functions _).resolve _ = _ := resolvedMethods
      rw [same]
      exact Part.distances_of_resolve resolvedPart
        (not_mem_right_of_nodup distinct member)
  | @methods name superclass _ _ _ headed =>
      have resolvedClass : Stmt.resolve (.classDecl _ _ _) before = _ :=
        resolved
      obtain ⟨middle, inner, headedAgain, resolvedMethods, same⟩ :=
        resolve_classDecl_eq_ok resolvedClass
      rw [headed] at headedAgain
      cases headedAgain
      rw [Part.ids_classDecl] at distinct
      refine ⟨fun id member => ?_, inner, resolvedMethods,
        fun _ _ => by rw [same]⟩
      exact ((preserves_heading name superclass before).ok headed).distances id
        (not_mem_left_of_nodup distinct member)
  | firstStmt => exact .former (Part.splits_stmts _ _) distinct resolved
  | restStmts first =>
      exact .latter (Part.splits_stmts _ _) distinct resolved first
  | @body name _ _ _ _ declares =>
      obtain ⟨middle, inner, declaresAgain, resolvedBody, same⟩ :=
        resolve_function_eq_ok name resolved
      rw [declares] at declaresAgain
      cases declaresAgain
      exact .sole resolvedBody
        (by rw [distances_declareParameters declares]) same
  | firstFunction => exact .former (Part.splits_functions _ _) distinct resolved
  | restFunctions first =>
      exact .latter (Part.splits_functions _ _) distinct resolved first

end LoxScript
