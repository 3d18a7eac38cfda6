import LoxScript.Proofs.Machine.Fitting

namespace LoxScript

/-!
# What stands inside of a method

A part stands inside of another one so many scopes deep if there is no class in
between.  Where a method uses `this`, the scope of `this` is as many scopes out
as the use is deep in the method, and the scope of `super` is one scope further
out.
-/

open Analysis Resolve

/-- The part is done where the other one is. -/
inductive Part.Covers : Part → Part → Prop where
  | included {whole part} : whole.Includes part → Covers whole part
  | initializer {name initializer} :
      Covers (.stmt (.varDecl name (some initializer))) (.expr initializer)
  | superclass {name named methods} :
      Covers (.stmt (.classDecl name (some named) methods)) (.expr named.expr)
  | rest {first rest} : Covers (.stmts (first :: rest)) (.stmts rest)

/-- The part stands inside of the whole, so many scopes deep and with no class
in between. -/
inductive Part.Inside (whole : Part) : Part → Nat → Prop where
  | here : Inside whole whole 0
  | covered {part other depth} :
      Inside whole part depth → part.Covers other → Inside whole other depth
  | block {body depth} :
      Inside whole (.stmt (.block body)) depth →
        Inside whole (.stmts body) (depth + 1)
  | declaration {declaration depth} :
      Inside whole (.stmt (.funDecl declaration)) depth →
        Inside whole (.function declaration) depth
  | body {declaration depth} :
      Inside whole (.function declaration) depth →
        Inside whole (.stmts declaration.body) (depth + 1)

namespace Scope

variable {name : String} {scope : Scope} {scopes : List Scope} {token : Token}

/-- A scope of a block or a function does not declare `this` or `super`. -/
theorem Plain.lacks
    (plain : scope.Plain)
    (reserved : Reserved name) :
    scope.contains name = false := by
  rcases reserved with rfl | rfl
  · exact plain.lacksThis
  · exact plain.lacksSuper

/-- From inside of a block or a function, `this` and `super` are one scope
further out. -/
theorem distance?_of_plain
    (plain : scope.Plain)
    (reserved : Reserved name) :
    distance? name (scope :: scopes) = (distance? name scopes).map (· + 1) := by
  simp only [distance?, plain.lacks reserved, Bool.false_eq_true, if_false]

/-- A name that gets into the innermost scope does not count for another
name. -/
theorem distance?_insert
    {ready : Bool}
    (different : token.lexeme ≠ name) :
    distance? name (scope.insert token.lexeme ready :: scopes) =
      distance? name (scope :: scopes) := by
  simp only [distance?, NameMap.contains_insert, different, decide_false,
    Bool.false_or]

/-- Where a name is declared, `this` and `super` are as far away as before. -/
theorem distance?_declaring
    {added : Option Token}
    (isName : ∀ token ∈ added, token.IsName)
    (reserved : Reserved name) :
    distance? name (declaring added scopes) = distance? name scopes := by
  unfold declaring
  split
  · exact distance?_insert fun same =>
      (isName _ rfl).notReserved (same ▸ reserved)
  · rfl

/-- While an initializer is analysed, they are so too. -/
theorem distance?_announcing
    (isName : token.IsName)
    (reserved : Reserved name) :
    distance? name (announcing token scopes) = distance? name scopes := by
  cases scopes with
  | nil => rfl
  | cons scope outer =>
      exact distance?_insert fun same => isName.notReserved (same ▸ reserved)

end Scope

/-- Neither a name nor a class includes anything. -/
theorem Part.Includes.isPlain
    {part other : Part}
    (includes : part.Includes other) :
    ¬ part.IsReference ∧
      ∀ name superclass methods,
        part ≠ .stmt (.classDecl name superclass methods) := by
  cases includes <;> exact ⟨id, fun _ _ _ same => by cases same⟩

/-- The walk enters and leaves classes at their declarations only. -/
theorem Enters.inClass_eq
    {part other : Part}
    {before start : Analysis}
    (enters : Enters part before other start)
    (noClass : ∀ name superclass methods,
      part ≠ .stmt (.classDecl name superclass methods)) :
    start.inClass = before.inClass := by
  cases enters with
  | binaryRight resolved | logicalRight resolved | arguments resolved
  | holder resolved
  | restExprs resolved | thenBranch resolved | repeated resolved =>
      exact Expr.inClass_of_resolve resolved
  | restFunctions resolved => exact FunctionDecl.inClass_of_resolve resolved
  | restStmts resolved => exact Stmt.inClass_of_resolve resolved
  | initializer _ => exact inClass_declared _ _
  | elseBranch condition resolved =>
      exact (Stmt.inClass_of_resolve resolved).trans
        (Expr.inClass_of_resolve condition)
  | body declares => exact (declareParameters_eq_ok rfl declares).2
  | superclass _ _ | methods _ => exact absurd rfl (noClass _ _ _)
  | _ => rfl

/-- The walk comes to the part as deep inside of where it was as this. -/
structure Analysis.Deeper (before : Analysis) (part : Part) (depth : Nat)
    (after : Analysis) : Prop where
  /-- The superclass of a class is named inside of the class. -/
  inClass : part.IsReference ∨ after.inClass = before.inClass
  distances :
    ∀ name, Reserved name →
      Scope.distance? name after.scopes =
        (Scope.distance? name before.scopes).map (· + depth)

namespace Program.Compiled

variable {program : Program} {first next : NodeId} {whole part : Part}
  {depth : Nat}
variable {before analysis : Analysis}

/-- What is covered stands as deep as what covers it. -/
theorem visits_covered
    (compiled : program.Compiled first next)
    {other : Part}
    (visits : program.Visits part analysis)
    (covers : part.Covers other) :
    ∃ start, program.Visits other start ∧ (¬ part.IsReference ∧
      (other.IsReference ∨ start.inClass = analysis.inClass)) ∧
        ∀ name, Reserved name →
          Scope.distance? name start.scopes =
            Scope.distance? name analysis.scopes := by
  obtain ⟨after, accepted⟩ := compiled.accepts visits
  have orderly := compiled.part_orderly visits
  cases covers with
  | included includes =>
      obtain ⟨start, enters, same⟩ := includes.enters orderly accepted
      exact ⟨start, .enter visits enters,
        ⟨includes.isPlain.1, .inr (enters.inClass_eq includes.isPlain.2)⟩,
        fun _ _ => by rw [same]⟩
  | initializer =>
      simp only [Part.Orderly, Stmt.Orderly] at orderly
      obtain ⟨free, -⟩ := resolve_varDecl_eq_ok accepted
      refine ⟨_, .enter visits (.initializer free),
        ⟨id, .inr (inClass_declared _ _)⟩, ?_⟩
      intro name reserved
      rw [scopes_declared, Scope.distance?_announcing orderly reserved]
  | superclass =>
      simp only [Part.Orderly, Stmt.Orderly] at orderly
      simp only [Part.resolve] at accepted
      obtain ⟨_, _, headed, -, -⟩ := resolve_classDecl_eq_ok accepted
      obtain ⟨free, different, -⟩ := heading_some_eq_ok headed
      refine ⟨_, .enter visits (.superclass free different),
        ⟨id, .inl trivial⟩, ?_⟩
      intro name reserved
      refine Scope.distance?_declaring ?_ reserved
      rintro _ ⟨⟩
      exact orderly.1
  | @rest first rest =>
      obtain ⟨middle, acceptedFirst⟩ :=
        (Part.splits_stmts _ _).accepted accepted
      have enters : Enters (.stmts (first :: rest)) analysis
          (.stmts rest) middle :=
        .restStmts acceptedFirst
      simp only [Part.Orderly, Stmt.OrderlyAll] at orderly
      refine ⟨middle, .enter visits enters,
        ⟨id, .inr (enters.inClass_eq fun _ _ _ same => by cases same)⟩, ?_⟩
      intro name reserved
      rw [Stmt.scopes_of_resolve _ orderly.1 acceptedFirst,
        Scope.distance?_declaring (Stmt.isName_of_declared? orderly.1) reserved]

/-- The walk comes to what stands inside of a part that it comes to. -/
theorem visits_inside
    (compiled : program.Compiled first next)
    (visits : program.Visits whole before)
    (inside : whole.Inside part depth) :
    ∃ after, program.Visits part after ∧ before.Deeper part depth after := by
  induction inside with
  | here => exact ⟨before, visits, .inr rfl, fun _ _ => by simp⟩
  | covered _ covers inductionHypothesis =>
      obtain ⟨middle, visitsMiddle, deeper⟩ := inductionHypothesis
      obtain ⟨after, visitsAfter, ⟨noReference, inClass⟩, same⟩ :=
        compiled.visits_covered visitsMiddle covers
      refine ⟨after, visitsAfter, ?_, fun name reserved => ?_⟩
      · exact inClass.imp_right
          (·.trans (deeper.inClass.resolve_left noReference))
      · rw [same name reserved, deeper.distances name reserved]
  | block _ inductionHypothesis =>
      obtain ⟨middle, visitsMiddle, deeper⟩ := inductionHypothesis
      refine ⟨_, .enter visitsMiddle .block,
        .inr (deeper.inClass.resolve_left id), ?_⟩
      intro name reserved
      rw [Scope.distance?_of_plain Scope.plain_empty reserved,
        deeper.distances name reserved, Option.map_map]
      rfl
  | @declaration declaration _ _ inductionHypothesis =>
      obtain ⟨middle, visitsMiddle, deeper⟩ := inductionHypothesis
      obtain ⟨after, accepted⟩ := compiled.accepts visitsMiddle
      have orderly := compiled.part_orderly visitsMiddle
      simp only [Part.Orderly, Stmt.Orderly] at orderly
      obtain ⟨free, -⟩ := resolve_funDecl_eq_ok accepted
      refine ⟨_, .enter visitsMiddle (.declaration free),
        .inr (deeper.inClass.resolve_left id), ?_⟩
      intro name reserved
      have isName : ∀ token ∈ some declaration.name, token.IsName := by
        rintro _ ⟨⟩
        exact orderly.1
      exact (Scope.distance?_declaring isName reserved).trans
        (deeper.distances name reserved)
  | @body declaration _ _ inductionHypothesis =>
      obtain ⟨name, params, body⟩ := declaration
      obtain ⟨middle, visitsMiddle, deeper⟩ := inductionHypothesis
      obtain ⟨after, accepted⟩ := compiled.accepts visitsMiddle
      have orderly := compiled.part_orderly visitsMiddle
      simp only [Part.Orderly, FunctionDecl.Orderly] at orderly
      obtain ⟨start, _, declares, -, -⟩ := resolve_function_eq_ok name accepted
      obtain ⟨scopes, inClass⟩ := declareParameters_eq_ok rfl declares
      refine ⟨start, .enter visitsMiddle (.body declares),
        .inr (inClass.trans (deeper.inClass.resolve_left id)), ?_⟩
      intro wanted reserved
      rw [scopes, Scope.distance?_of_plain
        (Scope.plain_ofParams orderly.1) reserved,
        deeper.distances wanted reserved, Option.map_map]
      rfl

/-- The walk comes to the methods of a class in the scopes of the class. -/
theorem visits_method
    (compiled : program.Compiled first next)
    {name : Token}
    {superclass : Option SuperclassRef}
    {methods : List FunctionDecl}
    (visits :
      program.Visits (.stmt (.classDecl name superclass methods)) analysis) :
    ∀ method ∈ methods, ∃ start, program.Visits (.function method) start ∧
      start.inClass = (if superclass.isSome then .derived else .plain) ∧
        ∃ outer, start.scopes = Scope.ofClass superclass ++ outer := by
  obtain ⟨after, accepted⟩ := compiled.accepts visits
  simp only [Part.resolve] at accepted
  obtain ⟨middle, _, headed, -, -⟩ := resolve_classDecl_eq_ok accepted
  have all : ∃ start, program.Visits (.functions methods) start ∧
      start.inClass = (if superclass.isSome then .derived else .plain) ∧
        ∃ outer, start.scopes = Scope.ofClass superclass ++ outer :=
    ⟨_, .enter visits (.methods headed), (scopes_heading headed).2, _, rfl⟩
  clear visits accepted headed
  induction methods with
  | nil => exact fun _ absent => by cases absent
  | cons declaration rest inductionHypothesis =>
      obtain ⟨start, visitsAll, inClass, outer, scopes⟩ := all
      obtain ⟨after, acceptedAll⟩ := compiled.accepts visitsAll
      obtain ⟨last, acceptedFirst⟩ :=
        (Part.splits_functions _ _).accepted acceptedAll
      intro method member
      rcases List.mem_cons.mp member with rfl | further
      · exact ⟨start, .enter visitsAll .firstFunction, inClass, outer, scopes⟩
      · refine inductionHypothesis
          ⟨last, .enter visitsAll (.restFunctions acceptedFirst), ?_, outer, ?_⟩
          method further
        · rw [FunctionDecl.inClass_of_resolve acceptedFirst, inClass]
        · rw [FunctionDecl.scopes_of_resolve acceptedFirst, scopes]

section Method

variable {name : Token} {superclass : Option SuperclassRef}
  {methods : List FunctionDecl}
variable {method : FunctionDecl} {id : NodeId} {keyword wanted : Token}

/-- `this` is as many scopes out as it is deep inside of a method. -/
theorem distance_this
    (compiled : program.Compiled first next)
    (visits :
      program.Visits (.stmt (.classDecl name superclass methods)) analysis)
    (isMethod : method ∈ methods)
    (inside :
      (Part.function method).Inside (.expr (.thisRef id keyword)) depth) :
    (first ≤ id ∧ id < next) ∧ keyword.lexeme = "this" ∧
      program.distances[id]? = some depth := by
  obtain ⟨start, visitsMethod, -, outer, scopes⟩ :=
    compiled.visits_method visits method isMethod
  obtain ⟨after, visitsUse, deeper⟩ :=
    compiled.visits_inside visitsMethod inside
  obtain ⟨handed, spelled⟩ := compiled.node_handed visitsUse rfl
  refine ⟨handed, spelled, (compiled.distance_eq visitsUse rfl).trans ?_⟩
  have here : Scope.distance? "this" start.scopes = some 0 := by
    rw [scopes]
    cases superclass <;> rfl
  rw [show keyword.lexeme = "this" from spelled,
    deeper.distances "this" (.inl rfl), here]
  simp

/-- `super` is one scope further out than it is deep inside of a method, whose
class has a superclass. -/
theorem distance_super
    (compiled : program.Compiled first next)
    (visits :
      program.Visits (.stmt (.classDecl name superclass methods)) analysis)
    (isMethod : method ∈ methods)
    (inside : (Part.function method).Inside
      (.expr (.superRef id keyword wanted)) depth) :
    (first ≤ id ∧ id < next) ∧ (∃ named, superclass = some named) ∧
      program.distances[id]? = some (depth + 1) := by
  obtain ⟨start, visitsMethod, inClass, outer, scopes⟩ :=
    compiled.visits_method visits method isMethod
  obtain ⟨after, visitsUse, deeper⟩ :=
    compiled.visits_inside visitsMethod inside
  obtain ⟨handed, spelled⟩ := compiled.node_handed visitsUse rfl
  obtain ⟨_, accepted⟩ := compiled.accepts visitsUse
  have derived := (deeper.inClass.resolve_left not_false).symm.trans
    (useSuper_eq_ok accepted).1
  cases superclass with
  | none =>
      rw [inClass] at derived
      cases derived
  | some named =>
      refine ⟨handed, ⟨named, rfl⟩,
        (compiled.distance_eq visitsUse rfl).trans ?_⟩
      have here : Scope.distance? "super" start.scopes = some 1 := by
        rw [scopes]
        rfl
      rw [show keyword.lexeme = "super" from spelled,
        deeper.distances "super" (.inr rfl), here]
      simp [Nat.add_comm]

/-- `this` is not used outside of classes. -/
theorem this_not_outside
    (compiled : program.Compiled first next) :
    ¬ (Part.stmts program.statements).Inside (.expr (.thisRef id keyword))
      depth := by
  intro inside
  obtain ⟨after, visits, deeper⟩ := compiled.visits_inside .here inside
  obtain ⟨_, accepted⟩ := compiled.accepts visits
  exact (useThis_eq_ok accepted).1 (deeper.inClass.resolve_left not_false)

/-- Nor is `super`. -/
theorem super_not_outside
    (compiled : program.Compiled first next) :
    ¬ (Part.stmts program.statements).Inside
      (.expr (.superRef id keyword wanted)) depth := by
  intro inside
  obtain ⟨after, visits, deeper⟩ := compiled.visits_inside .here inside
  obtain ⟨_, accepted⟩ := compiled.accepts visits
  have derived := (useSuper_eq_ok accepted).1
  rw [deeper.inClass.resolve_left not_false] at derived
  cases derived

end Method

end Program.Compiled

end LoxScript
