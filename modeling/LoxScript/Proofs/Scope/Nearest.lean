import Mathlib
import LoxScript.Proofs.Scope.Position

namespace LoxScript

/-!
# What the distances of a program are

Blocks, functions and classes open local scopes, and the text of a program shows
which names such a scope has declared where a node stands: those of the
declarations before it, the name of the function or class that it stands in, and
that of the variable whose initializer it belongs to.  The distance of a node is
the number of scopes inside the nearest one that has declared its name.
-/

/-- The local scopes around a piece of code, innermost first: of each, the names
that it has declared up to there. -/
abbrev LocalNames := List (List String)

namespace LocalNames

/-- The innermost scope declares one more name; at the top level no scope
does. -/
def declaring : Option Token → LocalNames → LocalNames
  | some name, scope :: outer => (name.lexeme :: scope) :: outer
  | _, names => names

/-- The implicit scopes around the methods of a class. -/
def ofClass : Option SuperclassRef → LocalNames
  | some _ => [["this"], ["super"]]
  | none => [["this"]]

/-- The name is declared by a scope with this many scopes inside it, none of
which declares it. -/
def NearestAt (names : LocalNames) (name : String) (distance : Nat) : Prop :=
  ∃ inner scope outer,
    names = inner ++ scope :: outer ∧ inner.length = distance ∧ name ∈ scope ∧
      ∀ nearer ∈ inner, name ∉ nearer

end LocalNames

/-- A node that refers to a variable, and the local scopes around it. -/
structure Mention where
  node : Reference
  scopes : LocalNames

/-- The name that is mentioned. -/
def Mention.name (mention : Mention) : String :=
  mention.node.token.lexeme

/-- Nodes with the same scopes around them. -/
def mentionsAt (names : LocalNames) (nodes : List Reference) : List Mention :=
  nodes.map fun node => ⟨node, names⟩

mutual

/-- The nodes of a statement; a branch is no declaration, so it stands where its
statement does. -/
def Stmt.mentions (names : LocalNames) : Stmt → List Mention
  | .print value => mentionsAt names value.references
  | .expression value => mentionsAt names value.references
  | .varDecl name initializer =>
      mentionsAt (names.declaring (some name)) (optionalReferences initializer)
  | .block body => Stmt.mentionsAll ([] :: names) body
  | .conditional condition thenBranch none =>
      mentionsAt names condition.references ++ thenBranch.mentions names
  | .conditional condition thenBranch (some elseBranch) =>
      mentionsAt names condition.references ++ thenBranch.mentions names ++
        elseBranch.mentions names
  | .loop condition body =>
      mentionsAt names condition.references ++ body.mentions names
  | .funDecl declaration =>
      declaration.mentions (names.declaring (some declaration.name))
  | .ret _ value => mentionsAt names (optionalReferences value)
  | .classDecl name none methods =>
      FunctionDecl.mentionsAll (.ofClass none ++ names.declaring (some name))
        methods
  | .classDecl name (some superclass) methods =>
      mentionsAt (names.declaring (some name)) superclass.references ++
        FunctionDecl.mentionsAll
          (.ofClass (some superclass) ++ names.declaring (some name)) methods
  | .require _ _ => []

/-- The nodes of statements in order, each behind what the statements before it
declare. -/
def Stmt.mentionsAll (names : LocalNames) : List Stmt → List Mention
  | [] => []
  | first :: rest =>
      first.mentions names ++ Stmt.mentionsAll
        (names.declaring first.declared?) rest

/-- The nodes of a function: its parameters and its body share one scope. -/
def FunctionDecl.mentions (names : LocalNames) : FunctionDecl → List Mention
  | ⟨_, params, body⟩ =>
      Stmt.mentionsAll (params.map Token.lexeme :: names) body

/-- The nodes of functions in order. -/
def FunctionDecl.mentionsAll (names : LocalNames) : List FunctionDecl →
    List Mention
  | [] => []
  | first :: rest => first.mentions names ++ FunctionDecl.mentionsAll names rest

end

/-- The nodes of a program; the top level is no local scope. -/
def Program.mentions (program : Program) : List Mention :=
  Stmt.mentionsAll [] program.statements

/-- The statements were parsed from a scanned text, and the analysis accepts
them with these distances. -/
def Program.IsAccepted (program : Program) : Prop :=
  ∃ text tokens first next,
    Token.scan text = .ok tokens ∧
      parseProgram tokens first = (.ok program.statements, next) ∧
      resolveProgram program.statements = .ok program.distances

theorem map_node_mentionsAt
    (names : LocalNames)
    (nodes : List Reference) :
    (mentionsAt names nodes).map Mention.node = nodes := by
  simp [mentionsAt, Function.comp_def]

mutual

/-- The mentions of a statement are its references. -/
theorem Stmt.map_node_mentions
    (names : LocalNames) :
    (statement :
      Stmt) → (statement.mentions names).map Mention.node = statement.references
  | .print _ | .expression _ | .varDecl _ _ | .ret _ _ =>
      map_node_mentionsAt _ _
  | .block body => Stmt.map_node_mentionsAll _ body
  | .conditional _ thenBranch none => by
      simp only [Stmt.mentions, Stmt.references, List.map_append,
        map_node_mentionsAt, thenBranch.map_node_mentions]
  | .conditional _ thenBranch (some elseBranch) => by
      simp only [Stmt.mentions, Stmt.references, List.map_append,
        map_node_mentionsAt,
        thenBranch.map_node_mentions, elseBranch.map_node_mentions]
  | .loop _ body => by
      simp only [Stmt.mentions, Stmt.references, List.map_append,
        map_node_mentionsAt, body.map_node_mentions]
  | .funDecl declaration => declaration.map_node_mentions _
  | .classDecl _ none methods => FunctionDecl.map_node_mentionsAll _ methods
  | .classDecl _ (some _) methods => by
      simp only [Stmt.mentions, Stmt.references, List.map_append,
        map_node_mentionsAt, FunctionDecl.map_node_mentionsAll _ methods]
  | .require _ _ => rfl

/-- The mentions of statements are their references. -/
theorem Stmt.map_node_mentionsAll
    (names : LocalNames) :
    (statements : List Stmt) →
      (Stmt.mentionsAll names statements).map Mention.node =
        Stmt.referencesAll statements
  | [] => rfl
  | first :: rest => by
      simp only [Stmt.mentionsAll, Stmt.referencesAll, List.map_append,
        first.map_node_mentions, Stmt.map_node_mentionsAll _ rest]

/-- The mentions of a function are its references. -/
theorem FunctionDecl.map_node_mentions
    (names : LocalNames) :
    (declaration : FunctionDecl) →
      (declaration.mentions names).map Mention.node = declaration.references
  | ⟨_, _, body⟩ => Stmt.map_node_mentionsAll _ body

/-- The mentions of functions are their references. -/
theorem FunctionDecl.map_node_mentionsAll
    (names : LocalNames) :
    (declarations : List FunctionDecl) →
      (FunctionDecl.mentionsAll names declarations).map Mention.node =
        FunctionDecl.referencesAll declarations
  | [] => rfl
  | first :: rest => by
      simp only [FunctionDecl.mentionsAll, FunctionDecl.referencesAll,
        List.map_append,
        first.map_node_mentions, FunctionDecl.map_node_mentionsAll _ rest]

end

namespace LocalNames

variable {names outer : LocalNames} {scope : List String} {scopes : List Scope}
  {name : String}

/-- The innermost scope is the nearest one if it declares the name. -/
theorem nearestAt_cons_of_mem
    (member : name ∈ scope)
    (distance : Nat) :
    NearestAt (scope :: outer) name distance ↔ distance = 0 := by
  constructor
  · rintro ⟨inner, found, beyond, split, rfl, -, free⟩
    cases inner with
    | nil => rfl
    | cons innermost rest =>
        cases split
        exact absurd member (free scope (by simp))
  · rintro rfl
    exact ⟨[], scope, outer, rfl, rfl, member, by simp⟩

/-- A scope that does not declare the name is one more scope inside the nearest
one. -/
theorem nearestAt_cons_of_notMem
    (absent : name ∉ scope)
    (distance : Nat) :
    NearestAt (scope :: outer) name distance ↔
      ∃ further, outer.NearestAt name further ∧ further + 1 = distance := by
  constructor
  · rintro ⟨inner, found, beyond, split, rfl, member, free⟩
    cases inner with
    | nil =>
        cases split
        exact absurd member absent
    | cons innermost rest =>
        cases split
        refine ⟨rest.length, ⟨rest, found, beyond, rfl, rfl, member, ?_⟩, rfl⟩
        exact fun nearer among => free nearer (List.mem_cons_of_mem _ among)
  · rintro ⟨_, ⟨inner, found, beyond, rfl, rfl, member, free⟩, rfl⟩
    exact ⟨scope :: inner, found, beyond, rfl, rfl, member,
      List.forall_mem_cons.mpr ⟨absent, free⟩⟩

/-- There is a nearest scope exactly if one of them declares the name. -/
theorem exists_nearestAt_iff
    (names : LocalNames)
    (name : String) :
    (∃ distance, names.NearestAt name distance) ↔ ∃ scope ∈ names,
      name ∈ scope := by
  induction names with
  | nil => simp [NearestAt]
  | cons scope outer inductionHypothesis =>
      by_cases member : name ∈ scope
      · simp [nearestAt_cons_of_mem member, member]
      · simp [nearestAt_cons_of_notMem member, member, ← inductionHypothesis]

/-- The scopes of an analysis have declared these names. -/
def Describes (names : LocalNames) (scopes : List Scope) : Prop :=
  List.Forall₂ (fun declared scope => ∀ name, scope.contains name ↔
    name ∈ declared) names scopes

/-- The analysis finds the nearest scope. -/
theorem Describes.distance?_eq_some_iff
    (describes : names.Describes scopes)
    (name : String)
    (distance : Nat) :
    Scope.distance? name scopes = some distance ↔
      names.NearestAt name distance := by
  induction describes generalizing distance with
  | nil => simp [Scope.distance?, NearestAt]
  | @cons declared scope _ _ same _ inductionHypothesis =>
      by_cases member : name ∈ declared
      · have contains := (same name).mpr member
        simp [Scope.distance?, contains, nearestAt_cons_of_mem member, eq_comm]
      · have lacks : ¬ scope.contains name := fun contains =>
          member ((same name).mp contains)
        simp [Scope.distance?, lacks, nearestAt_cons_of_notMem member,
          inductionHypothesis]

namespace Describes

/-- Whatever is stored for it, a name is declared in the innermost scope. -/
theorem insert
    {declared : List String}
    {innermost : Scope}
    {outside : List Scope}
    (describes : Describes (declared :: outer) (innermost :: outside))
    (name : String)
    (ready : Bool) :
    Describes ((name :: declared) :: outer)
      (innermost.insert name ready :: outside) := by
  obtain ⟨same, others⟩ := List.forall₂_cons.mp describes
  refine .cons (fun other => ?_) others
  rw [NameMap.contains_insert, Bool.or_eq_true, decide_eq_true_iff, same other,
    List.mem_cons, eq_comm]

/-- A declaration that is ready. -/
theorem declaring
    (describes : names.Describes scopes)
    (name : Option Token) :
    Describes (names.declaring name) (Scope.declaring name scopes) := by
  cases name with
  | none => exact describes
  | some name =>
      cases describes with
      | nil => exact .nil
      | cons same others => exact insert (.cons same others) name.lexeme true

/-- A variable whose initializer is analysed. -/
theorem announcing
    (describes : names.Describes scopes)
    (name : Token) :
    Describes (names.declaring (some name)) (Scope.announcing name scopes) := by
  cases describes with
  | nil => exact .nil
  | cons same others => exact insert (.cons same others) name.lexeme false

/-- A block declares nothing at first. -/
theorem block
    (describes : names.Describes scopes) :
    Describes ([] :: names) (NameMap.empty :: scopes) :=
  .cons
    (fun name => by
      simp [NameMap.contains, NameMap.find?, NameMap.empty, NameMap.findIn])
    describes

/-- A function declares its parameters at first. -/
theorem function
    (describes : names.Describes scopes)
    (params : List Token) :
    Describes (params.map Token.lexeme :: names)
      (Scope.ofParams params NameMap.empty :: scopes) := by
  refine .cons (fun name => ?_) describes
  rw [NameMap.contains, Scope.find?_ofParams]
  by_cases member : name ∈ params.map Token.lexeme
  · simp [member]
  · simp [member, NameMap.find?, NameMap.empty, NameMap.findIn]

/-- The methods of a class have its implicit scopes around them. -/
theorem methods
    (describes : names.Describes scopes)
    (superclass : Option SuperclassRef) :
    Describes (.ofClass superclass ++ names)
      (Scope.ofClass superclass ++ scopes) := by
  have implicit (name : String) {names : LocalNames} {scopes : List Scope}
      (describes : names.Describes scopes) :
      Describes ([name] :: names) (NameMap.empty.insert name true :: scopes) :=
    describes.block.insert name true
  cases superclass with
  | none => exact implicit "this" describes
  | some _ => exact implicit "this" (implicit "super" describes)

end Describes

end LocalNames

/-- A node has a distance exactly if one of the scopes around it has declared
its name, and then that of the nearest one. -/
def Program.FilesNearest (program : Program) (mention : Mention) : Prop :=
  ∀ distance, program.distances[mention.node.id]? = some distance ↔
    mention.scopes.NearestAt mention.name distance

namespace Program.Compiled

variable {program : Program} {first next : NodeId} {scopes : List Scope}
  {names : LocalNames}

mutual

/-- The nodes of an expression have the distances that the scopes around it
give. -/
theorem distances_of_references
    (compiled : program.Compiled first next) :
    (expr : Expr) → program.Places (.expr expr) scopes →
      ∀ node ∈ expr.references,
        program.distances[node.id]? = Scope.distance? node.token.lexeme scopes
  | .literal _, _ => by simp [Expr.references]
  | .grouping inner, places =>
      compiled.distances_of_references inner
        (compiled.places_included places .grouping)
  | .unary _ operand, places =>
      compiled.distances_of_references operand
        (compiled.places_included places .operand)
  | .binary left _ right, places =>
      List.forall_mem_append.mpr
        ⟨compiled.distances_of_references left
          (compiled.places_included places .binaryLeft),
          compiled.distances_of_references right
            (compiled.places_included places .binaryRight)⟩
  | .logical left _ right, places =>
      List.forall_mem_append.mpr
        ⟨compiled.distances_of_references left
          (compiled.places_included places .logicalLeft),
          compiled.distances_of_references right
            (compiled.places_included places .logicalRight)⟩
  | .reference _ _, ⟨_, visits, around⟩ =>
      List.forall_mem_singleton.mpr (around ▸ compiled.distance_eq visits rfl)
  | .assign _ _ value, places => by
      refine List.forall_mem_cons.mpr ⟨?_, ?_⟩
      · obtain ⟨_, visits, around⟩ := places
        exact around ▸ compiled.distance_eq visits rfl
      · exact compiled.distances_of_references value
          (compiled.places_included places .assigned)
  | .call callee _ arguments, places =>
      List.forall_mem_append.mpr
        ⟨compiled.distances_of_references callee
          (compiled.places_included places .callee),
          compiled.distances_of_referencesAll arguments
            (compiled.places_included places .arguments)⟩
  | .get object _, places =>
      compiled.distances_of_references object
        (compiled.places_included places .object)
  | .set object _ value, places =>
      List.forall_mem_append.mpr
        ⟨compiled.distances_of_references object
          (compiled.places_included places .holder),
          compiled.distances_of_references value
            (compiled.places_included places .stored)⟩
  | .thisRef _ _, ⟨_, visits, around⟩ =>
      List.forall_mem_singleton.mpr (around ▸ compiled.distance_eq visits rfl)
  | .superRef _ _ _, ⟨_, visits, around⟩ =>
      List.forall_mem_singleton.mpr (around ▸ compiled.distance_eq visits rfl)

/-- The nodes of expressions have the distances that the scopes around them
give. -/
theorem distances_of_referencesAll
    (compiled : program.Compiled first next) :
    (exprs : List Expr) → program.Places (.exprs exprs) scopes →
      ∀ node ∈ Expr.referencesAll exprs,
        program.distances[node.id]? = Scope.distance? node.token.lexeme scopes
  | [], _ => by simp [Expr.referencesAll]
  | first :: rest, places =>
      List.forall_mem_append.mpr
        ⟨compiled.distances_of_references
          first (compiled.places_included places .firstExpr),
          compiled.distances_of_referencesAll rest
            (compiled.places_included places .restExprs)⟩

end

/-- The nodes of an expression have the distances to the nearest scopes that the
text shows. -/
theorem filesNearest_references
    (compiled : program.Compiled first next)
    (expr : Expr)
    (places : program.Places (.expr expr) scopes)
    (describes : names.Describes scopes) :
    ∀ mention ∈ mentionsAt names expr.references,
      program.FilesNearest mention := by
  refine List.forall_mem_map.mpr fun node member distance => ?_
  rw [compiled.distances_of_references expr places node member]
  exact describes.distance?_eq_some_iff node.token.lexeme distance

-- By recursion on the tree: wherever the analysis stands, its scopes have
-- declared exactly the names that the text shows there, and each way down
-- changes both sides alike.
mutual

/-- The nodes of a statement have the distances to the nearest scopes that the
text shows. -/
theorem filesNearest_mentions
    (compiled : program.Compiled first next) :
    (statement : Stmt) → {names : LocalNames} → {scopes : List Scope} →
      program.Places (.stmt statement) scopes → names.Describes scopes →
        ∀ mention ∈ statement.mentions names, program.FilesNearest mention
  | .print value, _, _, places, describes =>
      compiled.filesNearest_references value
        (compiled.places_included places .printed) describes
  | .expression value, _, _, places, describes =>
      compiled.filesNearest_references value
        (compiled.places_included places .stated) describes
  | .varDecl _ none, _, _, _, _ => List.forall_mem_nil _
  -- In its initializer a variable is declared, if not yet ready; only reading
  -- it is rejected.
  | .varDecl name (some initializer), _, _, places, describes =>
      compiled.filesNearest_references initializer
        (compiled.places_initializer places).2 (describes.announcing name)
  | .block body, _, _, places, describes =>
      compiled.filesNearest_mentionsAll body (places_block places)
        describes.block
  | .conditional condition thenBranch none, _, _, places, describes =>
      List.forall_mem_append.mpr
        ⟨compiled.filesNearest_references condition
            (compiled.places_included places .condition) describes,
          compiled.filesNearest_mentions thenBranch
            (compiled.places_included places .thenBranch) describes⟩
  | .conditional condition thenBranch (some elseBranch), _, _, places,
    describes =>
      List.forall_mem_append.mpr
        ⟨List.forall_mem_append.mpr
          ⟨compiled.filesNearest_references condition
              (compiled.places_included places .condition) describes,
            compiled.filesNearest_mentions thenBranch
              (compiled.places_included places .thenBranch) describes⟩,
          compiled.filesNearest_mentions elseBranch
            (compiled.places_included places .elseBranch) describes⟩
  | .loop condition body, _, _, places, describes =>
      List.forall_mem_append.mpr
        ⟨compiled.filesNearest_references condition
          (compiled.places_included places .guard)
            describes,
          compiled.filesNearest_mentions body
            (compiled.places_included places .repeated) describes⟩
  | .funDecl declaration, _, _, places, describes =>
      compiled.filesNearest_function declaration
        (compiled.places_function places)
        (describes.declaring (some declaration.name))
  | .ret _ none, _, _, _, _ => List.forall_mem_nil _
  | .ret _ (some value), _, _, places, describes =>
      compiled.filesNearest_references value
        (compiled.places_included places .returned) describes
  | .classDecl name none methods, _, _, places, describes =>
      compiled.filesNearest_functions methods (compiled.places_method places)
        ((describes.declaring (some name)).methods none)
  | .classDecl name (some superclass) methods, _, _, places, describes =>
      List.forall_mem_append.mpr
        ⟨compiled.filesNearest_references superclass.expr
            (compiled.places_superclass places).2
            (describes.declaring (some name)),
          compiled.filesNearest_functions methods
            (compiled.places_method places)
            ((describes.declaring (some name)).methods (some superclass))⟩
  | .require _ _, _, _, _, _ => List.forall_mem_nil _

/-- So do the nodes of statements. -/
theorem filesNearest_mentionsAll
    (compiled : program.Compiled first next) :
    (statements : List Stmt) → {names : LocalNames} → {scopes : List Scope} →
      program.Places (.stmts statements) scopes → names.Describes scopes →
        ∀ mention ∈ Stmt.mentionsAll names statements,
          program.FilesNearest mention
  | [], _, _, _, _ => List.forall_mem_nil _
  | statement :: rest, _, _, places, describes =>
      List.forall_mem_append.mpr
        ⟨compiled.filesNearest_mentions statement
          (compiled.places_included places .firstStmt)
            describes,
          compiled.filesNearest_mentionsAll rest (compiled.places_rest places)
            (describes.declaring statement.declared?)⟩

/-- So do the nodes of a function. -/
theorem filesNearest_function
    (compiled : program.Compiled first next) :
    (declaration :
      FunctionDecl) → {names : LocalNames} → {scopes : List Scope} →
      program.Places (.function declaration) scopes → names.Describes scopes →
        ∀ mention ∈ declaration.mentions names, program.FilesNearest mention
  | ⟨_, params, body⟩, _, _, places, describes =>
      compiled.filesNearest_mentionsAll body (compiled.places_body places)
        (describes.function params)

/-- So do the nodes of functions. -/
theorem filesNearest_functions
    (compiled : program.Compiled first next) :
    (declarations :
      List FunctionDecl) → {names : LocalNames} → {scopes : List Scope} →
      (∀ declaration ∈ declarations, program.Places
        (.function declaration) scopes) →
        names.Describes scopes →
        ∀ mention ∈ FunctionDecl.mentionsAll names declarations,
          program.FilesNearest mention
  | [], _, _, _, _ => List.forall_mem_nil _
  | declaration :: rest, _, _, places, describes =>
      List.forall_mem_append.mpr
        ⟨compiled.filesNearest_function declaration
          (places declaration List.mem_cons_self)
            describes,
          compiled.filesNearest_functions rest
            (fun further member =>
              places further (List.mem_cons_of_mem _ member)) describes⟩

end

end Program.Compiled

/-- An accepted program is compiled. -/
theorem Program.IsAccepted.compiled
    {program : Program}
    (accepted : program.IsAccepted) :
    ∃ first next, program.Compiled first next := by
  obtain ⟨text, tokens, first, next, scans, parses, resolved⟩ := accepted
  have made := parseProgram_made (Token.spelled_of_scan scans) parses
  exact ⟨first, next, made.1, made.2, resolved⟩

/-- The nodes of an accepted program have the distances to the nearest scopes
that the text shows. -/
theorem Program.IsAccepted.filesNearest
    {program : Program}
    (accepted : program.IsAccepted) :
    ∀ mention ∈ program.mentions, program.FilesNearest mention := by
  obtain ⟨first, next, compiled⟩ := accepted.compiled
  exact compiled.filesNearest_mentionsAll _
    (Compiled.places_statements program) .nil

/-- Each node of an accepted program has an entry in the table exactly if one of
the local scopes around it has declared its name by then, and the entry is the
number of scopes inside the nearest such scope.  It depends on nothing else:
declarations further on, and those of the top level, have no part in it. -/
theorem distances_are_nearest_declarations
    {program : Program}
    (accepted : program.IsAccepted) :
    program.mentions.map Mention.node = Stmt.referencesAll program.statements ∧
    (∀ mention ∈ program.mentions,
      ((∃ distance, program.distances[mention.node.id]? = some distance) ↔
        ∃ scope ∈ mention.scopes, mention.name ∈ scope) ∧
      ∀ distance, program.distances[mention.node.id]? = some distance ↔
        mention.scopes.NearestAt mention.name distance) ∧
    ∀ other : Program, other.IsAccepted →
      ∀ mention ∈ program.mentions, ∀ twin ∈ other.mentions,
        twin.name = mention.name → twin.scopes = mention.scopes →
          other.distances[twin.node.id]? =
            program.distances[mention.node.id]? := by
  refine ⟨Stmt.map_node_mentionsAll [] program.statements,
    fun mention member => ?_,
    fun other acceptedOther mention member twin memberOther sameName
      sameScopes => ?_⟩
  · have files := accepted.filesNearest mention member
    refine ⟨?_, files⟩
    rw [← LocalNames.exists_nearestAt_iff]
    exact exists_congr files
  · refine Option.ext fun distance => ?_
    rw [acceptedOther.filesNearest twin memberOther distance,
      accepted.filesNearest mention member distance, sameName, sameScopes]

/-- A block in a function reads a parameter before and after it declares a
variable of the same name. -/
def Program.redeclaring : Program where
  statements :=
    [.varDecl ⟨.identifier "b", "b", 1⟩ none,
      .block
        [.funDecl ⟨⟨.identifier "f", "f", 1⟩, [⟨.identifier "a", "a", 1⟩],
          [.block
            [.print (.reference 0 ⟨.identifier "a", "a", 1⟩),
              .varDecl ⟨.identifier "a", "a", 1⟩
                (some (.reference 1 ⟨.identifier "b", "b", 1⟩)),
              .expression (.call (.reference 2 ⟨.identifier "f", "f", 1⟩)
                ⟨.symbol .rightParen, ")", 1⟩
                [.reference 3 ⟨.identifier "a", "a", 1⟩])]]⟩]]
  distances := ((({} : Distances).insert 0 1).insert 2 2).insert 3 0

/-- The variable counts from its declaration on, and that of the top level does
not count. -/
theorem distances_of_redeclared_parameter :
    Program.redeclaring.IsAccepted ∧
      Program.redeclaring.mentions.map
        (fun mention => (mention.node.id, mention.scopes)) =
        [(0, [[], ["a"], ["f"]]), (1, [["a"], ["a"], ["f"]]),
          (2, [["a"], ["a"], ["f"]]), (3, [["a"], ["a"], ["f"]])] ∧
      Program.redeclaring.distances[0]? = some 1 ∧
      (¬ ∃ distance, Program.redeclaring.distances[1]? = some distance) ∧
      Program.redeclaring.distances[2]? = some 2 ∧
      Program.redeclaring.distances[3]? = some 0 := by
  have scanned :
      Token.scan "var b;\x7bfun f(a)\x7b\x7bprint a;var a=b;f(a);\x7d\x7d\x7d" =
      .ok [⟨.keyword .varWord, "var", 1⟩, ⟨.identifier "b", "b", 1⟩,
        ⟨.symbol .semicolon, ";", 1⟩, ⟨.symbol .leftBrace, "\x7b", 1⟩,
        ⟨.keyword .funWord, "fun", 1⟩, ⟨.identifier "f", "f", 1⟩,
        ⟨.symbol .leftParen, "(", 1⟩, ⟨.identifier "a", "a", 1⟩,
        ⟨.symbol .rightParen, ")", 1⟩, ⟨.symbol .leftBrace, "\x7b", 1⟩,
        ⟨.symbol .leftBrace, "\x7b", 1⟩, ⟨.keyword .printWord, "print", 1⟩,
        ⟨.identifier "a", "a", 1⟩, ⟨.symbol .semicolon, ";", 1⟩,
        ⟨.keyword .varWord, "var", 1⟩, ⟨.identifier "a", "a", 1⟩,
        ⟨.symbol .equal, "=", 1⟩, ⟨.identifier "b", "b", 1⟩,
        ⟨.symbol .semicolon, ";", 1⟩, ⟨.identifier "f", "f", 1⟩,
        ⟨.symbol .leftParen, "(", 1⟩, ⟨.identifier "a", "a", 1⟩,
        ⟨.symbol .rightParen, ")", 1⟩, ⟨.symbol .semicolon, ";", 1⟩,
        ⟨.symbol .rightBrace, "\x7d", 1⟩, ⟨.symbol .rightBrace, "\x7d", 1⟩,
        ⟨.symbol .rightBrace, "\x7d", 1⟩, ⟨.endOfInput, "", 1⟩] := by
    cbv
  have accepted : Program.redeclaring.IsAccepted :=
    ⟨_, _, 0, 4, scanned, by cbv, by cbv⟩
  have listed : Program.redeclaring.mentions =
      [⟨⟨.read, 0, ⟨.identifier "a", "a", 1⟩⟩, [[], ["a"], ["f"]]⟩,
        ⟨⟨.read, 1, ⟨.identifier "b", "b", 1⟩⟩, [["a"], ["a"], ["f"]]⟩,
        ⟨⟨.read, 2, ⟨.identifier "f", "f", 1⟩⟩, [["a"], ["a"], ["f"]]⟩,
        ⟨⟨.read, 3, ⟨.identifier "a", "a", 1⟩⟩, [["a"], ["a"], ["f"]]⟩] := by
    rfl
  obtain ⟨-, entries, -⟩ := distances_are_nearest_declarations accepted
  simp only [listed, List.forall_mem_cons] at entries
  obtain ⟨⟨-, outer⟩, ⟨unfiled, -⟩, ⟨-, called⟩, ⟨-, inner⟩, -⟩ := entries
  refine ⟨accepted,
    by simp only [listed, List.map_cons, List.map_nil], ?_, ?_, ?_, ?_⟩
  · exact (outer 1).mpr
      ⟨[[]], ["a"], [["f"]], rfl, rfl, List.mem_singleton_self "a", by simp⟩
  · rw [unfiled]
    simp [Mention.name]
  · refine (called 2).mpr
      ⟨[["a"], ["a"]], ["f"], [], rfl, rfl, List.mem_singleton_self "f", ?_⟩
    simp [Mention.name]
  · exact (inner 0).mpr ⟨[], ["a"], _, rfl, rfl, List.mem_singleton_self "a",
      by simp⟩

end LoxScript
