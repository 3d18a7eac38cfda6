import Mathlib.Data.List.Pairwise
import LoxScript.Proofs.Renaming.Regions
import LoxScript.Proofs.Renaming.Scopes

namespace LoxScript

/-!
# Programs with a renamed variable

If some scopes of an accepted program declare a variable, and another name
occurs nowhere in the program, then the program with the variable renamed in
these scopes is accepted with the same distances, and its code is a twin of the
program's code.
-/

open Analysis Resolve

/-- A compiled program in which a variable is to be renamed. -/
structure Program.Relabelled (program : Program) (r : Relabelling) : Prop where
  compiled : program.Compiled r.first r.bound
  table : r.table = program.distances
  proper : r.Proper

namespace Program.Relabelled

variable {program : Program} {r : Relabelling} {marks : Marks}
variable {expr : Expr} {node : Reference} {analysis : Analysis}

/-- A node leads to a marked scope if the nearest scope that declares its name
is marked. -/
theorem leads_eq
    (relabelled : program.Relabelled r)
    (visits : program.Visits (.expr expr) analysis)
    (isNode : expr.node? = some node) :
    r.leads marks node.id =
      (Scope.distance? node.token.lexeme analysis.scopes).elim false
        marks.marked := by
  unfold Renaming.leads
  rw [relabelled.table, relabelled.compiled.distance_eq visits isNode]
  cases Scope.distance? node.token.lexeme analysis.scopes <;> rfl

/-- A node is renamed as its name is spelled in the scope that declares it. -/
theorem names
    (relabelled : program.Relabelled r)
    (visits : program.Visits (.expr expr) analysis)
    (isNode : expr.node? = some node)
    (fresh : node.token.lexeme ≠ r.new) :
    Scope.Names r marks analysis.scopes node.token
      (r.token (r.leads marks node.id) node.token) := by
  unfold Scope.Names
  rw [Relabelling.lexeme_token fresh, relabelled.leads_eq visits isNode]

/-- A node and its renamed form refer to the same. -/
theorem refers
    (relabelled : program.Relabelled r)
    (visits : program.Visits (.expr expr) analysis)
    (isNode : expr.node? = some node)
    (fresh : node.token.lexeme ≠ r.new) :
    r.Refers marks node.id node.token
      (r.token (r.leads marks node.id) node.token) where
  line := Relabelling.line_token node.token _
  lexeme := Relabelling.lexeme_token fresh _
  known := .inl (relabelled.compiled.node_handed visits isNode).1
  fresh _ := fresh

end Program.Relabelled

section Expressions

variable {program : Program} {r : Relabelling} {marks : Marks}

mutual

/-- A renamed expression is accepted where the expression is. -/
theorem Expr.follows_renamed
    (relabelled : program.Relabelled r) :
    (expr : Expr) →
      ∀ {other before beforeImage},
        program.Visits (.expr expr) before →
        Expr.Alike (.ofTokens (Token.Avoids r.new)) expr other →
        before.Twin r marks beforeImage →
        Follows r marks expr.resolve (expr.renamed r.toRenaming marks).resolve
          before beforeImage
  | .literal _, _, _, _, _, _, twin => .ofPure twin
  | .grouping inner, _, _, _, visits, .grouping alike, twin =>
      inner.follows_renamed relabelled (visits.enter .grouping) alike twin
  | .unary _ operand, _, _, _, visits, .unary _ alike, twin =>
      operand.follows_renamed relabelled (visits.enter .operand) alike twin
  | .binary left _ right, _, _, _, visits, .binary alikeLeft _ alikeRight,
    twin =>
      (left.follows_renamed relabelled (visits.enter .binaryLeft) alikeLeft
        twin).andThen
        fun _ _ accepted middle =>
          right.follows_renamed relabelled
            (visits.enter (.binaryRight accepted)) alikeRight middle
  | .logical left _ right, _, _, _, visits, .logical alikeLeft _ alikeRight,
    twin =>
      (left.follows_renamed relabelled (visits.enter .logicalLeft) alikeLeft
        twin).andThen
        fun _ _ accepted middle =>
          right.follows_renamed relabelled
            (visits.enter (.logicalRight accepted)) alikeRight middle
  | .reference _ _, _, _, _, visits, .reference _ avoids, twin =>
      follows_read twin avoids.2 (relabelled.names visits rfl avoids.2)
  | .assign _ _ value, _, _, _, visits, .assign _ avoids alike, twin =>
      (value.follows_renamed relabelled (visits.enter .assigned) alike
        twin).andThen
        fun _ _ accepted middle => by
          have same := middle.scopes.distance? avoids.2
          rw [Expr.scopes_of_resolve accepted,
            ← relabelled.names visits rfl avoids.2] at same
          rw [← Expr.scopes_of_resolve accepted] at same
          exact follows_file middle same
  | .call callee _ arguments, _, _, _, visits,
    .call alikeCallee _ alikeArguments, twin =>
      (callee.follows_renamed relabelled (visits.enter .callee) alikeCallee
        twin).andThen
        fun _ _ accepted middle =>
          Expr.follows_renamedAll relabelled arguments
            (visits.enter (.arguments accepted)) alikeArguments middle
  | .get object _, _, _, _, visits, .get alike _, twin =>
      object.follows_renamed relabelled (visits.enter .object) alike twin
  | .set object _ value, _, _, _, visits, .set alikeObject _ alikeValue, twin =>
      (value.follows_renamed relabelled (visits.enter .stored) alikeValue
        twin).andThen
        fun _ _ accepted middle =>
          object.follows_renamed relabelled (visits.enter (.holder accepted))
            alikeObject middle
  | .thisRef _ _, _, _, _, visits, .thisRef _ avoids, twin => by
      have spelled := (relabelled.compiled.node_handed visits rfl).2
      exact follows_useThis twin (spelled ▸ relabelled.proper.oldThis.symm)
        avoids.2
  | .superRef _ _ _, _, _, _, visits, .superRef _ avoids _, twin => by
      have spelled := (relabelled.compiled.node_handed visits rfl).2
      exact follows_useSuper twin (spelled ▸ relabelled.proper.oldSuper.symm)
        avoids.2

/-- Renamed expressions are accepted where the expressions are. -/
theorem Expr.follows_renamedAll
    (relabelled : program.Relabelled r) :
    (exprs : List Expr) →
      ∀ {others before beforeImage},
        program.Visits (.exprs exprs) before →
        List.Forall₂ (Expr.Alike (.ofTokens (Token.Avoids r.new)))
          exprs others →
        before.Twin r marks beforeImage →
        Follows r marks (Expr.resolveAll exprs)
          (Expr.resolveAll (Expr.renamedAll r.toRenaming marks exprs))
          before beforeImage
  | [], _, _, _, _, _, twin => .ofPure twin
  | head :: rest, _, _, _, visits, .cons alikeHead alikeRest, twin =>
      (head.follows_renamed relabelled (visits.enter .firstExpr) alikeHead
        twin).andThen
        fun _ _ accepted middle =>
          Expr.follows_renamedAll relabelled rest
            (visits.enter (.restExprs accepted)) alikeRest middle

end

mutual

/-- A renamed expression is a twin of the expression. -/
theorem Expr.twin_renamed
    (relabelled : program.Relabelled r) :
    (expr : Expr) →
      ∀ {other scopes},
        program.Places (.expr expr) scopes →
        Expr.Alike (.ofTokens (Token.Avoids r.new)) expr other →
        Expr.Twin r marks expr (expr.renamed r.toRenaming marks)
  | .literal _, _, _, _, _ => .literal
  | .grouping inner, _, _, places, .grouping alike =>
      .grouping (inner.twin_renamed relabelled
        (relabelled.compiled.places_included places .grouping) alike)
  | .unary _ operand, _, _, places, .unary _ alike =>
      .unary (operand.twin_renamed relabelled
        (relabelled.compiled.places_included places .operand) alike)
  | .binary left _ right, _, _, places, .binary alikeLeft _ alikeRight =>
      .binary
        (left.twin_renamed relabelled
          (relabelled.compiled.places_included places .binaryLeft) alikeLeft)
        (right.twin_renamed relabelled
          (relabelled.compiled.places_included places .binaryRight) alikeRight)
  | .logical left _ right, _, _, places, .logical alikeLeft _ alikeRight =>
      .logical
        (left.twin_renamed relabelled
          (relabelled.compiled.places_included places .logicalLeft) alikeLeft)
        (right.twin_renamed relabelled
          (relabelled.compiled.places_included places .logicalRight) alikeRight)
  | .reference _ _, _, _, ⟨_, visits, _⟩, .reference _ avoids =>
      .reference (relabelled.refers visits rfl avoids.2)
  | .assign _ _ value, _, _, places, .assign _ avoids alike => by
      obtain ⟨_, visits, _⟩ := id places
      exact .assign (relabelled.refers visits rfl avoids.2)
        (value.twin_renamed relabelled
          (relabelled.compiled.places_included places .assigned) alike)
  | .call callee _ arguments, _, _, places,
    .call alikeCallee _ alikeArguments =>
      .call
        (callee.twin_renamed relabelled
          (relabelled.compiled.places_included places .callee) alikeCallee)
        (Expr.twins_renamed relabelled arguments
          (relabelled.compiled.places_included places .arguments)
          alikeArguments)
  | .get object _, _, _, places, .get alike _ =>
      .get (object.twin_renamed relabelled
        (relabelled.compiled.places_included places .object) alike)
  | .set object _ value, _, _, places, .set alikeObject _ alikeValue =>
      .set
        (object.twin_renamed relabelled
          (relabelled.compiled.places_included places .holder) alikeObject)
        (value.twin_renamed relabelled
          (relabelled.compiled.places_included places .stored) alikeValue)
  | .thisRef _ _, _, _, ⟨_, visits, _⟩, _ =>
      .thisRef (.inl (relabelled.compiled.node_handed visits rfl).2)
  | .superRef _ _ _, _, _, _, _ => .superRef

/-- Renamed expressions are twins of the expressions. -/
theorem Expr.twins_renamed
    (relabelled : program.Relabelled r) :
    (exprs : List Expr) →
      ∀ {others scopes},
        program.Places (.exprs exprs) scopes →
        List.Forall₂ (Expr.Alike (.ofTokens (Token.Avoids r.new)))
          exprs others →
        List.Forall₂ (Expr.Twin r marks) exprs
          (Expr.renamedAll r.toRenaming marks exprs)
  | [], _, _, _, _ => .nil
  | head :: rest, _, _, places, .cons alikeHead alikeRest =>
      .cons
        (head.twin_renamed relabelled
          (relabelled.compiled.places_included places .firstExpr) alikeHead)
        (Expr.twins_renamed relabelled rest
          (relabelled.compiled.places_included places .restExprs) alikeRest)

end

end Expressions

section Marked

variable (r : Relabelling) (marks : Marks)

/-- If the statement declares a function or a class, it keeps its name. -/
def Stmt.Spares : Stmt → Prop
  | .funDecl declaration => r.Spares marks declaration.name
  | .classDecl name _ _ => r.Spares marks name
  | _ => True

variable {r} {marks}

/-- What declares nothing is no function or class. -/
theorem Stmt.spares_of_declared?
    {statement : Stmt}
    (declares : statement.declared? = none) :
    statement.Spares r marks := by
  cases statement with
  | funDecl declaration => cases declares
  | classDecl name superclass methods => cases declares
  | _ => trivial

/-- Functions and classes keep their names if these are not the one to be
renamed. -/
theorem Stmt.spares_of_ne
    {statement : Stmt}
    (others : ∀ name ∈ statement.declared?, r.Spares marks name) :
    statement.Spares r marks := by
  cases statement with
  | funDecl declaration => exact others _ rfl
  | classDecl name superclass methods => exact others _ rfl
  | _ => trivial

/-- What a statement declares avoids the name that its tokens avoid. -/
theorem Stmt.Alike.avoids
    {statement other : Stmt}
    {name : String}
    (alike : Stmt.Alike (.ofTokens (Token.Avoids name)) statement other) :
    ∀ token ∈ statement.declared?, token.lexeme ≠ name := by
  intro token isToken
  cases alike with
  | varDecl avoids _ =>
      cases isToken
      exact avoids.2
  | funDecl alike =>
      cases isToken
      cases alike with
      | intro avoids _ _ => exact avoids.2
  | classDecl avoids _ _ =>
      cases isToken
      exact avoids.2
  | _ => cases isToken

/-- What statements declare avoids the name that their tokens avoid. -/
theorem Stmt.avoids_of_mem
    {statements others : List Stmt}
    {name : String}
    (alike : List.Forall₂ (Stmt.Alike (.ofTokens (Token.Avoids name)))
      statements others) :
    ∀ statement ∈ statements, ∀ token ∈ statement.declared?,
      token.lexeme ≠ name := by
  induction alike with
  | nil =>
      exact nofun
  | cons head _ inductionHypothesis =>
      intro statement member
      rcases List.mem_cons.mp member with rfl | further
      · exact head.avoids
      · exact inductionHypothesis statement further

/-- In a marked scope, which has the variable to be renamed, functions and
classes keep their names. -/
theorem Program.Relabelled.spares
    {program : Program}
    {others : List Stmt}
    {marked : Bool}
    {scope : Scope}
    {outer : List Scope}
    (relabelled : program.Relabelled r)
    (region : Region)
    (places : program.Places (.stmts region.body) (scope :: outer))
    (held : ∀ param ∈ region.params, scope.contains param.lexeme = true)
    (declares : marked = true → region.Declares r.old)
    (alike : List.Forall₂ (Stmt.Alike (.ofTokens (Token.Avoids r.new)))
      region.body others) :
    ∀ statement ∈ region.body, statement.Spares r (marked :: marks) := by
  intro statement member
  cases marked with
  | false => exact Stmt.spares_of_ne fun name _ => rfl
  | true =>
      obtain ⟨analysis, visits, shape⟩ := places
      obtain ⟨after, resolved⟩ := relabelled.compiled.accepts visits
      obtain ⟨absent, apart⟩ := Stmt.apart_of_resolveAll shape
        (relabelled.compiled.part_orderly visits) resolved
      have avoids := Stmt.avoids_of_mem alike statement member
      rcases declares rfl with
        ⟨param, isParam, isOld⟩ | ⟨token, initializer, isDeclared, isOld⟩
      · refine Stmt.spares_of_ne fun name isName => ?_
        refine Relabelling.spelled_of_ne ?_ (avoids name isName) true
        intro same
        have missing := absent statement member name isName
        rw [same, ← isOld, held param isParam] at missing
        cases missing
      · by_cases isVariable : statement = .varDecl token initializer
        · subst isVariable
          trivial
        · refine Stmt.spares_of_ne fun name isName => ?_
          refine Relabelling.spelled_of_ne ?_ (avoids name isName) true
          rw [← isOld]
          exact apart.forall member isDeclared isVariable name isName token rfl

end Marked

namespace Choice

/-- Every chosen scope of a part has the variable. -/
def Suits (chosen : Choice) (name : String) (regionAt? : Site → Option Region) :
    Prop :=
  ∀ site region, chosen site = true → regionAt? site = some region →
    region.Declares name

/-- Every chosen scope of several parts has the variable. -/
def SuitsAll (chosen : Choice) (name : String) (regionOf? : Nat → Site →
    Option Region) : Prop :=
  ∀ child, (chosen.inside child).Suits name (regionOf? child)

end Choice

section Statements

variable {program : Program} {r : Relabelling}

/-- A renamed expression that may be absent is accepted where the expression
is. -/
theorem follows_renamedOptional
    {marks : Marks}
    {value other : Option Expr}
    {before beforeImage : Analysis}
    (relabelled : program.Relabelled r)
    (visits : ∀ expr, value = some expr → program.Visits (.expr expr) before)
    (alike :
      Option.Rel (Expr.Alike (.ofTokens (Token.Avoids r.new))) value other)
    (twin : before.Twin r marks beforeImage) :
    Follows r marks (resolveOptional value)
      (resolveOptional (value.map (Expr.renamed r.toRenaming marks))) before
      beforeImage := by
  cases alike with
  | none => exact .ofPure twin
  | some alike =>
      exact Expr.follows_renamed relabelled _ (visits _ rfl) alike twin

/-- A superclass that is renamed is not the class itself unless it was. -/
theorem SuperclassRef.lexeme_renamed_ne
    {named : SuperclassRef}
    {name : Token}
    (fresh : name.lexeme ≠ r.new)
    (different : named.name.lexeme ≠ name.lexeme)
    (marks : Marks) :
    (named.renamed r.toRenaming marks).name.lexeme ≠ name.lexeme := by
  unfold SuperclassRef.renamed Renaming.token
  dsimp only
  split
  · exact fresh.symm
  · exact different

/-- The heading of a class whose superclass is renamed is accepted where the
heading is. -/
theorem follows_heading
    {marks : Marks}
    {name : Token}
    {superclass other : Option SuperclassRef}
    {methods : List FunctionDecl}
    {before beforeImage : Analysis}
    (relabelled : program.Relabelled r)
    (visits :
      program.Visits (.stmt (.classDecl name superclass methods)) before)
    (alike : Option.Rel (SuperclassRef.Alike (.ofTokens (Token.Avoids r.new)))
      superclass other)
    (fresh : name.lexeme ≠ r.new)
    (spares : r.Spares marks name)
    (twin : before.Twin r marks beforeImage) :
    Follows r marks (heading name superclass)
      (heading name (superclass.map (SuperclassRef.renamed r.toRenaming marks)))
      before
      beforeImage := by
  cases alike with
  | none => exact follows_heading_none twin fresh spares
  | @some named _ alike =>
      intro after headed
      obtain ⟨free, different, -⟩ := heading_some_eq_ok headed
      have visitsNamed := visits.enter (.superclass free different)
      have sameId : (named.renamed r.toRenaming marks).id = named.id := rfl
      exact follows_heading_some twin fresh spares sameId alike.2.2
        (fun _ => SuperclassRef.lexeme_renamed_ne fresh different marks)
        (relabelled.names visitsNamed rfl alike.2.2) after headed

/-- Parameters avoid the name that their tokens avoid. -/
theorem avoids_of_params
    {params others : List Token}
    {name : String}
    (avoids : List.Forall₂ (Token.Avoids name) params others) :
    ∀ param ∈ params, param.lexeme ≠ name := by
  induction avoids with
  | nil =>
      exact nofun
  | cons head _ inductionHypothesis =>
      intro param member
      rcases List.mem_cons.mp member with rfl | further
      · exact head.2
      · exact inductionHypothesis param further

/-- The scope of a function has its parameters. -/
theorem Scope.contains_ofParams
    (params : List Token) :
    ∀ param ∈ params,
      (Scope.ofParams params NameMap.empty).contains param.lexeme = true := by
  intro param member
  have isParam : param.lexeme ∈ params.map Token.lexeme :=
    List.mem_map_of_mem member
  rw [NameMap.contains, Scope.find?_ofParams, if_pos isParam]
  rfl

mutual

/-- A renamed statement is accepted where the statement is. -/
theorem Stmt.follows_renamed
    (relabelled : program.Relabelled r) :
    (statement : Stmt) →
      ∀ {chosen marks other before beforeImage},
        program.Visits (.stmt statement) before →
        Stmt.Alike (.ofTokens (Token.Avoids r.new)) statement other →
        Choice.Suits chosen r.old statement.regionAt? →
        statement.Spares r marks →
        before.Twin r marks beforeImage →
        Follows r marks statement.resolve
          (statement.renamed r.toRenaming chosen marks).resolve
          before beforeImage
  | .print value, _, _, _, _, _, visits, .print alike, _, _, twin =>
      value.follows_renamed relabelled (visits.enter .printed) alike twin
  | .expression value, _, _, _, _, _, visits, .expression alike, _, _, twin =>
      value.follows_renamed relabelled (visits.enter .stated) alike twin
  | .varDecl name initializer, _, marks, _, _, _, visits, .varDecl avoids alike,
    _, _, twin => by
      have spelled := Relabelling.lexeme_token avoids.2 marks.here
      refine (follows_declare twin avoids.2 spelled).andThen
        fun _ _ declares middle => ?_
      obtain ⟨free, rfl⟩ := declare_eq_ok_iff.mp declares
      refine (follows_renamedOptional relabelled ?_ alike middle).andThen
        fun _ _ _ last =>
          follows_define last avoids.2 spelled
      rintro expr rfl
      exact visits.enter (.initializer free)
  | .block body, chosen, _, _, _, _, visits, .block alike, suits, _, twin =>
      .within (chosen [])
        (Stmt.follows_renamedAll relabelled body (visits.enter .block) alike
          (fun child site => suits (child :: site))
          (relabelled.spares ⟨[], body⟩ ⟨_, visits.enter .block, rfl⟩ nofun
            (fun isChosen => suits [] _ isChosen rfl) alike)
          (twin.enter (chosen [])))
  | .conditional condition thenBranch none, _, _, _, _, _, visits,
    .conditional alike alikeThen _,
      suits, _, twin => by
      have orderly := relabelled.compiled.part_orderly visits
      simp only [Part.Orderly, Stmt.Orderly] at orderly
      refine (condition.follows_renamed relabelled (visits.enter .condition)
        alike twin).andThen
        fun _ _ accepted middle => ?_
      exact thenBranch.follows_renamed relabelled
        (visits.enter (.thenBranch accepted)) alikeThen
        (fun site => suits (0 :: site))
          (Stmt.spares_of_declared? orderly.1) middle
  | .conditional condition thenBranch (some elseBranch), _, _, _, _, _, visits,
      .conditional alike alikeThen (.some alikeElse), suits, _, twin => by
      have orderly := relabelled.compiled.part_orderly visits
      simp only [Part.Orderly, Stmt.Orderly] at orderly
      refine (condition.follows_renamed relabelled (visits.enter .condition)
        alike twin).andThen
        fun _ _ accepted middle => ?_
      refine (thenBranch.follows_renamed relabelled
        (visits.enter (.thenBranch accepted)) alikeThen
        (fun site => suits (0 :: site)) (Stmt.spares_of_declared? orderly.1.1)
          middle).andThen
        fun _ _ acceptedThen last => ?_
      exact elseBranch.follows_renamed relabelled
        (visits.enter (.elseBranch accepted acceptedThen)) alikeElse
        (fun site => suits (1 :: site))
        (Stmt.spares_of_declared? orderly.2.1) last
  | .loop condition body, _, _, _, _, _, visits, .loop alike alikeBody, suits,
    _, twin => by
      have orderly := relabelled.compiled.part_orderly visits
      simp only [Part.Orderly, Stmt.Orderly] at orderly
      refine (condition.follows_renamed relabelled (visits.enter .guard) alike
        twin).andThen
        fun _ _ accepted middle => ?_
      exact body.follows_renamed relabelled
        (visits.enter (.repeated accepted)) alikeBody
        (fun site => suits (0 :: site))
          (Stmt.spares_of_declared? orderly.1) middle
  | .funDecl ⟨name, params, body⟩, _, _, _, _, _, visits, .funDecl alike, suits,
    spares, twin => by
      have avoids : name.lexeme ≠ r.new := by
        cases alike with
        | intro avoids _ _ => exact avoids.2
      refine (follows_declare twin avoids spares.symm).andThen
        fun _ _ declares middle => ?_
      obtain ⟨free, rfl⟩ := declare_eq_ok_iff.mp declares
      refine (follows_define middle avoids spares.symm).andThen
        fun _ _ defines last => ?_
      rw [define_eq, defined_declared] at defines
      cases defines
      exact FunctionDecl.follows_renamed relabelled ⟨name, params, body⟩
        (visits.enter (.declaration free)) alike suits last
  | .ret keyword value, _, _, _, _, _, visits, .ret _ alike, _, _, twin => by
      refine (follows_allowReturn twin).andThen fun _ _ allowed middle => ?_
      have inside := inFunction_of_allowReturn allowed
      cases allowReturn_eq_ok allowed
      refine follows_renamedOptional relabelled ?_ alike middle
      rintro expr rfl
      exact visits.enter (.returned inside)
  | .classDecl name superclass methods, _, _, _, _, _, visits,
    .classDecl avoids alike alikeMethods,
      suits, spares, twin =>
      follows_classDecl twin.inClass
        (follows_heading relabelled visits alike avoids.2 spares twin)
        fun middle middleImage headed twinMiddle =>
          .withinClass relabelled.proper twinMiddle _
              fun start startImage isStart twinStart => by
            subst isStart
            exact FunctionDecl.follows_renamedAll relabelled methods
              (visits.enter (.methods headed)) alikeMethods
              (fun child site => suits (child :: site)) twinStart
  | .require _ _, _, _, _, _, _, _, _, _, _, twin => .ofPure twin
termination_by structural statement => statement

/-- Renamed statements are accepted where the statements are. -/
theorem Stmt.follows_renamedAll
    (relabelled : program.Relabelled r) :
    (statements : List Stmt) →
      ∀ {chosen marks others before beforeImage},
        program.Visits (.stmts statements) before →
        List.Forall₂ (Stmt.Alike (.ofTokens (Token.Avoids r.new)))
          statements others →
        Choice.SuitsAll chosen r.old (Stmt.regionOf? statements) →
        (∀ statement ∈ statements, statement.Spares r marks) →
        before.Twin r marks beforeImage →
        Follows r marks (Stmt.resolveAll statements)
          (Stmt.resolveAll
            (Stmt.renamedAll r.toRenaming chosen marks statements)) before
          beforeImage
  | [], _, _, _, _, _, _, _, _, _, twin => .ofPure twin
  | head :: rest, _, _, _, _, _, visits, .cons alikeHead alikeRest, suits,
    spares, twin =>
      (head.follows_renamed relabelled (visits.enter .firstStmt) alikeHead
        (suits 0)
        (spares head (by simp)) twin).andThen fun _ _ accepted middle =>
          Stmt.follows_renamedAll relabelled rest
            (visits.enter (.restStmts accepted)) alikeRest
            (fun child => suits (child + 1))
            (fun statement member => spares statement (by simp [member])) middle
termination_by structural statements => statements

/-- A renamed function is accepted where the function is. -/
theorem FunctionDecl.follows_renamed
    (relabelled : program.Relabelled r) :
    (declaration : FunctionDecl) →
      ∀ {chosen marks other before beforeImage},
        program.Visits (.function declaration) before →
        FunctionDecl.Alike (.ofTokens (Token.Avoids r.new)) declaration other →
        Choice.Suits chosen r.old declaration.regionAt? →
        before.Twin r marks beforeImage →
        Follows r marks declaration.resolve
          (declaration.renamed r.toRenaming chosen marks).resolve
          before beforeImage
  | ⟨name, params, body⟩, chosen, _, _, before, beforeImage, visits,
    .intro _ avoids alike,
      suits, twin => by
      have inside : Analysis.Twin r _ { before with inFunction := true }
          { beforeImage with inFunction := true } :=
        ⟨twin.scopes, rfl, twin.inClass, twin.distances⟩
      refine .withinFunction twin.inFunction (.within (chosen []) ?_)
      refine (follows_declareParameters params (inside.enter (chosen []))
        (avoids_of_params avoids)).andThen
        fun middle _ declares twinMiddle => ?_
      have visitsBody := visits.enter (.body declares)
      refine Stmt.follows_renamedAll relabelled body visitsBody alike
        (fun child site => suits (child :: site)) ?_ twinMiddle
      exact relabelled.spares ⟨params, body⟩
        ⟨_, visitsBody, (declareParameters_eq_ok rfl declares).1⟩
        (Scope.contains_ofParams params)
        (fun isChosen => suits [] _ isChosen rfl) alike
termination_by structural declaration => declaration

/-- Renamed functions are accepted where the functions are. -/
theorem FunctionDecl.follows_renamedAll
    (relabelled : program.Relabelled r) :
    (declarations : List FunctionDecl) →
      ∀ {chosen marks others before beforeImage},
        program.Visits (.functions declarations) before →
        List.Forall₂ (FunctionDecl.Alike (.ofTokens (Token.Avoids r.new)))
          declarations others →
        Choice.SuitsAll chosen r.old (FunctionDecl.regionOf? declarations) →
        before.Twin r marks beforeImage →
        Follows r marks (FunctionDecl.resolveAll declarations)
          (FunctionDecl.resolveAll
            (FunctionDecl.renamedAll r.toRenaming chosen marks declarations))
            before beforeImage
  | [], _, _, _, _, _, _, _, _, twin => .ofPure twin
  | head :: rest, _, _, _, _, _, visits, .cons alikeHead alikeRest, suits,
    twin =>
      (head.follows_renamed relabelled (visits.enter .firstFunction) alikeHead
        (suits 0) twin).andThen fun _ _ accepted middle =>
          FunctionDecl.follows_renamedAll relabelled rest
            (visits.enter (.restFunctions accepted))
            alikeRest (fun child => suits (child + 1)) middle
termination_by structural declarations => declarations

end

/-- A renamed expression that may be absent is a twin of the expression. -/
theorem Expr.twinOptional_renamed
    {marks : Marks}
    {value other : Option Expr}
    (relabelled : program.Relabelled r)
    (places : ∀ expr, value = some expr →
      ∃ scopes, program.Places (.expr expr) scopes)
    (alike :
      Option.Rel (Expr.Alike (.ofTokens (Token.Avoids r.new))) value other) :
    Option.Rel (Expr.Twin r marks) value
      (value.map (Expr.renamed r.toRenaming marks)) := by
  cases alike with
  | none => exact .none
  | some alike =>
      obtain ⟨scopes, placed⟩ := places _ rfl
      exact .some (Expr.twin_renamed relabelled _ placed alike)

/-- A renamed superclass is a twin of the superclass. -/
theorem SuperclassRef.twinOptional_renamed
    {marks : Marks}
    {name : Token}
    {superclass other : Option SuperclassRef}
    {methods : List FunctionDecl}
    {scopes : List Scope}
    (relabelled : program.Relabelled r)
    (places :
      program.Places (.stmt (.classDecl name superclass methods)) scopes)
    (alike : Option.Rel (SuperclassRef.Alike (.ofTokens (Token.Avoids r.new)))
      superclass other) :
    Option.Rel (SuperclassRef.Twin r marks) superclass
      (superclass.map (SuperclassRef.renamed r.toRenaming marks)) := by
  cases alike with
  | none => exact .none
  | some alike =>
      obtain ⟨-, _, visits, -⟩ := relabelled.compiled.places_superclass places
      exact .some ⟨rfl, relabelled.refers visits rfl alike.2.2⟩

mutual

/-- A renamed statement is a twin of the statement. -/
theorem Stmt.twin_renamed
    (relabelled : program.Relabelled r) :
    (statement : Stmt) →
      ∀ {chosen marks other scopes},
        program.Places (.stmt statement) scopes →
        Stmt.Alike (.ofTokens (Token.Avoids r.new)) statement other →
        Choice.Suits chosen r.old statement.regionAt? →
        statement.Spares r marks →
        Stmt.Twin r marks statement
          (statement.renamed r.toRenaming chosen marks)
  | .print value, _, _, _, _, places, .print alike, _, _ =>
      .print (value.twin_renamed relabelled
        (relabelled.compiled.places_included places .printed) alike)
  | .expression value, _, _, _, _, places, .expression alike, _, _ =>
      .expression (value.twin_renamed relabelled
        (relabelled.compiled.places_included places .stated) alike)
  | .varDecl name initializer, _, marks, _, _, places, .varDecl avoids alike, _,
    _ => by
      refine .varDecl (Relabelling.lexeme_token avoids.2 marks.here)
        (Expr.twinOptional_renamed relabelled ?_ alike)
      rintro expr rfl
      exact ⟨_, (relabelled.compiled.places_initializer places).2⟩
  | .block body, chosen, _, _, _, places, .block alike, suits, _ =>
      .block (chosen []) (Stmt.twins_renamed relabelled body
        (Program.Compiled.places_block places) alike
        (fun child site => suits (child :: site))
        (relabelled.spares ⟨[], body⟩
          (Program.Compiled.places_block places) nofun
          (fun isChosen => suits [] _ isChosen rfl) alike))
  | .conditional condition thenBranch none, _, _, _, _, places,
    .conditional alike alikeThen .none,
      suits, _ => by
      obtain ⟨_, visits, -⟩ := id places
      have orderly := relabelled.compiled.part_orderly visits
      simp only [Part.Orderly, Stmt.Orderly] at orderly
      exact .when
        (condition.twin_renamed relabelled
          (relabelled.compiled.places_included places .condition) alike)
        (thenBranch.twin_renamed relabelled
          (relabelled.compiled.places_included places .thenBranch) alikeThen
          (fun site => suits (0 :: site)) (Stmt.spares_of_declared? orderly.1))
  | .conditional condition thenBranch (some elseBranch), _, _, _, _, places,
      .conditional alike alikeThen (.some alikeElse), suits, _ => by
      obtain ⟨_, visits, -⟩ := id places
      have orderly := relabelled.compiled.part_orderly visits
      simp only [Part.Orderly, Stmt.Orderly] at orderly
      exact .conditional
        (condition.twin_renamed relabelled
          (relabelled.compiled.places_included places .condition) alike)
        (thenBranch.twin_renamed relabelled
          (relabelled.compiled.places_included places .thenBranch) alikeThen
          (fun site => suits (0 :: site))
          (Stmt.spares_of_declared? orderly.1.1))
        (elseBranch.twin_renamed relabelled
          (relabelled.compiled.places_included places .elseBranch) alikeElse
          (fun site => suits (1 :: site))
          (Stmt.spares_of_declared? orderly.2.1))
  | .loop condition body, _, _, _, _, places, .loop alike alikeBody, suits, _ =>
      by
        obtain ⟨_, visits, -⟩ := id places
        have orderly := relabelled.compiled.part_orderly visits
        simp only [Part.Orderly, Stmt.Orderly] at orderly
        exact .loop
          (condition.twin_renamed relabelled
            (relabelled.compiled.places_included places .guard) alike)
          (body.twin_renamed relabelled
            (relabelled.compiled.places_included places .repeated) alikeBody
            (fun site => suits (0 :: site))
            (Stmt.spares_of_declared? orderly.1))
  | .funDecl declaration, _, _, _, _, places, .funDecl alike, suits, spares =>
      .funDecl spares (declaration.twin_renamed relabelled
        (relabelled.compiled.places_function places) alike suits)
  | .ret _ value, _, _, _, _, places, .ret _ alike, _, _ => by
      refine .ret (Expr.twinOptional_renamed relabelled ?_ alike)
      rintro expr rfl
      exact ⟨_, relabelled.compiled.places_included places .returned⟩
  | .classDecl _ _ methods, _, _, _, _, places, .classDecl _ alike alikeMethods,
    suits, spares =>
      .classDecl spares
        (SuperclassRef.twinOptional_renamed relabelled places alike)
        (FunctionDecl.twins_renamed relabelled methods
          (relabelled.compiled.places_method places) alikeMethods
          (fun child site => suits (child :: site)))
  | .require _ _, _, _, _, _, _, _, _, _ => .require
termination_by structural statement => statement

/-- Renamed statements are twins of the statements. -/
theorem Stmt.twins_renamed
    (relabelled : program.Relabelled r) :
    (statements : List Stmt) →
      ∀ {chosen marks others scopes},
        program.Places (.stmts statements) scopes →
        List.Forall₂ (Stmt.Alike (.ofTokens (Token.Avoids r.new)))
          statements others →
        Choice.SuitsAll chosen r.old (Stmt.regionOf? statements) →
        (∀ statement ∈ statements, statement.Spares r marks) →
        Stmt.Twins r marks statements
          (Stmt.renamedAll r.toRenaming chosen marks statements)
  | [], _, _, _, _, _, _, _, _ => .nil
  | head :: rest, _, _, _, _, places, .cons alikeHead alikeRest, suits,
    spares =>
      .cons
        (head.twin_renamed relabelled
          (relabelled.compiled.places_included places .firstStmt)
          alikeHead (suits 0) (spares head (by simp)))
        (Stmt.twins_renamed relabelled rest
          (relabelled.compiled.places_rest places) alikeRest
          (fun child => suits (child + 1))
          (fun statement member => spares statement (by simp [member])))
termination_by structural statements => statements

/-- A renamed function is a twin of the function. -/
theorem FunctionDecl.twin_renamed
    (relabelled : program.Relabelled r) :
    (declaration : FunctionDecl) →
      ∀ {chosen marks other scopes},
        program.Places (.function declaration) scopes →
        FunctionDecl.Alike (.ofTokens (Token.Avoids r.new)) declaration other →
        Choice.Suits chosen r.old declaration.regionAt? →
        FunctionDecl.Twin r marks declaration
          (declaration.renamed r.toRenaming chosen marks)
  | ⟨_, params, body⟩, chosen, _, _, _, places, .intro _ avoids alike, suits =>
      by
        have placesBody := relabelled.compiled.places_body places
        refine .intro (chosen []) ?_
          (Stmt.twins_renamed relabelled body placesBody alike
            (fun child site => suits (child :: site)) ?_)
        · rw [List.map_map, List.map_map]
          exact List.map_congr_left fun param member =>
            Relabelling.lexeme_token (avoids_of_params avoids param member)
              (chosen [])
        · exact relabelled.spares ⟨params, body⟩ placesBody
            (Scope.contains_ofParams params)
            (fun isChosen => suits [] _ isChosen rfl) alike
termination_by structural declaration => declaration

/-- Renamed functions are twins of the functions. -/
theorem FunctionDecl.twins_renamed
    (relabelled : program.Relabelled r) :
    (declarations : List FunctionDecl) →
      ∀ {chosen marks others scopes},
        (∀ declaration ∈ declarations, program.Places
          (.function declaration) scopes) →
        List.Forall₂ (FunctionDecl.Alike (.ofTokens (Token.Avoids r.new)))
          declarations others →
        Choice.SuitsAll chosen r.old (FunctionDecl.regionOf? declarations) →
        FunctionDecl.Twins r marks declarations
          (FunctionDecl.renamedAll r.toRenaming chosen marks declarations)
  | [], _, _, _, _, _, _, _ => .nil
  | head :: rest, _, _, _, _, places, .cons alikeHead alikeRest, suits =>
      .cons (head.twin_renamed relabelled (places head (by simp)) alikeHead
        (suits 0)) (FunctionDecl.twins_renamed relabelled rest
          (fun declaration member => places declaration (by simp [member]))
          alikeRest
          (fun child => suits (child + 1)))
termination_by structural declarations => declarations

end

/-- A program with a variable renamed in scopes that have it is accepted with
the same distances, and its statements are twins of the program's. -/
theorem Program.Relabelled.accepts_renamed
    {chosen : Choice}
    {others : List Stmt}
    (relabelled : program.Relabelled r)
    (alike : List.Forall₂ (Stmt.Alike (.ofTokens (Token.Avoids r.new)))
      program.statements others)
    (suits : chosen.SuitsAll r.old (Stmt.regionOf? program.statements)) :
    resolveProgram (Stmt.renamedAll r.toRenaming chosen [] program.statements) =
        .ok program.distances ∧
      Stmt.Twins r [] program.statements
        (Stmt.renamedAll r.toRenaming chosen [] program.statements) := by
  -- At the top level nothing is marked, so functions and classes keep their
  -- names.
  have spares : ∀ statement ∈ program.statements, statement.Spares r [] :=
    fun _ _ => Stmt.spares_of_ne fun _ _ => rfl
  refine ⟨?_, Stmt.twins_renamed relabelled _
    (Compiled.places_statements program) alike suits spares⟩
  have start : Analysis.Twin r [] {} {} := ⟨.nil, rfl, rfl, rfl⟩
  have follows :=
    Stmt.follows_renamedAll relabelled _ .here alike suits spares start
  obtain ⟨final, resolved, same⟩ := relabelled.compiled.resolves
  obtain ⟨finalImage, resolvedImage, twin⟩ := follows final resolved
  unfold resolveProgram
  rw [resolvedImage]
  exact congrArg Except.ok (twin.distances.trans same)

end Statements

end LoxScript
