import LoxScript.Proofs.Scope.Walk
import LoxScript.Proofs.Tree.Parsed

namespace LoxScript

/-!
# What the table of distances says

Once the analysis of an accepted program has ended, the table holds for every
node exactly the distance that the scopes around the node gave when the walk
came to it, and nothing for a node that no local scope declares.  This needs
that nodes have identities of their own.
-/

open Analysis Resolve

/-- The walk goes on to parts of the part it is at. -/
theorem Enters.references_sublist
    {part other : Part}
    {before start : Analysis}
    (enters : Enters part before other start) :
    other.references.Sublist part.references := by
  cases enters with
  | grouping | operand | object | printed | stated | initializer _ | block
  | declaration _
  | returned _ | body _ =>
      simp [Part.references, Expr.references, Stmt.references,
        FunctionDecl.references, optionalReferences]
  | binaryLeft | logicalLeft | callee | holder _ | firstExpr | guard | firstStmt
  | firstFunction =>
      simp [Part.references, Expr.references, Expr.referencesAll,
        Stmt.references, Stmt.referencesAll, FunctionDecl.referencesAll]
  | binaryRight _ | logicalRight _ | assigned | arguments _ | stored
  | restExprs _
  | repeated _ | restStmts _ | restFunctions _ =>
      simp [Part.references, Expr.references, Expr.referencesAll,
        Stmt.references, Stmt.referencesAll, FunctionDecl.referencesAll]
  | @condition _ _ elseBranch _ =>
      cases elseBranch <;> simp [Part.references, Stmt.references]
  | @thenBranch _ _ elseBranch _ _ _ =>
      cases elseBranch with
      | none =>
          simp [Part.references, Stmt.references]
      | some elseBranch =>
          simp only [Part.references, Stmt.references]
          exact (List.sublist_append_right _ _).trans
            (List.sublist_append_left _ _)
  | elseBranch _ _ =>
      simp [Part.references, Stmt.references]
  | superclass _ _ =>
      exact List.sublist_append_left _ _
  | methods _ =>
      simp [Part.references, references_classDecl]

/-- Parts of orderly parts are orderly. -/
theorem Enters.orderly
    {part other : Part}
    {before start : Analysis}
    (enters : Enters part before other start)
    (orderly : part.Orderly) :
    other.Orderly := by
  cases enters with
  | block =>
      simpa [Part.Orderly, Stmt.Orderly] using orderly
  | @thenBranch _ _ elseBranch _ _ _ =>
      cases elseBranch with
      | none =>
          simp only [Part.Orderly, Stmt.Orderly] at orderly
          exact orderly.2
      | some elseBranch =>
          simp only [Part.Orderly, Stmt.Orderly] at orderly
          exact orderly.1.2
  | elseBranch _ _ =>
      simp only [Part.Orderly, Stmt.Orderly] at orderly
      exact orderly.2.2
  | repeated _ =>
      simp only [Part.Orderly, Stmt.Orderly] at orderly
      exact orderly.2
  | declaration _ =>
      simp only [Part.Orderly, Stmt.Orderly] at orderly
      exact orderly.2
  | methods _ =>
      simp only [Part.Orderly, Stmt.Orderly] at orderly
      exact orderly.2
  | firstStmt =>
      simp only [Part.Orderly, Stmt.OrderlyAll] at orderly
      exact orderly.1
  | restStmts _ =>
      simp only [Part.Orderly, Stmt.OrderlyAll] at orderly
      exact orderly.2
  | body _ =>
      simp only [Part.Orderly, FunctionDecl.Orderly] at orderly
      exact orderly.2
  | firstFunction =>
      simp only [Part.Orderly, FunctionDecl.OrderlyAll] at orderly
      exact orderly.1
  | restFunctions _ =>
      simp only [Part.Orderly, FunctionDecl.OrderlyAll] at orderly
      exact orderly.2
  | _ => trivial

/-- What holds wherever the walk of an accepted program comes to. -/
structure Reached (final : Analysis) (start part : Part) (analysis : Analysis) :
    Prop where
  /-- The part is made of nodes of the program. -/
  references : part.references.Sublist start.references
  /-- None of its nodes has a distance yet. -/
  unfiled : ∀ id ∈ part.ids, analysis.distances[id]? = none
  /-- It is accepted, and the distances of its nodes stay what they are from
  then on. -/
  accepted :
    ∃ after, part.resolve analysis = .ok () after ∧
      ∀ id ∈ part.ids, final.distances[id]? = after.distances[id]?

/-- Wherever the walk comes to, the distances filed there are the final ones. -/
theorem Comes.reached
    {start part : Part}
    {initial analysis final : Analysis}
    (comes : Comes start initial part analysis)
    (distinct : start.ids.Nodup)
    (unfiled : ∀ id ∈ start.ids, initial.distances[id]? = none)
    (resolved : start.resolve initial = .ok () final) :
    Reached final start part analysis := by
  induction comes with
  | here =>
      exact ⟨.refl _, unfiled, final, resolved, fun _ _ => rfl⟩
  | enter _ enters inductionHypothesis =>
      obtain ⟨sublist, stillUnfiled, after, accepted, later⟩ :=
        inductionHypothesis
      have distinctHere := (sublist.map Reference.id).nodup distinct
      have smaller := enters.references_sublist
      have within := (smaller.map Reference.id).subset
      have carried := enters.carried distinctHere accepted
      obtain ⟨finish, acceptedInner, laterInner⟩ := carried.accepted
      refine ⟨smaller.trans sublist, ?_, finish, acceptedInner, ?_⟩
      · intro id member
        exact (carried.earlier id member).trans
          (stillUnfiled id (within member))
      · intro id member
        exact (later id (within member)).trans (laterInner id member)

/-- Wherever the walk of an orderly part comes to, the part there is orderly. -/
theorem Comes.orderly
    {start part : Part}
    {initial analysis : Analysis}
    (comes : Comes start initial part analysis)
    (orderly : start.Orderly) :
    part.Orderly := by
  induction comes with
  | here => exact orderly
  | enter _ enters inductionHypothesis =>
      exact enters.orderly inductionHypothesis

/-- The reference that an expression is by itself. -/
def Expr.node? : Expr → Option Reference
  | .reference id name => some ⟨.read, id, name⟩
  | .assign id name _ => some ⟨.write, id, name⟩
  | .thisRef id keyword => some ⟨.this, id, keyword⟩
  | .superRef id keyword _ => some ⟨.super, id, keyword⟩
  | _ => none

/-- The node of an expression is among its references. -/
theorem Expr.node?_mem
    {expr : Expr}
    {node : Reference}
    (isNode : expr.node? = some node) :
    node ∈ expr.references := by
  cases expr <;> simp_all [Expr.node?, Expr.references]

/-- Filing a node's distance. -/
theorem distances_file
    {id : NodeId}
    {name : Token}
    {before after : Analysis}
    (files : file id name before = .ok () after)
    (unfiled : before.distances[id]? = none) :
    after.distances[id]? = Scope.distance? name.lexeme before.scopes := by
  cases files
  cases found : Scope.distance? name.lexeme before.scopes with
  | none => simpa [found] using unfiled
  | some distance => simp [found]

/-- Reading a variable is accepted if the innermost scope does not hold it
unready; its distance is then filed. -/
theorem read_eq_ok
    {id : NodeId}
    {name : Token}
    {before after : Analysis}
    (reads : read id name before = .ok () after) :
    (∀ scope ∈ before.scopes.head?, scope.find? name.lexeme ≠ some false) ∧
      file id name before = .ok () after := by
  obtain ⟨seen, middle, looks, decides⟩ := bind_eq_ok_iff.mp reads
  cases looks
  cases shape : before.scopes with
  | nil =>
      simp only [shape] at decides
      exact ⟨by simp, decides⟩
  | cons scope outer =>
      simp only [shape] at decides
      by_cases unready : scope.find? name.lexeme = some false
      · simp only [unready, beq_self_eq_true, if_true] at decides
        obtain ⟨_, _, fails, -⟩ := bind_eq_ok_iff.mp decides
        cases fails
      · have ready : (scope.find? name.lexeme == some false) = false := by
          simpa using unready
        simp only [ready] at decides
        exact ⟨by simpa using unready, decides⟩

/-- A variable may be read unless it is declared in the innermost scope and not
ready. -/
theorem read_of_ready
    {id : NodeId}
    {name : Token}
    {analysis : Analysis}
    (ready : ∀ scope ∈ analysis.scopes.head?, scope.find? name.lexeme ≠
      some false) :
    read id name analysis = file id name analysis := by
  unfold Resolve.read
  rw [bind_get]
  cases shape : analysis.scopes with
  | nil => rfl
  | cons scope outer =>
      have isReady : (scope.find? name.lexeme == some false) = false := by
        simpa using ready scope (by simp [shape])
      simp only [isReady]
      rfl

/-- Using `this` is accepted inside a class, and its distance is then filed. -/
theorem useThis_eq_ok
    {id : NodeId}
    {keyword : Token}
    {before after : Analysis}
    (uses : useThis id keyword before = .ok () after) :
    before.inClass ≠ .outside ∧ file id keyword before = .ok () after := by
  obtain ⟨seen, middle, looks, decides⟩ := bind_eq_ok_iff.mp uses
  cases looks
  cases context : before.inClass <;> simp only [context] at decides
  · cases decides
  · exact ⟨by simp, decides⟩
  · exact ⟨by simp, decides⟩

/-- Using `super` is accepted inside a class with a superclass, and its distance
is then filed. -/
theorem useSuper_eq_ok
    {id : NodeId}
    {keyword : Token}
    {before after : Analysis}
    (uses : useSuper id keyword before = .ok () after) :
    before.inClass = .derived ∧ file id keyword before = .ok () after := by
  obtain ⟨seen, middle, looks, decides⟩ := bind_eq_ok_iff.mp uses
  cases looks
  cases context : before.inClass <;> simp only [context] at decides
  · cases decides
  · cases decides
  · exact ⟨rfl, decides⟩

/-- An accepted node gets the distance that the scopes around it give. -/
theorem Expr.distances_of_resolve
    {expr : Expr}
    {node : Reference}
    {before after : Analysis}
    (isNode : expr.node? = some node)
    (distinct : (identities expr.references).Nodup)
    (unfiled : before.distances[node.id]? = none)
    (resolved : expr.resolve before = .ok () after) :
    after.distances[node.id]? =
      Scope.distance? node.token.lexeme before.scopes := by
  cases expr with
  | reference id name =>
      cases isNode
      exact distances_file (read_eq_ok resolved).2 unfiled
  | assign id name value =>
      cases isNode
      obtain ⟨⟨⟩, middle, resolvedValue, files⟩ := bind_eq_ok_iff.mp resolved
      have filed := ((value.files_resolve before).ok resolvedValue).1
      have absent := (List.nodup_cons.mp distinct).1
      have stillUnfiled := (filed.distances id absent).trans unfiled
      rw [distances_file files stillUnfiled, filed.scopes]
  | thisRef id keyword =>
      cases isNode
      exact distances_file (useThis_eq_ok resolved).2 unfiled
  | superRef id keyword method =>
      cases isNode
      exact distances_file (useSuper_eq_ok resolved).2 unfiled
  | _ => cases isNode

namespace Program

/-- What is known of a program that was compiled from a source. -/
structure Compiled (program : Program) (first next : NodeId) : Prop where
  handed : Handed first next (Stmt.referencesAll program.statements)
  orderly : Stmt.OrderlyAll program.statements
  resolved : resolveProgram program.statements = .ok program.distances

/-- A program that was compiled from a source is compiled. -/
theorem compiled_of_compile
    {source : ByteArray}
    {first next : NodeId}
    {program : Program}
    (accepted : compile source first = (.ok program, next)) :
    program.Compiled first next :=
  have made := compile_made accepted
  ⟨made.1.1, made.1.2, made.2⟩

variable {program : Program} {first next : NodeId}

namespace Compiled

/-- The analysis of a compiled program succeeds with its distances. -/
theorem resolves
    (compiled : program.Compiled first next) :
    ∃ final, (Part.stmts program.statements).resolve {} = .ok () final ∧
      final.distances = program.distances := by
  have resolved := compiled.resolved
  unfold resolveProgram at resolved
  split at resolved
  · rename_i final yields
    exact ⟨final, yields, Except.ok.inj resolved⟩
  · cases resolved

/-- Wherever the analysis of a compiled program comes to, the distances filed
there are those of the program. -/
theorem reached
    (compiled : program.Compiled first next)
    {part : Part}
    {analysis : Analysis}
    (visits : program.Visits part analysis) :
    ∃ final, final.distances = program.distances ∧
      Reached final (.stmts program.statements) part analysis := by
  obtain ⟨final, resolved, same⟩ := compiled.resolves
  refine ⟨final, same, ?_⟩
  refine Comes.reached visits compiled.handed.distinct ?_ resolved
  intro id _
  exact Std.TreeMap.getElem?_emptyc

/-- Every part that the analysis of a compiled program comes to is accepted. -/
theorem accepts
    (compiled : program.Compiled first next)
    {part : Part}
    {analysis : Analysis}
    (visits : program.Visits part analysis) :
    ∃ after, part.resolve analysis = .ok () after := by
  obtain ⟨final, -, reached⟩ := compiled.reached visits
  obtain ⟨after, accepted, -⟩ := reached.accepted
  exact ⟨after, accepted⟩

/-- A node's entry in the table is the distance that the scopes around it gave,
if one of them declares its name. -/
theorem distance_eq
    (compiled : program.Compiled first next)
    {expr : Expr}
    {node : Reference}
    {analysis : Analysis}
    (visits : program.Visits (.expr expr) analysis)
    (isNode : expr.node? = some node) :
    program.distances[node.id]? =
      Scope.distance? node.token.lexeme analysis.scopes := by
  obtain ⟨final, same, reached⟩ := compiled.reached visits
  obtain ⟨after, accepted, later⟩ := reached.accepted
  have member : node.id ∈ (Part.expr expr).ids :=
    List.mem_map_of_mem (Expr.node?_mem isNode)
  have distinct :=
    (reached.references.map Reference.id).nodup compiled.handed.distinct
  rw [← same, later node.id member]
  exact Expr.distances_of_resolve isNode distinct
    (reached.unfiled node.id member) accepted

/-- A node of a compiled program has an identity from its interval and is
spelled as what it is. -/
theorem node_handed
    (compiled : program.Compiled first next)
    {expr : Expr}
    {node : Reference}
    {analysis : Analysis}
    (visits : program.Visits (.expr expr) analysis)
    (isNode : expr.node? = some node) :
    (first ≤ node.id ∧ node.id < next) ∧ node.Spelled := by
  obtain ⟨final, -, reached⟩ := compiled.reached visits
  have member := reached.references.subset (Expr.node?_mem isNode)
  exact ⟨compiled.handed.within node member,
    compiled.handed.spelled node member⟩

/-- The table of a compiled program has no entries but for its own nodes. -/
theorem unfiled
    (compiled : program.Compiled first next)
    {id : NodeId}
    (outside : id < first ∨ next ≤ id) :
    program.distances[id]? = none := by
  obtain ⟨final, resolved, same⟩ := compiled.resolves
  have absent : id ∉ (Part.stmts program.statements).ids := by
    intro member
    obtain ⟨reference, isReference, rfl⟩ := List.mem_map.mp member
    obtain ⟨above, below⟩ := compiled.handed.within reference isReference
    rcases outside with before | beyond
    · exact Nat.lt_irrefl _ (Nat.lt_of_lt_of_le before above)
    · exact Nat.lt_irrefl _ (Nat.lt_of_lt_of_le below beyond)
  rw [← same, Part.distances_of_resolve resolved absent]
  exact Std.TreeMap.getElem?_emptyc

/-- Every part that the analysis of a compiled program comes to is orderly. -/
theorem part_orderly
    (compiled : program.Compiled first next)
    {part : Part}
    {analysis : Analysis}
    (visits : program.Visits part analysis) :
    part.Orderly :=
  Comes.orderly visits compiled.orderly

end Compiled

end Program

end LoxScript
