import LoxScript.Proofs.Machine.Nodes
import LoxScript.Proofs.Session.Life

namespace LoxScript

/-!
# Local variables in sessions

In every session, wherever a run comes to, the frames around a node are those of
the scopes that the analysis had at the node, and whatever is read is where its
distance leads.  An assignment finds its variable unless it stands in the
initializer of that variable.
-/

open Run

/-- The frame at the node's distance has what the node refers to. -/
structure Machine.Provides (machine : Machine) (node : Reference)
    (distance : Nat) : Prop where
  held :
    ∃ frame, machine.store.ancestor? machine.active distance = some frame ∧
      machine.store.holds frame node.token.lexeme = true
  this :
    node.kind = .this →
      ∃ object, machine.store.lookupAt? machine.active distance "this" =
        some (.object object)
  super :
    node.kind = .super →
      ∃ inner superclass object, distance = inner + 1 ∧
        machine.store.lookupAt? machine.active distance "super" =
          some (.blueprint superclass) ∧
        machine.store.lookupAt? machine.active inner "this" =
          some (.object object)

/-- The frame at the distance of a variable that is read, of `this` or of
`super` has what the node refers to. -/
theorem Machine.Stands.provides
    {offered : ByteArray → Prop}
    {machine : Machine}
    {expr : Expr}
    {program : Program}
    {analysis : Analysis}
    {node : Reference}
    {distance : Nat}
    (stands : machine.Stands offered expr program analysis)
    (isNode : expr.node? = some node)
    (reads : node.kind ≠ .write)
    (found : machine.distances[node.id]? = some distance) :
    machine.Provides node distance := by
  cases expr with
  | reference id name =>
      cases isNode
      exact ⟨stands.reference found, nofun, nofun⟩
  | thisRef id keyword =>
      cases isNode
      obtain ⟨spelled, _, frame, object, isDistance, isFrame, isObject⟩ :=
        stands.thisRef
      cases isDistance.symm.trans found
      refine ⟨⟨frame, isFrame, ?_⟩, fun _ => ⟨object, ?_⟩, nofun⟩
      · rw [spelled]
        exact Store.holds_iff.mpr ⟨_, isObject⟩
      · rw [Store.lookupAt?_eq isFrame, isObject]
  | superRef id keyword method =>
      cases isNode
      obtain ⟨spelled, inner, outerFrame, innerFrame, superclass, object,
        isDistance, isOuter, isClass, isInner, isObject⟩ := stands.superRef
      cases isDistance.symm.trans found
      refine ⟨⟨outerFrame, isOuter, ?_⟩, nofun,
        fun _ => ⟨inner, superclass, object, rfl, ?_, ?_⟩⟩
      · rw [spelled]
        exact Store.holds_iff.mpr ⟨_, isClass⟩
      · rw [Store.lookupAt?_eq isOuter, isClass]
      · rw [Store.lookupAt?_eq isInner, isObject]
  | assign id name value =>
      cases isNode
      exact absurd rfl reads
  | _ => cases isNode

namespace Session

variable {offered : ByteArray → Prop} {session : Session} {source : ByteArray}
variable {stopping : Stopping} {steps : Nat} {task : Task} {machine : Machine}

/-- Wherever a session comes to, there are as many frames above the globals as
the analysis had scopes at the node; a variable that is read, `this` and `super`
are in the frame at their distance, and neither they nor the result of an
initializer fail for want of a local. -/
theorem reads_find_locals
    (lives : session.Lives offered)
    (isOffered : offered source)
    (reaches : session.Reaches stopping steps source task machine) :
    (∀ expr, task = .eval expr →
      ∃ program analysis,
        machine.Knows offered program ∧ program.Visits (.expr expr) analysis ∧
          (∀ distance,
            machine.store.ancestor? machine.active distance = some globalFrame ↔
              distance = analysis.scopes.length) ∧
          ∀ node, expr.node? = some node → node.kind ≠ .write →
            (∀ distance, machine.distances[node.id]? = some distance →
              machine.Provides node distance) ∧
            ∀ fuel, FindsLocals (eval session.context fuel expr) machine) ∧
      ∀ function flow, task = .result function flow →
        FindsLocals (callResult function flow) machine := by
  obtain ⟨sound, ready⟩ := reaches.ready lives isOffered
  refine ⟨?_, ?_⟩
  · rintro expr rfl
    obtain ⟨program, analysis, stands⟩ := ready.stands
    refine ⟨program, analysis, stands.knows, stands.visits,
      stands.depth sound, ?_⟩
    intro node isNode reads
    exact ⟨fun distance found => stands.provides isNode reads found,
      stands.findsLocals isNode reads session.context⟩
  · rintro function flow rfl
    exact findsLocals_callResult ready.1 flow

/-- A session whose disk holds nothing. -/
def quiet : Session :=
  bare (fun _ => .error .missing) {} { clock := 0, entropy := fun _ => 0 }

theorem lives_quiet : quiet.Lives fun _ => True :=
  .bare fun _ _ _ => trivial

/-- What was compiled is a block that declares a variable and then reads one. -/
def isReadInBlock : Except StaticError Program × NodeId → Bool
  | (.ok ⟨[.block [.varDecl _ none, .expression (.reference _ _)]], _⟩, _) =>
      true
  | _ => false

/-- In a block, a variable that was declared there is found at distance zero. -/
theorem reads_find_locals_in_block :
    ∃ id name machine,
      quiet.Reaches .heeding 9 "\x7b var a; a; \x7d".toUTF8
        (.eval (.reference id name)) machine ∧
        ∃ (program : Program) (analysis : Analysis),
          program.Visits (.expr (.reference id name)) analysis ∧
            (∀ distance,
              machine.store.ancestor? machine.active distance =
                some globalFrame ↔
                distance = analysis.scopes.length) ∧
            (∀ distance, machine.distances[id]? = some distance →
              machine.Provides ⟨.read, id, name⟩ distance) ∧
            ∀ fuel, FindsLocals (eval quiet.context fuel (.reference id name))
              machine := by
  have shape : isReadInBlock (Program.compile "\x7b var a; a; \x7d".toUTF8 0) =
      true := by
    decide +kernel
  unfold isReadInBlock at shape
  split at shape
  · rename_i declared id name distances next compiles
    have accepted : quiet.machine.compile "\x7b var a; a; \x7d".toUTF8 =
        (.ok
            ⟨[.block
                [.varDecl declared none, .expression (.reference id name)]],
              distances⟩,
          { quiet.machine with nextNode := next }) := by
      simp only [Machine.compile]
      rw [show quiet.machine.nextNode = 0 from rfl, compiles]
    have declares {machine : Machine} :
        ∃ after, exec quiet.context 1 (.varDecl declared none) machine =
          .ok .normal after :=
      ⟨_, rfl⟩
    obtain ⟨after, yields⟩ := declares
    have reaches : quiet.Reaches .heeding 9 "\x7b var a; a; \x7d".toUTF8
        (.eval (.reference id name)) after :=
      ⟨_, _, _, _, accepted, .here rfl,
        .call 1 (.call 1
          (.call 1 (.call 1 .here (.block rfl)) (.restStmts yields)) .firstStmt)
          .stated⟩
    obtain ⟨program, analysis, -, visits, depth, nodes⟩ :=
      (reads_find_locals lives_quiet trivial reaches).1 _ rfl
    have isRead : ReferenceKind.read ≠ .write := by decide
    obtain ⟨provides, finds⟩ := nodes _ rfl isRead
    exact ⟨id, name, after, reaches, program, analysis, visits, depth, provides,
      finds⟩
  · cases shape

/-- Once the value of an assignment is there, the assignment fails for want of
its local exactly if it stands in the initializer of that local. -/
theorem assignment_fails_iff_in_own_initializer
    {id : NodeId}
    {name : Token}
    {value : Expr}
    (lives : session.Lives offered)
    (isOffered : offered source)
    (reaches :
      session.Reaches stopping steps source
        (.eval (.assign id name value)) machine) :
    ∃ program analysis,
      machine.Knows offered program ∧
        program.Visits (.expr (.assign id name value)) analysis ∧
        ∀ fuel stored after,
          eval session.context fuel value machine = .ok stored after →
          (program.InOwnInitializer name
            (.expr (.assign id name value)) analysis →
            assignVariable id name stored after =
              .error (.failed (.unresolvedLocal name.lexeme 0 name.line))
                after) ∧
          (¬ program.InOwnInitializer name
            (.expr (.assign id name value)) analysis →
            FindsLocals (assignVariable id name stored) after ∧
              ∀ distance, after.distances[id]? = some distance →
                ∃ frame, after.store.ancestor? after.active distance =
                  some frame ∧
                  after.store.holds frame name.lexeme = true) := by
  obtain ⟨sound, ready⟩ := reaches.ready lives isOffered
  obtain ⟨program, analysis, stands⟩ := ready.stands
  refine ⟨program, analysis, stands.knows, stands.visits, ?_⟩
  intro fuel stored after yields
  refine ⟨fun inside => stands.assign_fails sound inside yields,
    fun outside => ?_⟩
  have held := stands.assign_succeeds sound outside yields
  exact ⟨findsLocals_assignVariable held stored, held⟩

/-- What was compiled is a block that assigns to a variable in an
initializer. -/
def isAssignmentInInitializer : Except StaticError Program × NodeId → Bool
  | (.ok ⟨[.block [.varDecl _ (some (.grouping (.assign _ _ _)))]], _⟩, _) =>
      true
  | _ => false

/-- The run failed since the active frame did not have its local `a`. -/
def failsForLocal : Outcome → Bool
  | .failed (.runtime (.unresolvedLocal name distance _)) =>
      name == "a" && distance == 0
  | _ => false

/-- A block that assigns to a variable in the initializer of that variable is
accepted, and its run fails for want of the local. -/
theorem assignment_fails_in_own_initializer :
    (∃ line, (quiet.run .heeding 9 "\x7b var a = (a = nil); \x7d".toUTF8).1 =
      .failed (.runtime (.unresolvedLocal "a" 0 line))) ∧
    ∃ id name value machine,
      quiet.Reaches .heeding 9 "\x7b var a = (a = nil); \x7d".toUTF8
          (.eval (.assign id name value)) machine ∧
        ∃ (program : Program) (analysis : Analysis),
          program.Visits (.expr (.assign id name value)) analysis ∧
            ∀ fuel stored after,
              eval quiet.context fuel value machine = .ok stored after →
              (program.InOwnInitializer name
                (.expr (.assign id name value)) analysis →
                assignVariable id name stored after =
                  .error (.failed (.unresolvedLocal name.lexeme 0 name.line))
                    after) ∧
              (¬ program.InOwnInitializer name
                (.expr (.assign id name value)) analysis →
                FindsLocals (assignVariable id name stored) after) := by
  refine ⟨?_, ?_⟩
  · have ends :
        failsForLocal
          (quiet.run .heeding 9 "\x7b var a = (a = nil); \x7d".toUTF8).1 =
          true := by
      decide +kernel
    unfold failsForLocal at ends
    split at ends
    · rename_i name distance line isFailed
      obtain ⟨rfl, rfl⟩ : name = "a" ∧ distance = 0 := by simpa using ends
      exact ⟨line, isFailed⟩
    · cases ends
  · have shape :
        isAssignmentInInitializer
          (Program.compile "\x7b var a = (a = nil); \x7d".toUTF8 0) = true := by
      decide +kernel
    unfold isAssignmentInInitializer at shape
    split at shape
    · rename_i declared id name value distances next compiles
      have accepted :
          quiet.machine.compile "\x7b var a = (a = nil); \x7d".toUTF8 =
          (.ok
              ⟨[.block
                  [.varDecl declared
                    (some (.grouping (.assign id name value)))]],
                distances⟩,
            { quiet.machine with nextNode := next }) := by
        simp only [Machine.compile]
        rw [show quiet.machine.nextNode = 0 from rfl, compiles]
      have reaches : ∃ machine,
          quiet.Reaches .heeding 9 "\x7b var a = (a = nil); \x7d".toUTF8
          (.eval (.assign id name value)) machine :=
        ⟨_, _, _, _, _, accepted, .here rfl,
          .call 1 (.call 1 (.call 1 (.call 1 .here (.block rfl)) .firstStmt)
            .initialized) .grouping⟩
      obtain ⟨machine, reached⟩ := reaches
      obtain ⟨program, analysis, -, visits, outcome⟩ :=
        assignment_fails_iff_in_own_initializer lives_quiet trivial reached
      refine ⟨id, name, value, machine, reached, program, analysis, visits, ?_⟩
      intro fuel stored after yields
      obtain ⟨fails, finds⟩ := outcome fuel stored after yields
      exact ⟨fails, fun outside => (finds outside).1⟩
    · cases shape

end Session

end LoxScript
