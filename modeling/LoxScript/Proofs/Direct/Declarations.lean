import LoxScript.Proofs.Direct.Evaluation
import LoxScript.Proofs.Direct.Steps

namespace LoxScript

/-!
# Calls and declarations with frames for iterations and without

What is called and declared sees the same variables on both sides, and so do the
programs of required sources once they are loaded, whether their iterations have
scopes or not.
-/

open Run

variable {iterations : Iterations} {natives : List HostNative}
variable {machine image after afterImage : Machine} {marks : Marks}

section Calls

/-- The result of an operator. -/
theorem coincide_ofExcept
    {result : Except RuntimeError Value}
    (folded : machine.Folded iterations image natives)
    (isAtom : ∀ value, result = .ok value → value.IsAtom) :
    Coincide iterations natives (Run.ofExcept result) (Run.ofExcept result)
      machine image (Value.Hosted iterations) := by
  cases result with
  | error error => exact .ofThrow folded _
  | ok value => exact .ofPure folded (isAtom value rfl).hosted

/-- Checking the number of arguments. -/
theorem coincide_checkArity
    (folded : machine.Folded iterations image natives)
    (callee : Callee)
    (arguments : List Value)
    (paren : Token) :
    Coincide iterations natives (checkArity callee arguments paren)
      (checkArity callee arguments paren) machine image
      fun after afterImage _ =>
        after = machine ∧ afterImage = image ∧
          callee.arity = arguments.length := by
  unfold checkArity
  split
  · rename_i complete
    exact .ofPure folded ⟨rfl, rfl, complete⟩
  · exact .ofThrow folded _

/-- Calling a native. -/
theorem coincide_callNative
    {context : Context}
    {arguments : List Value}
    (folded : machine.Folded iterations image context.natives)
    (areHosted :
      ∀ argument ∈ arguments, argument.Hosted iterations machine image)
    (native : Native) :
    Coincide iterations context.natives (callNative context native arguments)
      (callNative context native arguments) machine image
      (Value.Hosted iterations) := by
  obtain ⟨result, world, performed⟩ :
      ∃ result world,
        performNative context.natives native.slot arguments machine.world =
        (result, world) := ⟨_, _, rfl⟩
  have passes :=
    folded.pass (Machine.respected_retains.change (.perform machine world))
    (Machine.respected_retains.change (.perform image world)) folded.store
      folded.output rfl
    folded.requiring folded.nextNode folded.filed folded.holds
  cases result with
  | error reason =>
      have fails {start : Machine} (same : start.world = machine.world) :
          callNative context native arguments start =
            .error (.failed (.native native.name reason))
              { start with world := world } := by
        refine (bind_of_ok (modifyGet_eq _ _)).trans ?_
        simp only [same, performed]
        rfl
      exact Mirrors.ofError (fails rfl) (fails folded.world) ⟨rfl, passes⟩
  | ok value =>
      have yields {start : Machine} (same : start.world = machine.world) :
          callNative context native arguments start =
            .ok value { start with world := world } := by
        refine (bind_of_ok (modifyGet_eq _ _)).trans ?_
        simp only [same, performed]
        rfl
      refine .ofOk (yields rfl) (yields folded.world) passes
        (passes.hosted folded ?_)
      obtain ⟨host, member, body⟩ := performNative_eq_ok performed
      rcases folded.natives host member _ _ _ _ body with
        isAtom | passed | isHosted
      · exact isAtom.hosted
      · exact areHosted value passed
      · exact isHosted

/-- The value of a call. -/
theorem coincide_callResult
    {flow : Flow}
    (folded : machine.Folded iterations image natives)
    (isFlow : flow.Hosted iterations machine image)
    (function : Function) :
    Coincide iterations natives (callResult function flow)
      (callResult function flow) machine image (Value.Hosted iterations) := by
  unfold callResult
  split
  · refine .look ?_
    rw [folded.store.bindings]
    cases isThis : machine.store.lookup? function.closure "this" with
    | some value => exact .ofPure folded (folded.holds.values _ _ value isThis)
    | none => exact .ofThrow folded _
  · cases flow with
    | normal => exact .ofPure folded trivial
    | returned value => exact .ofPure folded isFlow

end Calls

section Declarations

/-- Finding the superclass of a class, if it has one. -/
theorem coincide_findSuperclass
    {superclass : Option SuperclassRef}
    (folded : machine.Folded iterations image natives)
    (finds :
      ∀ named ∈ superclass, machine.Finds image named.id named.name.lexeme)
    (name : Token) :
    Coincide iterations natives (findSuperclass name superclass)
      (findSuperclass name superclass) machine image
      fun after afterImage parent =>
        parent.isSome = superclass.isSome ∧
          ∀ found ∈ parent, Class.Hosted iterations after afterImage found := by
  cases superclass with
  | none => exact .ofPure folded ⟨rfl, nofun⟩
  | some named =>
      unfold findSuperclass readSuperclass
      simp only [map_eq_pure_bind, bind_assoc]
      refine (coincide_readVariable folded (finds named rfl)).andThen ?_
      intro value after afterImage _ passes hosted
      cases value with
      | blueprint found =>
          refine .ofPure passes.folded ⟨rfl, ?_⟩
          rintro _ ⟨⟩
          exact hosted
      | _ => exact .ofThrow passes.folded _

/-- The scopes around the methods of a class, but for the one of `this`. -/
def Marks.ofParent (marks : Marks) : Bool → Marks
  | true => false :: marks
  | false => marks

/-- Around the methods of a class there is one scope more than that. -/
theorem Marks.ofClass_eq
    (superclass : Option SuperclassRef)
    (marks : Marks) :
    ofClass superclass marks = [false] ++ marks.ofParent superclass.isSome := by
  cases superclass <;> rfl

/-- The frame that the methods of a class see. -/
theorem coincide_methodFrame
    {parent : Option Class}
    (folded : machine.Folded iterations image natives)
    (stationed : machine.Stationed image marks)
    (kept : marks.here = false)
    (isParent : ∀ found ∈ parent, Class.Hosted iterations machine image found) :
    Coincide iterations natives (methodFrame parent) (methodFrame parent)
      machine image
      fun after afterImage closure =>
        after.store.Aligned afterImage.store (marks.ofParent parent.isSome)
          closure closure := by
  refine .look ?_
  have same : image.active = machine.active := stationed.same kept
  unfold Machine.Stationed at stationed
  rw [same] at stationed ⊢
  cases parent with
  | none => exact .ofPure folded stationed
  | some found =>
      have isSuper : (Value.blueprint found).Hosted iterations machine image :=
        isParent found rfl
      exact coincide_allocate folded (hosted_single isSuper) stationed

/-- Making the methods of a class. -/
theorem coincide_closeOverMethods
    {methods : List FunctionDecl}
    {table : NameMap Function}
    {closure : FrameId}
    (folded : machine.Folded iterations image natives)
    (aligned : machine.store.Aligned image.store marks closure closure)
    (guides :
      ∀ use ∈ FunctionDecl.usesAll iterations ([false] ++ marks) methods,
        machine.Guides image use)
    (isTable :
      ∀ name method, table.find? name = some method →
        method.Hosted iterations machine image [false]) :
    Coincide iterations natives (closeOverMethods closure table methods)
      (closeOverMethods closure table methods) machine image
      fun after afterImage made =>
        ∀ name method, made.find? name = some method →
          method.Hosted iterations after afterImage [false] := by
  induction methods generalizing machine image table with
  | nil => exact .ofPure folded isTable
  | cons declaration rest inductionHypothesis =>
      simp only [FunctionDecl.usesAll, List.mem_append] at guides
      refine (coincide_closeOver folded aligned [false]
        (fun use member => guides use (.inl member)) _).andThen ?_
      intro method after afterImage _ passes isMethod
      refine inductionHypothesis passes.folded (passes.aligned folded aligned)
        (fun use member => passes.guides folded (guides use (.inr member))) ?_
      intro name wanted found
      rw [NameMap.find?_insert] at found
      split at found
      · cases found
        exact isMethod
      · exact passes.function folded (isTable name wanted found)

/-- Declaring a class whose superclass is found. -/
theorem coincide_establishClass
    {methods : List FunctionDecl}
    {parent : Option Class}
    (folded : machine.Folded iterations image natives)
    (stationed : machine.Stationed image marks)
    (kept : marks.here = false)
    (isParent : ∀ found ∈ parent, Class.Hosted iterations machine image found)
    (guides :
      ∀ use ∈ FunctionDecl.usesAll iterations
        ([false] ++ marks.ofParent parent.isSome) methods,
        machine.Guides image use)
    (name : Token) :
    Coincide iterations natives (establishClass name methods parent)
      (establishClass name methods parent) machine image fun _ _ _ => True := by
  have isNil : Value.nil.Hosted iterations machine image := trivial
  refine (coincide_define folded stationed kept isNil name.lexeme).andThen ?_
  intro _ machine₁ image₁ _ passes₁ _
  have isParent₁ : ∀ found ∈ parent,
      Class.Hosted iterations machine₁ image₁ found :=
    fun found member => passes₁.blueprint folded (isParent found member)
  refine (coincide_methodFrame passes₁.folded
    (passes₁.stationed folded stationed) kept isParent₁).andThen ?_
  intro closure machine₂ image₂ _ passes₂ aligned
  have passes₁₂ := passes₁.trans passes₂
  refine (coincide_closeOverMethods passes₂.folded aligned
    (fun use member => passes₁₂.guides folded (guides use member))
    fun _ _ absent => by
      cases absent).andThen ?_
  intro table machine₃ image₃ _ passes₃ isTable
  refine (coincide_freshIdentity passes₃.folded).andThen ?_
  intro identity machine₄ image₄ _ passes₄ _
  have passes := (passes₁₂.trans passes₃).trans passes₄
  refine coincide_define passes₄.folded (passes.stationed folded stationed) kept
    ?_ name.lexeme
  intro wanted method isMethod
  have own {method : Function} (isOwn : table.find? wanted = some method) :
      method.Hosted iterations machine₄ image₄ [false] :=
    passes₄.function passes₃.folded (isTable wanted method isOwn)
  cases parent with
  | none => exact own isMethod
  | some superclass =>
      simp only [Class.findMethod?] at isMethod
      split at isMethod
      · rename_i isOwn
        cases isMethod
        exact own isOwn
      · exact passes.function folded
          (isParent superclass rfl wanted method isMethod)

/-- Declaring a class. -/
theorem coincide_declareClass
    {superclass : Option SuperclassRef}
    {methods : List FunctionDecl}
    (folded : machine.Folded iterations image natives)
    (stationed : machine.Stationed image marks)
    (kept : marks.here = false)
    (finds :
      ∀ named ∈ superclass, machine.Finds image named.id named.name.lexeme)
    (guides :
      ∀ use ∈ FunctionDecl.usesAll iterations
        (Marks.ofClass superclass marks) methods, machine.Guides image use)
    (name : Token) :
    Coincide iterations natives (declareClass name superclass methods)
      (declareClass name superclass methods) machine image
      fun _ _ _ => True := by
  rw [declareClass_eq]
  refine (coincide_findSuperclass folded finds name).andThen ?_
  rintro parent after afterImage - passes ⟨inherits, isParent⟩
  rw [Marks.ofClass_eq, ← inherits] at guides
  exact coincide_establishClass passes.folded
    (passes.stationed folded stationed) kept isParent
    (fun use member => passes.guides folded (guides use member)) name

/-- Declaring a function. -/
theorem coincide_declareFunction
    {declaration : FunctionDecl}
    (folded : machine.Folded iterations image natives)
    (stationed : machine.Stationed image marks)
    (kept : marks.here = false)
    (guides : ∀ use ∈ declaration.uses iterations marks,
      machine.Guides image use) :
    Coincide iterations natives (declareFunction declaration)
      (declareFunction declaration) machine image fun _ _ _ => True := by
  refine .look ?_
  have same : image.active = machine.active := stationed.same kept
  have aligned := stationed
  unfold Machine.Stationed at aligned
  rw [same] at aligned ⊢
  refine (coincide_closeOver folded aligned [] guides false).andThen ?_
  intro function after afterImage _ passes isFunction
  have isValue : (Value.function function).Hosted iterations after afterImage :=
    isFunction
  exact coincide_define passes.folded (passes.stationed folded stationed)
    kept isValue _

end Declarations

section Loading

variable {source : ByteArray} {program direct : Program} {next : NodeId}

/-- Only the nodes that are handed out have distances in a program without
scopes for iterations. -/
theorem Program.Folded.unfiled
    {first : NodeId}
    (programs : program.Folded iterations direct)
    (compiled : program.Compiled first next)
    {id : NodeId}
    (outside : id < first ∨ next ≤ id) :
    direct.distances[id]? = none :=
  (programs.filed id).mpr (compiled.unfiled outside)

/-- Both machines load a program, the one with scopes for iterations and the
other without. -/
theorem Machine.Folded.load
    (folded : machine.Folded iterations image natives)
    (unfiled : machine.Unfiled)
    (accepted : Program.compile source machine.nextNode = (.ok program, next))
    (programs : program.Folded iterations direct) :
    Machine.Passes iterations natives machine image (machine.load program next)
        (image.load direct next) ∧
      ∀ use ∈ Stmt.usesAll iterations [] program.statements,
        (machine.load program next).Guides (image.load direct next) use := by
  have compiled := Program.compiled_of_compile accepted
  have rises := Program.compile_rises source machine.nextNode
  rw [accepted] at rises
  have unfiledImage : image.Unfiled := fun id above =>
    (folded.filed id).mpr (unfiled id (folded.nextNode ▸ above))
  have retainsImage : image.Retains (image.load direct next) := by
    refine ⟨⟨Nat.le_refl _, fun _ _ => rfl, rfl⟩,
      .ofUnfiled (folded.nextNode ▸ rises) ?_⟩
    rw [folded.nextNode]
    exact fun id outside => programs.unfiled compiled outside
  refine ⟨folded.pass
    (Machine.respected_retains.change (.load machine accepted)) retainsImage
    folded.store folded.output folded.world folded.requiring rfl ?_
      folded.holds, ?_⟩
  · intro id
    rw [Machine.getElem?_load, Machine.getElem?_load, Option.or_eq_none_iff,
      Option.or_eq_none_iff, programs.filed, folded.filed]
  · intro use member
    have inProgram : use.2 ∈ Stmt.referencesAll program.statements := by
      rw [← Stmt.map_usesAll iterations program.statements []]
      exact List.mem_map_of_mem member
    obtain ⟨above, below⟩ := compiled.handed.within use.2 inProgram
    refine ⟨below, ?_, ?_⟩
    · rw [unfiled.loaded program next above,
        unfiledImage.loaded direct next (folded.nextNode ▸ above)]
      exact programs.distances use member
    · rw [unfiled.loaded program next above]
      exact programs.unmarked use member

/-- Both machines reject a source. -/
theorem Machine.Folded.reject
    (folded : machine.Folded iterations image natives)
    (rises : machine.nextNode ≤ next) :
    Machine.Passes iterations natives machine image
      { machine with nextNode := next } { image with nextNode := next } :=
  folded.pass ⟨⟨Nat.le_refl _, fun _ _ => rfl, rfl⟩, .hand rises⟩
    ⟨⟨Nat.le_refl _, fun _ _ => rfl, rfl⟩, .hand (folded.nextNode ▸ rises)⟩
    folded.store folded.output folded.world folded.requiring rfl folded.filed
    folded.holds

/-- A source is compiled in one step, without scopes for iterations. -/
theorem modifyGet_compileDirectly
    {verdict : Except StaticError Program}
    (outcome : Program.compileDirectly iterations source image.nextNode =
      (verdict, next)) :
    (modifyGet fun machine => machine.compileDirectly iterations source :
      Run _) image = .ok verdict { image with nextNode := next } := by
  rw [modifyGet_eq]
  simp only [Machine.compileDirectly, outcome]

/-- Loading a required source: both sides load the same statements, and their
nodes lead to the same variables. -/
theorem mirrors_loadRequired
    (folded : machine.Folded iterations image natives)
    (unfiled : machine.Unfiled)
    (context : Context)
    (keyword : Token)
    (path : String) :
    Mirrors (loadRequiredBy Machine.compile context keyword path)
      (loadRequiredBy (Machine.compileDirectly iterations) context keyword path)
      machine image
      (fun program after direct afterImage =>
        direct.statements = program.statements ∧
          Machine.Passes iterations natives machine image after afterImage ∧
          ∀ use ∈ Stmt.usesAll iterations [] program.statements,
            after.Guides afterImage use)
      (fun halt after haltImage afterImage =>
        haltImage = halt ∧ Machine.Passes iterations natives machine image after
          afterImage) := by
  unfold loadRequiredBy
  extract_lets failWith goOn goOnImage
  refine Mirrors.look ?_
  rw [folded.requiring]
  split
  · exact Mirrors.ofThrow ⟨rfl, folded.stay⟩
  · unfold goOn goOnImage
    split
    · exact Mirrors.ofThrow ⟨rfl, folded.stay⟩
    · rename_i source _
      have rises := Program.compile_rises source machine.nextNode
      rcases Program.folds_compile iterations source machine.nextNode with
        ⟨error, next, rejected, rejectedImage⟩ |
          ⟨program, direct, next, accepted, acceptedImage, programs⟩
      · rw [rejected] at rises
        rw [← folded.nextNode] at rejectedImage
        exact Mirrors.ofError (bind_of_ok (modifyGet_compile rejected))
          (bind_of_ok (modifyGet_compileDirectly rejectedImage))
          ⟨rfl, folded.reject rises⟩
      · rw [← folded.nextNode] at acceptedImage
        exact Mirrors.ofOk (bind_of_ok (modifyGet_compile accepted))
          (bind_of_ok (modifyGet_compileDirectly acceptedImage))
          ⟨programs.statements, folded.load unfiled accepted programs⟩

end Loading

end LoxScript
