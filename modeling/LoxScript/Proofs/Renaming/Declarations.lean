import LoxScript.Proofs.Machine.Declaration
import LoxScript.Proofs.Renaming.Steps

namespace LoxScript

/-!
# Calls and declarations on twins

The frame of a call holds the arguments under the names of the parameters, and a
class holds its methods under their names.  Loading a required source does one
and the same on both sides, and leaves the distances of the program alone.
-/

open Run

variable {r : Relabelling} {flags : Flags} {machine image : Machine}
  {marks : Marks}

/-- The number of arguments is checked alike. -/
theorem agrees_checkArity
    {callee calleeImage : Callee}
    {arguments images : List Value}
    (twin : machine.Twin r flags image)
    (callees : Callee.Twin (machine.store.likeness r flags) callee calleeImage)
    (alike : alikeLists r flags machine arguments images)
    (paren : Token) :
    Agrees r flags (checkArity callee arguments paren)
      (checkArity calleeImage images paren) machine image alikeAnyhow := by
  unfold checkArity
  rw [callees.arity (Store.faithful_likeness r flags _), ← alike.length_eq]
  split
  · exact .ofPure twin trivial
  · exact .ofFail twin _

/-- Entries that are added one by one under names as they are spelled in one
scope. -/
theorem alike_ofEntries
    {like : Likeness}
    {marked : Bool}
    {values images : List Value}
    (alike : List.Forall₂ (Value.Twin like) values images)
    (names : List String)
    {map mapImage : NameMap Value}
    (maps :
      ∀ name, Option.Rel (Value.Twin like) (map.find? name)
        (mapImage.find? (r.spelled marked name)))
    (name : String) :
    Option.Rel (Value.Twin like)
      (((names.zip values).foldl (fun map entry => map.insert entry.1 entry.2)
        map).find? name)
      ((((names.map (r.spelled marked)).zip images).foldl
        (fun map entry => map.insert entry.1 entry.2) mapImage).find?
          (r.spelled marked name)) := by
  induction alike generalizing names map mapImage with
  | nil =>
      simpa using maps name
  | cons first _ inductionHypothesis =>
      cases names with
      | nil => exact maps name
      | cons parameter rest =>
          refine inductionHypothesis rest ?_
          intro wanted
          rw [NameMap.find?_insert, NameMap.find?_insert]
          by_cases here : parameter = wanted
          · subst here
            rw [if_pos rfl, if_pos rfl]
            exact .some first
          · rw [if_neg here,
              if_neg fun same => here (Relabelling.spelled_inj.mp same)]
            exact maps wanted

/-- The instance that an initializer was bound to. -/
theorem agrees_boundInstance
    {function functionImage : Function}
    (proper : r.Proper)
    (twin : machine.Twin r flags image)
    (functions :
      (machine.store.likeness r flags).functions function functionImage) :
    Agrees r flags (boundInstance function) (boundInstance functionImage)
      machine image (alikeValues r) := by
  refine .look ?_
  obtain ⟨outer, -, code⟩ := functions.code
  have related := twin.store.bindings function.closure "this"
  rw [proper.spelled_this] at related
  rw [functions.closure, code.name]
  generalize machine.store.lookup? function.closure "this" = value at related ⊢
  generalize image.store.lookup? function.closure "this" =
    valueImage at related ⊢
  cases related with
  | some alike => exact .ofPure twin alike
  | none => exact .ofFail twin _

/-- The value of a call. -/
theorem agrees_callResult
    {function functionImage : Function}
    {flow flowImage : Flow}
    (proper : r.Proper)
    (twin : machine.Twin r flags image)
    (functions :
      (machine.store.likeness r flags).functions function functionImage)
    (flows : alikeFlows r flags machine flow flowImage) :
    Agrees r flags (callResult function flow)
      (callResult functionImage flowImage) machine image (alikeValues r) := by
  unfold callResult
  rw [functions.isInitializer]
  split
  · exact agrees_boundInstance proper twin functions
  · cases flows with
    | normal => exact .ofPure twin .nil
    | returned alike => exact .ofPure twin alike

/-- Finding the superclass that a class names. -/
theorem agrees_readSuperclass
    {superclass superclassImage : SuperclassRef}
    (proper : r.Proper)
    (twin : machine.Twin r flags image)
    (carries : machine.store.Carries flags machine.active marks)
    (superclasses : SuperclassRef.Twin r marks superclass superclassImage)
    (name : Token) :
    Agrees r flags (readSuperclass name superclass)
      (readSuperclass name superclassImage) machine
      image (fun grown after => Class.Twin (after.store.likeness r grown)) := by
  obtain ⟨sameId, refers⟩ := superclasses
  unfold readSuperclass
  rw [sameId]
  refine (agrees_readVariable proper twin carries
    (refers.names twin)).andThen ?_
  intro grown after afterImage value valueImage _ twinAfter alike
  cases alike with
  | blueprint classes => exact .ofPure twinAfter classes
  | _ => exact .ofFail twinAfter _

/-- Finding the superclass of a class, if it has one. -/
theorem agrees_findSuperclass
    {superclass superclassImage : Option SuperclassRef}
    (proper : r.Proper)
    (twin : machine.Twin r flags image)
    (carries : machine.store.Carries flags machine.active marks)
    (superclasses :
      Option.Rel (SuperclassRef.Twin r marks) superclass superclassImage)
    (name : Token) :
    Agrees r flags (findSuperclass name superclass)
      (findSuperclass name superclassImage) machine image
      (fun grown after parent parentImage =>
        Option.Rel (Class.Twin (after.store.likeness r grown)) parent
          parentImage ∧
          parent.isSome = superclass.isSome) := by
  cases superclasses with
  | none => exact .ofPure twin ⟨.none, rfl⟩
  | some named =>
      refine (agrees_readSuperclass proper twin carries named name).map ?_
      intro grown after found foundImage classes
      exact ⟨.some classes, rfl⟩

/-- Tables of methods that are twins under the same names. -/
structure alikeTables
    (r : Relabelling)
    (flags : Flags)
    (machine : Machine)
    (table image : NameMap Function) : Prop where
  names : image.names = table.names
  methods :
    ∀ name, Option.Rel (machine.store.likeness r flags).methods
      (table.find? name) (image.find? name)

/-- Making the methods of a class. -/
theorem agrees_closeOverMethods
    {closure : FrameId}
    {methods methodsImage : List FunctionDecl}
    {table tableImage : NameMap Function}
    (twin : machine.Twin r flags image)
    (carries : machine.store.Carries flags closure marks)
    (codes : FunctionDecl.Twins r (false :: marks) methods methodsImage)
    (tables : alikeTables r flags machine table tableImage) :
    Agrees r flags (closeOverMethods closure table methods)
      (closeOverMethods closure tableImage methodsImage) machine image
      (alikeTables r) := by
  induction methods generalizing flags machine image methodsImage table
    tableImage with
  | nil =>
      cases codes
      exact .ofPure twin tables
  | cons declaration rest inductionHypothesis =>
      cases codes with
      | @cons _ _ declarationImage _ restImage code codes =>
          have isInitializer :
              declarationImage.isInitializer = declaration.isInitializer := by
            unfold FunctionDecl.isInitializer
            rw [code.name]
          unfold closeOverMethods
          rw [isInitializer]
          have codeInner : FunctionDecl.Twin r ([false] ++ marks) declaration
              declarationImage :=
            code
          refine (agrees_closeOver twin carries codeInner _).andThen ?_
          intro grown after afterImage method methodImage later
            twinAfter methods
          refine inductionHypothesis twinAfter (carries.later later.extend)
            codes ⟨?_, ?_⟩
          · rw [code.name]
            exact NameMap.names_insert tables.names _ _ _
          · intro name
            rw [code.name, NameMap.find?_insert, NameMap.find?_insert]
            split
            · exact .some methods
            · exact relWiden (tables.methods name) later.extend.within.methods

/-- The frame that the methods of a class see. -/
theorem agrees_methodFrame
    {superclass : Option SuperclassRef}
    {parent parentImage : Option Class}
    (twin : machine.Twin r flags image)
    (carries : machine.store.Carries flags machine.active marks)
    (parents :
      Option.Rel (Class.Twin (machine.store.likeness r flags))
        parent parentImage)
    (agree : parent.isSome = superclass.isSome) :
    Agrees r flags (methodFrame parent) (methodFrame parentImage) machine image
      (fun grown after closure closureImage =>
        closureImage = closure ∧
          ∃ outer, Marks.ofClass superclass marks = false :: outer ∧
            after.store.Carries grown closure outer) := by
  refine .look ?_
  rw [twin.active]
  cases parents with
  | none =>
      obtain rfl : superclass = none := by simpa using agree
      exact .ofPure twin ⟨rfl, marks, rfl, carries⟩
  | some classes =>
      obtain ⟨named, rfl⟩ : ∃ named, superclass = some named :=
        Option.isSome_iff_exists.mp agree.symm
      refine (agrees_allocate twin carries false
        (alike_single (.blueprint classes))).weaken ?_
      rintro grown after closure closureImage - ⟨same, carriesNew⟩
      exact ⟨same, false :: marks, rfl, carriesNew⟩

/-- Handing out an identity. -/
theorem agrees_freshIdentity
    (twin : machine.Twin r flags image) :
    Agrees r flags freshIdentity freshIdentity machine image
      (fun _ _ identity identityImage => identityImage = identity) := by
  have same : machine.store.skipIdentity.frames = machine.store.frames := rfl
  exact .ofOk rfl rfl ⟨.ofFrames same flags, rfl⟩
    (twin.withStore twin.store.skipIdentity) twin.store.identities

/-- Establishing a class whose superclass is found. -/
theorem agrees_establishClass
    {superclass : Option SuperclassRef}
    {parent parentImage : Option Class}
    {methods methodsImage : List FunctionDecl}
    {name : Token}
    (twin : machine.Twin r flags image)
    (carries : machine.store.Carries flags machine.active marks)
    (spares : r.Spares marks name)
    (codes : FunctionDecl.Twins r (Marks.ofClass superclass marks) methods
      methodsImage)
    (parents :
      Option.Rel (Class.Twin (machine.store.likeness r flags))
        parent parentImage)
    (agree : parent.isSome = superclass.isSome) :
    Agrees r flags (establishClass name methods parent)
      (establishClass name methodsImage parentImage) machine image
      alikeAnyhow := by
  refine (agrees_define twin carries spares.symm .nil).andThen ?_
  intro flags₁ machine₁ image₁ _ _ later₁ twin₁ _
  have parents₁ := relWiden parents fun _ _ classes =>
    classes.widen later₁.extend.within
  refine (agrees_methodFrame twin₁ (later₁.carries carries) parents₁
    agree).andThen ?_
  rintro flags₂ machine₂ image₂ closure _ later₂ twin₂
    ⟨rfl, outer, isOuter, carriesOuter⟩
  have noneYet : alikeTables r flags₂ machine₂ NameMap.empty NameMap.empty :=
    ⟨rfl, fun _ => .none⟩
  rw [isOuter] at codes
  refine (agrees_closeOverMethods twin₂ carriesOuter codes noneYet).andThen ?_
  intro flags₃ machine₃ image₃ table tableImage later₃ twin₃ tables
  refine (agrees_freshIdentity twin₃).andThen ?_
  rintro flags₄ machine₄ image₄ _ identity later₄ twin₄ rfl
  have later := ((later₁.trans later₂).trans later₃).trans later₄
  refine agrees_define twin₄ (later.carries carries) spares.symm (.blueprint ?_)
  refine alike_class ?_ tables.names ?_ identity name.lexeme
  · exact relWiden parents fun _ _ classes => classes.widen later.extend.within
  · intro wanted
    exact relWiden (tables.methods wanted) later₄.extend.within.methods

/-- Declaring a class. -/
theorem agrees_declareClass
    {superclass superclassImage : Option SuperclassRef}
    {methods methodsImage : List FunctionDecl}
    {name : Token}
    (proper : r.Proper)
    (twin : machine.Twin r flags image)
    (carries : machine.store.Carries flags machine.active marks)
    (spares : r.Spares marks name)
    (superclasses :
      Option.Rel (SuperclassRef.Twin r marks) superclass superclassImage)
    (codes : FunctionDecl.Twins r (Marks.ofClass superclass marks) methods
      methodsImage) :
    Agrees r flags (declareClass name superclass methods)
      (declareClass name superclassImage methodsImage) machine image
      alikeAnyhow := by
  rw [declareClass_eq, declareClass_eq]
  refine (agrees_findSuperclass proper twin carries superclasses
    name).andThen ?_
  rintro grown after afterImage parent parentImage later twinAfter
    ⟨parents, agree⟩
  exact agrees_establishClass twinAfter (later.carries carries) spares codes
    parents agree

/-- Declaring a function. -/
theorem agrees_declareFunction
    {declaration declarationImage : FunctionDecl}
    (twin : machine.Twin r flags image)
    (carries : machine.store.Carries flags machine.active marks)
    (spares : r.Spares marks declaration.name)
    (code : FunctionDecl.Twin r marks declaration declarationImage) :
    Agrees r flags (declareFunction declaration)
      (declareFunction declarationImage) machine image
      alikeAnyhow := by
  have codeHere : FunctionDecl.Twin r ([] ++ marks) declaration
      declarationImage := code
  refine .look ?_
  rw [twin.active]
  refine (agrees_closeOver twin carries codeHere false).andThen ?_
  intro grown after afterImage function functionImage later twinAfter functions
  rw [code.name]
  exact agrees_define twinAfter (later.carries carries) spares.symm
    (.function functions)

/-- Further identities of nodes are handed out. -/
theorem Machine.Twin.hand
    {next : NodeId}
    (twin : machine.Twin r flags image)
    (rises : machine.nextNode ≤ next) :
    Machine.Twin r flags { machine with nextNode := next }
      { image with nextNode := next } :=
  { twin with nextNode := rfl, handed := Nat.le_trans twin.handed rises }

/-- The distances of a program are filed whose nodes come after those of the
relabelled one. -/
theorem Machine.Twin.learn
    {program : Program}
    {first next : NodeId}
    (twin : machine.Twin r flags image)
    (compiled : program.Compiled first next)
    (early : r.bound ≤ first) :
    (machine.learn program.distances).Twin r flags
      (image.learn program.distances) := by
  refine { twin with distances := ?_, table := ?_ }
  · exact congrArg (· ∪ program.distances) twin.distances
  · intro id above below
    have table : (machine.learn program.distances).distances[id]? =
        (program.distances[id]?).or machine.distances[id]? :=
      Std.TreeMap.getElem?_union
    rw [table, compiled.unfiled (.inl (Nat.lt_of_lt_of_le below early)),
      Option.none_or]
    exact twin.table id above below

/-- Loading a required source. -/
theorem agrees_loadRequired
    (twin : machine.Twin r flags image)
    (context : Context)
    (keyword : Token)
    (path : String) :
    Agrees r flags (loadRequired context keyword path)
      (loadRequired context keyword path)
      machine image (fun _ _ program programImage =>
        programImage = program) := by
  unfold loadRequired
  extract_lets failWith goOn
  refine .look ?_
  rw [twin.requiring]
  split
  · exact .ofFail twin _
  · unfold goOn
    split
    · exact .ofFail twin _
    · rename_i source isSource
      cases outcome : Program.compile source machine.nextNode with
      | mk verdict next =>
          have rises := Program.compile_rises source machine.nextNode
          rw [outcome] at rises
          have compiles : ∀ other : Machine, other.nextNode = machine.nextNode →
              (modifyGet fun machine => machine.compile source : Run _) other =
                .ok verdict { other with nextNode := next } := by
            intro other sameNode
            exact modifyGet_compile (sameNode ▸ outcome)
          have handed := twin.hand rises
          cases verdict with
          | error error =>
              exact Mirrors.ofError (bind_of_ok (compiles machine rfl))
                (bind_of_ok (compiles image twin.nextNode))
                ⟨.failed .same, flags, ⟨.refl flags _, rfl⟩, handed⟩
          | ok program =>
              have compiled := Program.compiled_of_compile outcome
              exact .ofOk (bind_of_ok (compiles machine rfl))
                (bind_of_ok (compiles image twin.nextNode)) ⟨.refl flags _, rfl⟩
                (handed.learn compiled twin.handed) rfl

end LoxScript
