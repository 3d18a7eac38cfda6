import LoxScript.Proofs.Compilation.Elsewhere
import LoxScript.Proofs.Counterpart.Steps
import LoxScript.Proofs.Machine.Declaration

namespace LoxScript

/-!
# Calls and declarations on counterparts

The frame of a call holds twins under the names of the parameters, and a class
holds methods that are counterparts under one name.  A required source is
compiled on both sides with other identities, and its nodes get the same
distances.
-/

open Run

variable {lines : Int} {kept : Function → Prop} {machine image : Machine}

/-- The number of arguments is checked alike. -/
theorem inStep_checkArity
    {callee calleeImage : Callee}
    {arguments images : List Value}
    {paren parenImage : Token}
    (counterpart : machine.Counterpart lines kept image)
    (callees :
      Callee.Twin (machine.linked lines image).likeness callee calleeImage)
    (alike : (machine.linked lines image).Lists arguments images)
    (parens : Token.Shifted lines paren parenImage) :
    InStep lines kept (checkArity callee arguments paren)
      (checkArity calleeImage images parenImage)
      machine image Correspondence.Anything := by
  unfold checkArity
  rw [callees.arity (Machine.faithful_linked lines machine image),
    ← alike.length_eq]
  split
  · exact .ofPure counterpart trivial
  · exact .ofToken counterpart parens
      (fun token => .arity callee.arity arguments.length token.line) rfl

/-- Entries that are twins one by one, added under the same names. -/
theorem twins_ofEntries
    {like : Likeness}
    {values images : List Value}
    (alike : List.Forall₂ (Value.Twin like) values images)
    (names : List String)
    {map mapImage : NameMap Value}
    (maps : ∀ name, Option.Rel (Value.Twin like) (map.find? name)
      (mapImage.find? name))
    (name : String) :
    Option.Rel (Value.Twin like)
      (((names.zip values).foldl (fun map entry => map.insert entry.1 entry.2)
        map).find? name)
      (((names.zip images).foldl (fun map entry => map.insert entry.1 entry.2)
        mapImage).find? name) := by
  induction alike generalizing names map mapImage with
  | nil => simpa using maps name
  | cons first _ inductionHypothesis =>
      cases names with
      | nil => exact maps name
      | cons parameter rest =>
          refine inductionHypothesis rest ?_
          intro wanted
          rw [NameMap.find?_insert, NameMap.find?_insert]
          split
          · exact .some first
          · exact maps wanted

/-- Tokens that may be shifted are spelled alike. -/
theorem Token.lexemes_shifted
    {tokens images : List Token}
    (shifted : List.Forall₂ (Token.Shifted lines) tokens images) :
    images.map Token.lexeme = tokens.map Token.lexeme := by
  induction shifted with
  | nil => rfl
  | cons first _ inductionHypothesis =>
      rw [List.map_cons, List.map_cons, first.lexeme, inductionHypothesis]

/-- The frame of a call. -/
theorem inStep_callFrame
    {function functionImage : Function}
    {arguments images : List Value}
    (counterpart : machine.Counterpart lines kept image)
    (functions : (machine.linked lines image).Functions function functionImage)
    (alike : (machine.linked lines image).Lists arguments images) :
    InStep lines kept (allocate (callFrame function arguments))
      (allocate (callFrame functionImage images)) machine image
      Correspondence.Same := by
  unfold callFrame
  rw [Token.lexemes_shifted functions.declaration.params, functions.closure]
  exact inStep_allocate counterpart (twins_ofEntries alike _ fun _ => .none) _

/-- The instance that an initializer was bound to. -/
theorem inStep_boundInstance
    {function functionImage : Function}
    (counterpart : machine.Counterpart lines kept image)
    (functions :
      (machine.linked lines image).Functions function functionImage) :
    InStep lines kept (boundInstance function) (boundInstance functionImage)
      machine image Correspondence.Values := by
  refine .look ?_
  have related := counterpart.store.bindings function.closure "this"
  rw [functions.closure]
  generalize machine.store.lookup? function.closure "this" = value at related ⊢
  generalize image.store.lookup? function.closure "this" =
    valueImage at related ⊢
  cases related with
  | some alike => exact .ofPure counterpart alike
  | none =>
      exact .ofToken counterpart functions.declaration.name
        (fun token => .unresolvedLocal "this" 0 token.line) rfl

/-- The value of a call. -/
theorem inStep_callResult
    {function functionImage : Function}
    {flow flowImage : Flow}
    (counterpart : machine.Counterpart lines kept image)
    (functions : (machine.linked lines image).Functions function functionImage)
    (flows : (machine.linked lines image).Flows flow flowImage) :
    InStep lines kept (callResult function flow)
      (callResult functionImage flowImage) machine image
      Correspondence.Values := by
  unfold callResult
  rw [functions.isInitializer]
  split
  · exact inStep_boundInstance counterpart functions
  · cases flows with
    | normal => exact .ofPure counterpart .nil
    | returned alike => exact .ofPure counterpart alike

/-- Finding the superclass that a class names. -/
theorem inStep_readSuperclass
    {superclass superclassImage : SuperclassRef}
    {name nameImage : Token}
    (counterpart : machine.Counterpart lines kept image)
    (superclasses :
      SuperclassRef.Alike (machine.linked lines image) superclass
        superclassImage)
    (names : Token.Shifted lines name nameImage) :
    InStep lines kept (readSuperclass name superclass)
      (readSuperclass nameImage superclassImage)
      machine image Correspondence.Classes := by
  refine (inStep_readVariable counterpart superclasses.1
    superclasses.2).andThen ?_
  intro after afterImage value valueImage follow alike
  cases alike with
  | blueprint classes => exact .ofPure follow.counterpart classes
  | _ =>
      exact .ofToken follow.counterpart names
        (fun token => .superclassNotClass token.line) rfl

/-- Finding the superclass of a class, if it has one. -/
theorem inStep_findSuperclass
    {superclass superclassImage : Option SuperclassRef}
    {name nameImage : Token}
    (counterpart : machine.Counterpart lines kept image)
    (superclasses :
      Option.Rel (SuperclassRef.Alike (machine.linked lines image)) superclass
        superclassImage)
    (names : Token.Shifted lines name nameImage) :
    InStep lines kept (findSuperclass name superclass)
      (findSuperclass nameImage superclassImage)
      machine image fun code => Option.Rel code.Classes := by
  cases superclasses with
  | none => exact .ofPure counterpart .none
  | some named =>
      exact (inStep_readSuperclass counterpart named names).map
        fun _ _ _ classes => .some classes

/-- Tables of methods that are counterparts under the same names. -/
structure Correspondence.Tables (code : Correspondence)
    (table image : NameMap Function) : Prop where
  names : image.names = table.names
  methods : ∀ name,
    Option.Rel code.Functions (table.find? name) (image.find? name)

/-- Making the methods of a class. -/
theorem inStep_closeOverMethods
    {methods methodsImage : List FunctionDecl}
    {table tableImage : NameMap Function}
    (counterpart : machine.Counterpart lines kept image)
    (codes :
      List.Forall₂ (FunctionDecl.Alike (machine.linked lines image)) methods
        methodsImage)
    (tables : (machine.linked lines image).Tables table tableImage)
    (closure : FrameId) :
    InStep lines kept (closeOverMethods closure table methods)
      (closeOverMethods closure tableImage methodsImage) machine image
      Correspondence.Tables := by
  induction methods generalizing machine image methodsImage table
    tableImage with
  | nil =>
      cases codes
      exact .ofPure counterpart tables
  | cons declaration rest inductionHypothesis =>
      cases codes with
      | @cons _ declarationImage _ restImage code codes =>
          have names := code.name.lexeme
          have isInitializer :
              declarationImage.isInitializer = declaration.isInitializer := by
            unfold FunctionDecl.isInitializer
            rw [names]
          unfold closeOverMethods
          rw [isInitializer, names]
          refine (inStep_closeOver counterpart code closure _).andThen ?_
          intro after afterImage method methodImage follow methods
          refine inductionHypothesis follow.counterpart ?_ ⟨?_, ?_⟩
          · exact FunctionDecl.alike_widenAll rest codes
              (follow.within.widensOn _)
          · exact NameMap.names_insert tables.names _ _ _
          · intro name
            rw [NameMap.find?_insert, NameMap.find?_insert]
            split
            · exact .some methods
            · exact relWiden (tables.methods name)
                follow.within.likeness.methods

/-- The frame that the methods of a class see. -/
theorem inStep_methodFrame
    {parent parentImage : Option Class}
    (counterpart : machine.Counterpart lines kept image)
    (parents :
      Option.Rel (machine.linked lines image).Classes parent parentImage) :
    InStep lines kept (methodFrame parent) (methodFrame parentImage)
      machine image Correspondence.Same := by
  refine .look ?_
  rw [counterpart.active]
  cases parents with
  | none => exact .ofPure counterpart rfl
  | some classes =>
      exact inStep_allocate counterpart (twins_single (.blueprint classes)) _

/-- Establishing a class whose superclass is found. -/
theorem inStep_establishClass
    {parent parentImage : Option Class}
    {methods methodsImage : List FunctionDecl}
    {name nameImage : Token}
    (counterpart : machine.Counterpart lines kept image)
    (codes :
      List.Forall₂ (FunctionDecl.Alike (machine.linked lines image)) methods
        methodsImage)
    (parents :
      Option.Rel (machine.linked lines image).Classes parent parentImage)
    (names : Token.Shifted lines name nameImage) :
    InStep lines kept (establishClass name methods parent)
      (establishClass nameImage methodsImage parentImage) machine image
      Correspondence.Anything := by
  unfold establishClass
  rw [names.lexeme]
  refine (inStep_define counterpart .nil name.lexeme).andThen ?_
  intro machine₁ image₁ _ _ follow₁ _
  have parents₁ := relWiden parents fun _ _ classes =>
    classes.widen follow₁.within.likeness
  refine (inStep_methodFrame follow₁.counterpart parents₁).andThen ?_
  rintro machine₂ image₂ _ closure follow₂ rfl
  have follow₁₂ := follow₁.trans follow₂
  have noneYet : (machine₂.linked lines image₂).Tables NameMap.empty
      NameMap.empty :=
    ⟨rfl, fun _ => .none⟩
  have codes₂ := FunctionDecl.alike_widenAll methods codes
    (follow₁₂.within.widensOn _)
  refine (inStep_closeOverMethods follow₂.counterpart codes₂ noneYet
    closure).andThen ?_
  intro machine₃ image₃ table tableImage follow₃ tables
  refine (inStep_freshIdentity follow₃.counterpart).andThen ?_
  rintro machine₄ image₄ _ identity follow₄ rfl
  have within := ((follow₁₂.trans follow₃).trans follow₄).within.likeness
  refine inStep_define follow₄.counterpart (.blueprint ?_) name.lexeme
  refine alike_class (relWiden parents fun _ _ classes => classes.widen within)
    tables.names ?_ identity name.lexeme
  exact fun wanted =>
    relWiden (tables.methods wanted) follow₄.within.likeness.methods

/-- Declaring a class. -/
theorem inStep_declareClass
    {superclass superclassImage : Option SuperclassRef}
    {methods methodsImage : List FunctionDecl}
    {name nameImage : Token}
    (counterpart : machine.Counterpart lines kept image)
    (names : Token.Shifted lines name nameImage)
    (superclasses :
      Option.Rel (SuperclassRef.Alike (machine.linked lines image)) superclass
        superclassImage)
    (codes :
      List.Forall₂ (FunctionDecl.Alike (machine.linked lines image)) methods
        methodsImage) :
    InStep lines kept (declareClass name superclass methods)
      (declareClass nameImage superclassImage methodsImage) machine image
      Correspondence.Anything := by
  rw [declareClass_eq, declareClass_eq]
  refine (inStep_findSuperclass counterpart superclasses names).andThen ?_
  intro after afterImage parent parentImage follow parents
  exact inStep_establishClass follow.counterpart
    (FunctionDecl.alike_widenAll methods codes (follow.within.widensOn _))
    parents names

/-- Declaring a function. -/
theorem inStep_declareFunction
    {declaration declarationImage : FunctionDecl}
    (counterpart : machine.Counterpart lines kept image)
    (code : FunctionDecl.Alike (machine.linked lines image) declaration
      declarationImage) :
    InStep lines kept (declareFunction declaration)
      (declareFunction declarationImage) machine
      image Correspondence.Anything := by
  refine .look ?_
  rw [counterpart.active]
  refine (inStep_closeOver counterpart code machine.active false).andThen ?_
  intro after afterImage function functionImage follow functions
  rw [code.name.lexeme]
  exact inStep_define follow.counterpart (.function functions)
    declaration.name.lexeme

/-- Two machines whose tables have grown. -/
theorem Machine.Follow.ofTables
    {distances distancesImage : Distances}
    {next nextImage : NodeId}
    (counterpart : machine.Counterpart lines kept image)
    (recalls :
      machine.Recalls { machine with distances := distances, nextNode := next })
    (recallsImage :
      image.Recalls
        { image with distances := distancesImage, nextNode := nextImage }) :
    Machine.Follow lines kept machine image
      { machine with distances := distances, nextNode := next }
      { image with distances := distancesImage, nextNode := nextImage } := by
  have within := (recalls.within recallsImage lines).likeness
  exact ⟨recalls, recallsImage,
    { counterpart with
      store := counterpart.store.widen within
      kept := fun function isKept =>
        within.functions _ _ (counterpart.kept function isKept)
      unfiled := recalls.unfiled counterpart.unfiled
      unfiledImage := recallsImage.unfiled counterpart.unfiledImage }⟩

/-- Programs of one source with nodes that are linked. -/
def Correspondence.Programs (code : Correspondence) (program image : Program) :
    Prop :=
  List.Forall₂ (Stmt.Alike code) program.statements image.statements

/-- Nodes of two programs that are alike are linked once both have their
distances. -/
theorem Program.Alike.linked
    {related : Correspondence}
    {source : ByteArray}
    {program programImage : Program}
    {first next : NodeId}
    (alike : Program.Alike related program programImage)
    (accepted : Program.compile source first = (.ok program, next))
    (tokens : ∀ token other, related.tokens token other →
      Token.Shifted lines token other)
    (links :
      ∀ id other, first ≤ id → id < next → related.nodes id other →
        machine.Links image id other) :
    (machine.linked lines image).Programs program programImage := by
  have handed := (Program.compiled_of_compile accepted).handed
  refine Stmt.alike_widenAll program.statements alike.statements ⟨tokens, ?_⟩
  intro node member other related
  obtain ⟨above, below⟩ := handed.within node member
  exact links node.id other above below related

/-- What two machines come to when they compile one source: both reject it for
one reason, or both load programs with nodes that are linked. -/
inductive Machine.CompilesAlike
    (lines : Int)
    (kept : Function → Prop)
    (source : ByteArray)
    (machine image : Machine) : Prop where
  | rejected {error next nextImage} :
      Program.compile source machine.nextNode = (.error error, next) →
      Program.compile source image.nextNode = (.error error, nextImage) →
      Machine.Follow lines kept machine image { machine with nextNode := next }
        { image with nextNode := nextImage } →
      CompilesAlike lines kept source machine image
  | accepted {program programImage next nextImage} :
      Program.compile source machine.nextNode = (.ok program, next) →
      Program.compile source image.nextNode = (.ok programImage, nextImage) →
      Machine.Follow lines kept machine image (machine.load program next)
        (image.load programImage nextImage) →
      ((machine.load program next).linked lines
        (image.load programImage nextImage)).Programs program programImage →
      CompilesAlike lines kept source machine image

/-- Machines that are counterparts compile a source alike. -/
theorem Machine.Counterpart.compiles
    (counterpart : machine.Counterpart lines kept image)
    (source : ByteArray) :
    Machine.CompilesAlike lines kept source machine image := by
  have alike := Program.compile_alike source machine.nextNode image.nextNode
  generalize outcome : Program.compile source machine.nextNode = result at alike
  generalize outcomeImage : Program.compile source image.nextNode =
    resultImage at alike
  cases alike with
  | @rejected error distance =>
      exact .rejected outcome outcomeImage
        (.ofTables counterpart (.hand (Nat.le_add_right _ distance))
          (.hand (Nat.le_add_right _ distance)))
  | @accepted program programImage distance programs =>
      refine .accepted outcome outcomeImage
        (.ofTables counterpart (.load outcome) (.load outcomeImage))
        (programs.linked outcome ?_ ?_)
      · rintro token _ rfl
        exact .same
      · rintro id other - below ⟨further, rfl, rfl⟩
        have filed :=
          counterpart.unfiled.loaded program (machine.nextNode + distance)
          (Nat.le_add_right _ further)
        have filedImage := counterpart.unfiledImage.loaded programImage
          (image.nextNode + distance) (Nat.le_add_right _ further)
        exact ⟨below, Nat.add_lt_add_left (Nat.lt_of_add_lt_add_left below) _,
          filedImage.trans
            ((programs.distances _ _ ⟨further, rfl, rfl⟩).trans filed.symm)⟩

/-- Loading a required source. -/
theorem inStep_loadRequired
    {keyword keywordImage : Token}
    (counterpart : machine.Counterpart lines kept image)
    (keywords : Token.Shifted lines keyword keywordImage)
    (context : Context)
    (path : String) :
    InStep lines kept (loadRequired context keyword path)
      (loadRequired context keywordImage path)
      machine image Correspondence.Programs := by
  unfold loadRequired
  extract_lets failWith goOn failWithImage goOnImage
  refine .look ?_
  rw [counterpart.requiring]
  split
  · exact .ofToken counterpart keywords
      (fun token => .cyclicRequire path token.line) rfl
  · unfold goOn goOnImage
    split
    · rename_i failure _
      exact .ofToken counterpart keywords
        (fun token => .require path token.line (.unreadable failure)) rfl
    · rename_i source isSource
      cases counterpart.compiles source with
      | @rejected error next nextImage outcome outcomeImage follow =>
          have errors : RuntimeError.Shifted lines
              (.require path keyword.line (.rejected error))
              (.require path keywordImage.line (.rejected error)) := by
            cases keywords with
            | same => exact .same
            | moved => exact .moved
          exact Mirrors.ofError (bind_of_ok (modifyGet_compile outcome))
            (bind_of_ok (modifyGet_compile outcomeImage))
            ⟨.failed errors, follow⟩
      | accepted outcome outcomeImage follow programs =>
          exact .ofOk (bind_of_ok (modifyGet_compile outcome))
            (bind_of_ok (modifyGet_compile outcomeImage)) follow programs

end LoxScript
