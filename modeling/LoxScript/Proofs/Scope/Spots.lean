import LoxScript.Scope.Analysis

namespace LoxScript

/-!
# Where a program can misuse its scopes

The spots of a program are the places at which it reads a variable, declares a
name, returns, uses `this` or `super`, or names the superclass of a class, in
the order in which an analysis comes to them.  A spot says what the code around
it is: a program fixes this by its text alone, whatever an analysis has noted so
far.  Which spot misuses its scopes is then a matter of what is around it.
-/

/-- The names that a statement declares in the scope that it stands in; a branch
stands in the scope of its conditional. -/
def Stmt.declarations : Stmt → List Token
  | .varDecl name _ => [name]
  | .funDecl declaration => [declaration.name]
  | .classDecl name _ _ => [name]
  | .conditional _ thenBranch none => thenBranch.declarations
  | .conditional _ thenBranch (some elseBranch) =>
      thenBranch.declarations ++ elseBranch.declarations
  | .loop _ body => body.declarations
  | .print _ | .expression _ | .block _ | .ret _ _ | .require _ _ => []

/-- What code can stand in. -/
inductive Enclosure where
  /-- The initializer of a variable. -/
  | initializer (initialized : Token)
  /-- A block, behind some statements of it. -/
  | block (earlier : List Stmt)
  /-- A function or method, behind some parameters and some statements of it. -/
  | function (params : List Token) (earlier : List Stmt)
  /-- The methods of a class. -/
  | classBody (superclass : Option SuperclassRef)

namespace Enclosure

/-- Blocks and functions are local scopes. -/
def IsLocal : Enclosure → Prop
  | .block _ | .function _ _ => True
  | .initializer _ | .classBody _ => False

def IsFunction : Enclosure → Prop
  | .function _ _ => True
  | .initializer _ | .block _ | .classBody _ => False

def IsClass : Enclosure → Prop
  | .classBody _ => True
  | .initializer _ | .block _ | .function _ _ => False

/-- The names that a local scope has declared before the code in it. -/
def names : Enclosure → List Token
  | .block earlier => earlier.flatMap Stmt.declarations
  | .function params earlier => params ++ earlier.flatMap Stmt.declarations
  | .initializer _ | .classBody _ => []

/-- The code comes behind one more statement of the enclosure. -/
def behind (statement : Stmt) : Enclosure → Enclosure
  | .block earlier => .block (earlier ++ [statement])
  | .function params earlier => .function params (earlier ++ [statement])
  | enclosure => enclosure

end Enclosure

/-- All that code stands in, innermost first; code at the top level stands in
nothing. -/
abbrev Surroundings := List Enclosure

/-- The code comes behind a statement next to it. -/
def Surroundings.behind (statement : Stmt) : Surroundings → Surroundings
  | [] => []
  | innermost :: outer => innermost.behind statement :: outer

/-- What a program does where it can misuse its scopes, with the tokens that say
so. -/
inductive Act where
  | reads (name : Token)
  | declares (name : Token)
  | returns (keyword : Token)
  | usesThis (keyword : Token)
  | usesSuper (keyword : Token)
  | inherits (name superclass : Token)

/-- The token that shows an act. -/
def Act.token : Act → Token
  | .reads name => name
  | .declares name => name
  | .returns keyword => keyword
  | .usesThis keyword => keyword
  | .usesSuper keyword => keyword
  | .inherits _ superclass => superclass

/-- An act and what is around it. -/
structure Spot where
  act : Act
  surroundings : Surroundings

/-- How a spot misuses its scopes. -/
inductive Spot.Misuses : Spot → ScopeFault → Prop where
  /-- A local is read in its own initializer. -/
  | readInOwnInitializer {name initialized scope outer} :
      initialized.lexeme = name.lexeme →
      Misuses ⟨.reads name, .initializer initialized :: scope :: outer⟩
        .readInOwnInitializer
  /-- A local scope declares a name that it has declared before. -/
  | alreadyDeclared {name earlier scope outer} :
      earlier ∈ Enclosure.names scope → earlier.lexeme = name.lexeme →
      Misuses ⟨.declares name, scope :: outer⟩ .alreadyDeclared
  | topLevelReturn {keyword surroundings} :
      (∀ enclosure ∈ surroundings, ¬ enclosure.IsFunction) →
      Misuses ⟨.returns keyword, surroundings⟩ .topLevelReturn
  | thisOutsideClass {keyword surroundings} :
      (∀ enclosure ∈ surroundings, ¬ enclosure.IsClass) →
      Misuses ⟨.usesThis keyword, surroundings⟩ .thisOutsideClass
  | superOutsideClass {keyword surroundings} :
      (∀ enclosure ∈ surroundings, ¬ enclosure.IsClass) →
      Misuses ⟨.usesSuper keyword, surroundings⟩ .superOutsideClass
  /-- The innermost class has no superclass. -/
  | superWithoutSuperclass {keyword inner outer} :
      (∀ enclosure ∈ inner, ¬ enclosure.IsClass) →
      Misuses ⟨.usesSuper keyword, inner ++ .classBody none :: outer⟩
        .superWithoutSuperclass
  | selfInheritance {name superclass surroundings} :
      superclass.lexeme = name.lexeme →
      Misuses ⟨.inherits name superclass, surroundings⟩ .selfInheritance

namespace Spot

/-- The spot misuses its scopes in no way. -/
def Sound (spot : Spot) : Prop :=
  ∀ fault, ¬ spot.Misuses fault

/-- The error that reports a fault of the spot. -/
def error (spot : Spot) (fault : ScopeFault) : ScopeError :=
  ⟨fault, spot.act.token.lexeme, spot.act.token.line⟩

/-- The error reports the first of the spots that misuses its scopes. -/
def FirstMisuse (spots : List Spot) (error : ScopeError) : Prop :=
  ∃ before spot after fault,
    spots = before ++ spot :: after ∧ (∀ earlier ∈ before, earlier.Sound) ∧
      spot.Misuses fault ∧ error = spot.error fault

end Spot

mutual

/-- The spots of an expression; what is stored somewhere comes before the place
it is stored in. -/
def Expr.spots (around : Surroundings) : Expr → List Spot
  | .literal _ => []
  | .grouping inner => inner.spots around
  | .unary _ operand => operand.spots around
  | .binary left _ right => left.spots around ++ right.spots around
  | .logical left _ right => left.spots around ++ right.spots around
  | .reference _ name => [⟨.reads name, around⟩]
  | .assign _ _ value => value.spots around
  | .call callee _ arguments =>
      callee.spots around ++ Expr.spotsAll around arguments
  | .get object _ => object.spots around
  | .set object _ value => value.spots around ++ object.spots around
  | .thisRef _ keyword => [⟨.usesThis keyword, around⟩]
  | .superRef _ keyword _ => [⟨.usesSuper keyword, around⟩]

/-- The spots of expressions in order. -/
def Expr.spotsAll (around : Surroundings) : List Expr → List Spot
  | [] => []
  | first :: rest => first.spots around ++ Expr.spotsAll around rest

end

/-- The spots of an expression that may be absent. -/
def optionalSpots (around : Surroundings) : Option Expr → List Spot
  | some value => value.spots around
  | none => []

/-- The spots of the parameters of a function, behind those before them. -/
def parameterSpots (around : Surroundings) (earlier : List Token) : List Token →
    List Spot
  | [] => []
  | param :: rest =>
      ⟨.declares param, .function earlier [] :: around⟩ ::
        parameterSpots around (earlier ++ [param]) rest

/-- The spots of the heading of a class. -/
def headingSpots (around : Surroundings) (name : Token) : Option SuperclassRef →
    List Spot
  | none => [⟨.declares name, around⟩]
  | some superclass =>
      [⟨.declares name, around⟩, ⟨.inherits name superclass.name, around⟩,
        ⟨.reads superclass.name, around⟩]

mutual

/-- The spots of a statement. -/
def Stmt.spots (around : Surroundings) : Stmt → List Spot
  | .print value => value.spots around
  | .expression value => value.spots around
  | .varDecl name initializer =>
      ⟨.declares name, around⟩ :: optionalSpots (.initializer name :: around)
        initializer
  | .block body => Stmt.spotsAll (.block [] :: around) body
  | .conditional condition thenBranch none =>
      condition.spots around ++ thenBranch.spots around
  | .conditional condition thenBranch (some elseBranch) =>
      condition.spots around ++
        (thenBranch.spots around ++ elseBranch.spots (around.behind thenBranch))
  | .loop condition body => condition.spots around ++ body.spots around
  | .funDecl declaration =>
      ⟨.declares declaration.name, around⟩ :: declaration.spots around
  | .ret keyword value =>
      ⟨.returns keyword, around⟩ :: optionalSpots around value
  | .classDecl name superclass methods =>
      headingSpots around name superclass ++
        FunctionDecl.spotsAll (.classBody superclass :: around) methods
  | .require _ _ => []

/-- The spots of statements in order. -/
def Stmt.spotsAll (around : Surroundings) : List Stmt → List Spot
  | [] => []
  | first :: rest =>
      first.spots around ++ Stmt.spotsAll (around.behind first) rest

/-- The spots of a function: its parameters and its body share one scope. -/
def FunctionDecl.spots (around : Surroundings) : FunctionDecl → List Spot
  | ⟨_, params, body⟩ =>
      parameterSpots around [] params ++ Stmt.spotsAll
        (.function params [] :: around) body

/-- The spots of functions in order. -/
def FunctionDecl.spotsAll (around : Surroundings) : List FunctionDecl →
    List Spot
  | [] => []
  | first :: rest => first.spots around ++ FunctionDecl.spotsAll around rest

end

namespace Spot

/-- A spot has one fault at most. -/
theorem Misuses.unique
    {spot : Spot}
    {fault other : ScopeFault}
    (misuses : spot.Misuses fault)
    (misusesOther : spot.Misuses other) :
    fault = other := by
  have outside {inner outer : Surroundings} {superclass : Option SuperclassRef}
      (none : ∀ enclosure ∈ inner ++ .classBody superclass :: outer,
        ¬ enclosure.IsClass) : False :=
    none (.classBody superclass) (by simp) trivial
  cases spot with
  | mk act surroundings =>
      generalize same : surroundings = around at misusesOther
      cases misuses with
      | readInOwnInitializer | alreadyDeclared | topLevelReturn
      | thisOutsideClass
      | selfInheritance =>
          cases misusesOther
          rfl
      | superOutsideClass isOutside =>
          cases misusesOther with
          | superOutsideClass => rfl
          | superWithoutSuperclass => exact (outside (same ▸ isOutside)).elim
      | superWithoutSuperclass =>
          cases misusesOther with
          | superOutsideClass isOutside =>
              exact (outside (same ▸ isOutside)).elim
          | superWithoutSuperclass => rfl

/-- The first misuse is that of one spot. -/
theorem FirstMisuse.unique
    {spots : List Spot}
    {error other : ScopeError}
    (first : FirstMisuse spots error)
    (firstOther : FirstMisuse spots other) :
    error = other := by
  obtain ⟨before, spot, after, fault, rfl, sound, misuses, rfl⟩ := first
  obtain ⟨before', spot', after', fault', same, sound', misuses', rfl⟩ :=
    firstOther
  rcases List.append_eq_append_iff.mp same with
    ⟨between, rfl, split⟩ | ⟨between, rfl, split⟩
  · cases between with
    | nil =>
        cases split
        rw [misuses.unique misuses']
    | cons next rest =>
        cases split
        exact absurd misuses (sound' spot (by simp) fault)
  · cases between with
    | nil =>
        cases split
        rw [misuses.unique misuses']
    | cons next rest =>
        cases split
        exact absurd misuses' (sound spot' (by simp) fault')

variable {former latter : List Spot} {error : ScopeError}

/-- The first misuse of some spots stays the first one with more spots behind
them. -/
theorem FirstMisuse.append
    (first : FirstMisuse former error)
    (latter : List Spot) :
    FirstMisuse (former ++ latter) error := by
  obtain ⟨before, spot, after, fault, rfl, sound, misuses, same⟩ := first
  exact ⟨before, spot, after ++ latter, fault, by simp, sound, misuses, same⟩

/-- The first misuse of some spots stays the first one with spots before them
that misuse nothing. -/
theorem FirstMisuse.behind
    (first : FirstMisuse latter error)
    (allSound : ∀ spot ∈ former, spot.Sound) :
    FirstMisuse (former ++ latter) error := by
  obtain ⟨before, spot, after, fault, rfl, sound, misuses, same⟩ := first
  refine ⟨former ++ before, spot, after, fault, by simp, ?_, misuses, same⟩
  intro earlier member
  exact (List.mem_append.mp member).elim (allSound earlier) (sound earlier)

/-- Spots that misuse something are not all sound. -/
theorem FirstMisuse.not_allSound
    {spots : List Spot}
    (first : FirstMisuse spots error) :
    ¬ ∀ spot ∈ spots, spot.Sound := by
  obtain ⟨before, spot, after, fault, rfl, -, misuses, -⟩ := first
  intro allSound
  exact allSound spot (by simp) fault misuses

/-- A spot that misuses something is the first one of a list that begins with
it. -/
theorem Misuses.first
    {spot : Spot}
    {fault : ScopeFault}
    (misuses : spot.Misuses fault)
    (rest : List Spot) :
    FirstMisuse (spot :: rest) (spot.error fault) :=
  ⟨[], spot, rest, fault, rfl, by simp, misuses, rfl⟩

end Spot

end LoxScript
