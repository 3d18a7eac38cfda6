import Mathlib.Data.List.Forall2
import LoxScript.Machine.Evaluation
import LoxScript.Proofs.Machine.Fitting

namespace LoxScript

/-!
# Values that look the same

Of two runs side by side, each has functions of its own.  Given which functions
of the one count as those of the other, values are twins if they differ in such
functions only.  Whatever the evaluator asks of a value without calling it, its
type, its text, whether it holds, what operators make of it, twins answer alike.
-/

/-- Which functions are twins, as values and as methods that are not yet
bound. -/
structure Likeness where
  functions : Function → Function → Prop
  methods : Function → Function → Prop

/-- The identity, the name and the names of the methods of a class and of its
superclasses. -/
def Class.outline : Class → List (Nat × String × List String)
  | ⟨identity, name, none, methods⟩ => [(identity, name, methods.names)]
  | ⟨identity, name, some superclass, methods⟩ =>
      (identity, name, methods.names) :: superclass.outline

/-- Classes that differ in the codes of their methods only. -/
structure Class.Twin (like : Likeness) (blueprint image : Class) : Prop where
  outline : image.outline = blueprint.outline
  methods :
    ∀ name, Option.Rel like.methods (blueprint.findMethod? name)
      (image.findMethod? name)

/-- Values that differ in the codes of functions only. -/
inductive Value.Twin (like : Likeness) : Value → Value → Prop where
  | nil :
      Twin like .nil .nil
  | boolean {value} :
      Twin like (.boolean value) (.boolean value)
  | number {value} :
      Twin like (.number value) (.number value)
  | string {value} :
      Twin like (.string value) (.string value)
  | function {function image} :
      like.functions function image →
        Twin like (.function function) (.function image)
  | native {native} :
      Twin like (.native native) (.native native)
  | blueprint {blueprint image} :
      Class.Twin like blueprint image →
        Twin like (.blueprint blueprint) (.blueprint image)
  | object {identity blueprint image} :
      Class.Twin like blueprint image →
      Twin like (.object ⟨identity, blueprint⟩) (.object ⟨identity, image⟩)

/-- Every function that is like another by the one is so by the other. -/
structure Likeness.Within (like wider : Likeness) : Prop where
  functions : ∀ function image, like.functions function image →
    wider.functions function image
  methods : ∀ method image, like.methods method image →
    wider.methods method image

/-- What is related when it is there goes on to be so when less is asked. -/
theorem relWiden
    {narrow wide : α → β → Prop}
    {value : Option α}
    {image : Option β}
    (related : Option.Rel narrow value image)
    (widen : ∀ value image, narrow value image → wide value image) :
    Option.Rel wide value image := by
  cases related with
  | some holds => exact .some (widen _ _ holds)
  | none => exact .none

theorem Class.Twin.widen
    {like wider : Likeness}
    {blueprint image : Class}
    (twin : Class.Twin like blueprint image)
    (within : like.Within wider) :
    Class.Twin wider blueprint image :=
  ⟨twin.outline, fun name => relWiden (twin.methods name) within.methods⟩

/-- Twins stay twins when less is asked of functions. -/
theorem Value.Twin.widen
    {like wider : Likeness}
    {value image : Value}
    (twin : Value.Twin like value image)
    (within : like.Within wider) :
    Value.Twin wider value image := by
  cases twin with
  | nil => exact .nil
  | boolean => exact .boolean
  | number => exact .number
  | string => exact .string
  | function alike => exact .function (within.functions _ _ alike)
  | native => exact .native
  | blueprint alike => exact .blueprint (alike.widen within)
  | object alike => exact .object (alike.widen within)

/-- Functions of one name and one number of parameters, which count as the same
one. -/
structure Function.LooksLike (function image : Function) : Prop where
  identity : image.identity = function.identity
  name : image.name = function.name
  arity : image.arity = function.arity

/-- Only functions that look the same are like each other. -/
structure Likeness.Faithful (like : Likeness) : Prop where
  functions : ∀ function image, like.functions function image →
    function.LooksLike image
  methods : ∀ method image, like.methods method image → method.LooksLike image

section Facts

variable {like : Likeness} {value image : Value}

theorem Class.Twin.head
    {blueprint image : Class}
    (twin : Class.Twin like blueprint image) :
    image.identity = blueprint.identity ∧ image.name = blueprint.name := by
  have same := twin.outline
  obtain ⟨identity, name, superclass, methods⟩ := blueprint
  obtain ⟨identity', name', superclass', methods'⟩ := image
  cases superclass <;> cases superclass' <;> simp_all [Class.outline]

/-- Twins hold alike. -/
theorem Value.Twin.isTruthy
    (twin : Value.Twin like value image) :
    image.isTruthy = value.isTruthy := by
  cases twin <;> rfl

/-- Twins have one type. -/
theorem Value.Twin.typeName
    (twin : Value.Twin like value image) :
    image.typeName = value.typeName := by
  cases twin <;> rfl

/-- Twins are shown alike. -/
theorem Value.Twin.text
    (twin : Value.Twin like value image)
    (faithful : like.Faithful) :
    image.text = value.text := by
  cases twin with
  | function alike =>
      simp [Value.text, Function.text, (faithful.functions _ _ alike).name]
  | blueprint alike => exact alike.head.2
  | object alike => simp [Value.text, alike.head.2]
  | _ => rfl

/-- Twins are equal to the same values. -/
theorem Value.Twin.same
    {other otherImage : Value}
    (twin : Value.Twin like value image)
    (otherTwin : Value.Twin like other otherImage)
    (faithful : like.Faithful) :
    image.same otherImage = value.same other := by
  cases twin with
  | function alike =>
      cases otherTwin with
      | function otherAlike =>
          simp [Value.same, (faithful.functions _ _ alike).identity,
            (faithful.functions _ _ otherAlike).identity]
      | _ => rfl
  | blueprint alike =>
      cases otherTwin with
      | blueprint otherAlike =>
          simp [Value.same, alike.head.1, otherAlike.head.1]
      | _ => rfl
  | _ => cases otherTwin <;> rfl

end Facts

/-- What can be called: functions or classes that are twins, or one native. -/
inductive Callee.Twin (like : Likeness) : Callee → Callee → Prop where
  | function {function image} :
      like.functions function image →
        Twin like (.function function) (.function image)
  | native {native} :
      Twin like (.native native) (.native native)
  | blueprint {blueprint image} :
      Class.Twin like blueprint image →
        Twin like (.blueprint blueprint) (.blueprint image)

section Arity

variable {like : Likeness}

/-- Twins can be called as twins, or neither can be called. -/
theorem Value.Twin.callee?
    {value image : Value}
    (twin : Value.Twin like value image) :
    Option.Rel (Callee.Twin like) value.callee? image.callee? := by
  cases twin with
  | function alike => exact .some (.function alike)
  | native => exact .some .native
  | blueprint alike => exact .some (.blueprint alike)
  | _ => exact .none

theorem Callee.Twin.widen
    {wider : Likeness}
    {callee image : Callee}
    (twin : Callee.Twin like callee image)
    (within : like.Within wider) :
    Callee.Twin wider callee image := by
  cases twin with
  | function alike => exact .function (within.functions _ _ alike)
  | native => exact .native
  | blueprint alike => exact .blueprint (alike.widen within)

/-- Twins take equally many arguments. -/
theorem Callee.Twin.arity
    {callee image : Callee}
    (twin : Callee.Twin like callee image)
    (faithful : like.Faithful) :
    image.arity = callee.arity := by
  cases twin with
  | function alike => exact (faithful.functions _ _ alike).arity
  | native => rfl
  | @blueprint blueprint blueprintImage alike =>
      have methods := alike.methods initializerName
      simp only [Callee.arity, Class.arity, Class.initializer?]
      generalize blueprint.findMethod? initializerName = method at methods ⊢
      generalize blueprintImage.findMethod? initializerName =
        methodImage at methods ⊢
      cases methods with
      | some twins => exact (faithful.methods _ _ twins).arity
      | none => rfl

end Arity

/-- A class with methods and a superclass that are twins. -/
theorem alike_class
    {like : Likeness}
    {parent parentImage : Option Class}
    {table tableImage : NameMap Function}
    (parents : Option.Rel (Class.Twin like) parent parentImage)
    (names : tableImage.names = table.names)
    (methods : ∀ name, Option.Rel like.methods (table.find? name)
      (tableImage.find? name))
    (identity : Nat)
    (name : String) :
    Class.Twin like ⟨identity, name, parent, table⟩
      ⟨identity, name, parentImage, tableImage⟩ := by
  cases parents with
  | none =>
      refine ⟨by simp only [Class.outline, names], ?_⟩
      intro wanted
      simpa only [Class.findMethod?] using methods wanted
  | some classes =>
      refine ⟨by simp only [Class.outline, names, classes.outline], ?_⟩
      intro wanted
      have own := methods wanted
      have inherited := classes.methods wanted
      simp only [Class.findMethod?]
      generalize table.find? wanted = method at own ⊢
      generalize tableImage.find? wanted = methodImage at own ⊢
      cases own with
      | some twins => exact .some twins
      | none => exact inherited

/-- The names of a map after `insert` depend on its names only. -/
theorem NameMap.names_insert
    {map : NameMap α}
    {other : NameMap β}
    (same : other.names = map.names)
    (name : String)
    (value : α)
    (otherValue : β) :
    (other.insert name otherValue).names = (map.insert name value).names := by
  obtain ⟨entries⟩ := map
  obtain ⟨others⟩ := other
  simp only [names, insert] at same ⊢
  induction entries generalizing others with
  | nil =>
      cases others with
      | nil => rfl
      | cons first rest => simp at same
  | cons entry rest inductionHypothesis =>
      cases others with
      | nil => simp at same
      | cons first others =>
          obtain ⟨key, held⟩ := entry
          obtain ⟨otherKey, otherHeld⟩ := first
          simp only [List.map_cons, List.cons.injEq] at same
          obtain ⟨rfl, sameRest⟩ := same
          simp only [insertIn]
          split
          · simp [sameRest]
          · split
            · simp [sameRest]
            · simpa using inductionHypothesis others sameRest

section Operators

variable {like : Likeness} {value image other otherImage : Value}

/-- A value that refers to nothing is its own twin. -/
theorem Value.IsAtom.twin
    (isAtom : value.IsAtom) :
    Value.Twin like value value := by
  cases value with
  | nil => exact .nil
  | boolean value => exact .boolean
  | number value => exact .number
  | string value => exact .string
  | native native => exact .native
  | function function => cases isAtom
  | blueprint blueprint => cases isAtom
  | object object => cases isAtom

/-- An operator on one operand makes the same of twins. -/
theorem Value.Twin.unary
    (twin : Value.Twin like value image)
    (operator : Token) :
    Operator.unary operator image = Operator.unary operator value := by
  obtain ⟨kind, lexeme, line⟩ := operator
  cases kind with
  | symbol sign => cases sign <;> cases twin <;> rfl
  | _ => rfl

/-- An operator on two operands makes the same of twins. -/
theorem Value.Twin.binary
    (twin : Value.Twin like value image)
    (otherTwin : Value.Twin like other otherImage)
    (faithful : like.Faithful)
    (operator : Token) :
    Operator.binary operator image otherImage =
      Operator.binary operator value other := by
  unfold Operator.binary
  split
  · rw [twin.same otherTwin faithful]
  · rw [twin.same otherTwin faithful]
  · unfold Operator.add
    cases twin <;> cases otherTwin <;> rfl
  · cases twin <;> cases otherTwin <;> rfl

/-- A logical operator is settled by twins alike. -/
theorem Value.Twin.isSettled
    (twin : Value.Twin like value image)
    (operator : Token) :
    Operator.isSettled operator image = Operator.isSettled operator value := by
  unfold Operator.isSettled
  rw [twin.isTruthy]

end Operators

/-- What natives give back: values that are twins, or one reason to fail, in one
world. -/
inductive nativeTwin (like : Likeness) :
    Except String Value × World → Except String Value × World → Prop where
  | value {value image world} :
      Value.Twin like value image →
      nativeTwin like (.ok value, world) (.ok image, world)
  | failure {reason world} :
      nativeTwin like (.error reason, world) (.error reason, world)

section Arguments

variable {like : Likeness} {arguments images : List Value}

/-- The first arguments are twins, or both are absent. -/
theorem head?_of_twins
    (twins : List.Forall₂ (Value.Twin like) arguments images) :
    Option.Rel (Value.Twin like) arguments.head? images.head? := by
  cases twins with
  | nil => exact .none
  | cons first _ => exact .some first

/-- Twins have one type, also when they are absent. -/
theorem argumentType_of_twins
    {value image : Option Value}
    (related : Option.Rel (Value.Twin like) value image) :
    argumentType image = argumentType value := by
  cases related with
  | none => rfl
  | some twin => exact twin.typeName

/-- Twins are shown alike one by one. -/
theorem texts_of_twins
    (twins : List.Forall₂ (Value.Twin like) arguments images)
    (faithful : like.Faithful) :
    images.map Value.text = arguments.map Value.text := by
  induction twins with
  | nil =>
      rfl
  | cons first _ inductionHypothesis =>
      rw [List.map_cons, List.map_cons, first.text faithful,
        inductionHypothesis]

end Arguments

/-- What may be there is related to itself if everything that is there is. -/
theorem relSelf
    {related : α → α → Prop}
    (value : Option α)
    (holds : ∀ found, value = some found → related found found) :
    Option.Rel related value value := by
  cases value with
  | none => exact .none
  | some found => exact .some (holds found rfl)

/-- What a call of a native comes to. -/
theorem Run.callNative_eq
    (context : Context)
    (native : Native)
    (arguments : List Value)
    (machine : Machine) :
    callNative context native arguments machine =
      match performNative context.natives native.slot arguments
        machine.world with
      | (.ok value, world) => .ok value { machine with world := world }
      | (.error reason, world) =>
          .error (.failed (.native native.name reason))
            { machine with world := world } := by
  unfold callNative
  rw [bind_of_ok (modifyGet_eq _ machine)]
  rcases performNative context.natives native.slot arguments machine.world with
    ⟨reason | value, world⟩ <;> rfl

end LoxScript
