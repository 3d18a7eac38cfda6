import LoxScript.Proofs.Session.Instances

namespace LoxScript

/-!
# Calls of the superclass's methods

What `super` yields in a method is settled by the execution of the class
declaration that made the method: it is a method of the superclass that the
class had then, bound to the instance that `this` is.
-/

open Run

/-- One execution of a class declaration, among these stages, made the class and
the method. -/
def Class.MadeWith (blueprint : Class) (stages : List Stage)
    (method : Function) : Prop :=
  ∃ name named methods superclass declaring framed,
    Stage.task (.exec (.classDecl name (some named) methods)) declaring ∈
      stages ∧
    Stage.inherited named superclass declaring framed ∈ stages ∧
    blueprint.ComesFrom name named methods superclass declaring ∧
    method.declaration ∈ methods ∧ method.closure = declaring.store.nextFrame

section Passes

variable {stages : List Stage} {first last machine : Machine} {part : Part}
  {depth deep : Nat}
variable {wanted : String} {method bound : Function} {object : Instance}
  {before after : Machine}
variable {id : NodeId} {keyword property : Token}
variable (passes : (Machine.lineage (· ∈ stages) []).Passes first stages last)

include passes

/-- The class that was made with a method has the superclass that the method
sees. -/
theorem Class.MadeWith.sees
    {blueprint : Class}
    (makes : blueprint.MadeWith stages method) :
    ∃ superclass parent, blueprint.superclass = some superclass ∧
      last.store.frames[method.closure]? =
        some (.ofSuper superclass parent) := by
  obtain ⟨name, named, methods, superclass, declaring, framed, -, inherits,
      comes, -, closure⟩ :=
    makes
  obtain ⟨-, isFrame⟩ := passes.meets _ inherits
  have isSuper := (passes.kept _ inherits).store.seals _ _ .super isFrame
  exact ⟨superclass, declaring.active, comes.parent, closure ▸ isSuper⟩

/-- Where `super` is used in a method, a class was made with the method. -/
theorem Machine.Binds.madeWith
    (binds : machine.Binds (· ∈ stages) wanted method object bound before after)
    (encloses :
      bound.Encloses machine (.expr (.superRef id keyword property)) depth) :
    ∃ blueprint : Class, blueprint.MadeWith stages method := by
  have inside := encloses.inside
  rw [binds.declaration] at inside
  obtain ⟨-, name, named, methods, declaring, madeBy⟩ :=
    binds.isMethod.distance_super inside
  obtain ⟨superclass, framed, inherits, closure, -⟩ := madeBy.inherits named rfl
  obtain ⟨reads, -⟩ := passes.meets _ inherits
  have present : declaring.active < declaring.store.nextFrame :=
    (passes.meets _ madeBy.notes).2.present
  obtain ⟨blueprint, comes⟩ :=
    Class.comesFrom_of_readVariable present reads name methods
  exact ⟨blueprint, name, named, methods, superclass, declaring, framed,
    madeBy.notes, inherits, comes, madeBy.member, closure⟩

end Passes

namespace Session

/-- In every session, wherever `super` is used, it is used in a call of a method
that was bound before, and one execution of a class declaration made this method
and a class.  What it yields is the method that the superclass of this class
has, bound anew to the instance that `this` is there; if the superclass has
none, the property is undefined. -/
theorem super_looks_in_superclass_of_declaration
    (disk : Disk)
    (output : Sink)
    (world : World)
    (actions : List HostAction)
    (lends : (bare disk output world).Lends actions) :
    let stages := (bare disk output world).stages actions
    ∀ {id keyword property machine},
      Stage.task (.eval (.superRef id keyword property)) machine ∈ stages →
        (∃ blueprint name method object bound before after depth,
          Class.MadeWith blueprint stages method ∧
          (Stage.bound name method object bound before after).Before stages
              (.task (.eval (.superRef id keyword property)) machine) ∧
            bound.Encloses machine
              (.expr (.superRef id keyword property)) depth) ∧
        ∀ {blueprint name method object bound before after depth},
          Class.MadeWith blueprint stages method →
          Stage.bound name method object bound before after ∈ stages →
          bound.Encloses machine (.expr (.superRef id keyword property)) depth →
            machine.store.lookupAt? machine.active depth "this" =
              some (.object object) ∧
            ∃ superclass, blueprint.superclass = some superclass ∧
              ∀ context steps,
                eval context (steps + 1)
                  (.superRef id keyword property) machine =
                  superclass.readFor object property machine := by
  intro stages id keyword property machine member
  have passes :=
    (lineal_bare (· ∈ stages) disk output world).passes_performAll lends
    fun _ member => member
  obtain ⟨wanted, method, object, bound, before, after, depth, binds,
      encloses⟩ :=
    (passes.houses member).binds_of_super
  obtain ⟨blueprint, makes⟩ := binds.madeWith passes encloses
  refine ⟨⟨blueprint, wanted, method, object, bound, before, after, depth,
    makes, binds.isBefore passes member rfl nofun, encloses⟩, ?_⟩
  intro other name otherMethod otherObject otherBound otherBefore otherAfter
    deep makesToo memberBound enclosesToo
  have upholds := passes.kept _ member
  obtain ⟨rfl, seen, rfl⟩ :=
    binds.unique passes 1 upholds encloses memberBound enclosesToo
    fun isMethod inside => (isMethod.distance_super inside).1
  obtain ⟨superclass, parent, isParent, isSuper⟩ := makesToo.sees passes
  rw [seen] at isSuper
  refine ⟨binds.lookupAt?_this encloses, superclass, isParent,
    fun context steps => ?_⟩
  obtain ⟨found, above, isFound⟩ := binds.sees encloses
  have same := (upholds.store.seals _ _ .super isFound).symm.trans isSuper
  rw [← Frame.ofSuper_inj (Option.some.inj same)]
  exact binds.readSuper_eq encloses isFound

/-- The evaluator comes to a use of `super`. -/
def isSuper : Stage → Bool
  | .task (.eval (.superRef _ _ _)) _ => true
  | _ => false

/-- In the method of the subclass, `super` looks in the superclass of a class
that was declared. -/
theorem super_looks_in_superclass_of_declaration_in_subclass :
    ∃ id keyword property machine method superclass object,
      ∃ blueprint : Class,
        Stage.task (.eval (.superRef id keyword property)) machine ∈
          quiet.stages inheriting ∧
        blueprint.MadeWith (quiet.stages inheriting) method ∧
        blueprint.superclass = some superclass ∧
        ∀ context steps,
          eval context (steps + 1) (.superRef id keyword property) machine =
            superclass.readFor object property machine := by
  have comes : (quiet.stages inheriting).any isSuper = true := by
    decide +kernel
  obtain ⟨stage, member, isUse⟩ := List.any_eq_true.mp comes
  unfold isSuper at isUse
  split at isUse
  · rename_i id keyword property machine
    obtain ⟨⟨blueprint, name, method, object, bound, before, after, depth,
      makes, isBefore, encloses⟩, dispatches⟩ :=
      super_looks_in_superclass_of_declaration _ _ _ inheriting
        ⟨fun _ _ => nofun, trivial⟩ member
    have memberBound := isBefore.mem List.mem_cons_self
    obtain ⟨-, superclass, isParent, yields⟩ :=
      dispatches makes memberBound encloses
    exact ⟨id, keyword, property, machine, method, superclass, object,
      blueprint, member, makes, isParent, yields⟩
  · cases isUse

end Session

end LoxScript
