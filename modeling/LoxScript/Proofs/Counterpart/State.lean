import LoxScript.Proofs.Likeness
import LoxScript.Proofs.Machine.Distances
import LoxScript.Proofs.Token.Joining
import LoxScript.Proofs.Tree.Correspondence

namespace LoxScript

/-!
# Machines with counterparts of their code

Two machines are counterparts if they hold the same but for the codes of
functions.  The nodes of a code may have other identities if they have the same
distances, and its tokens may stand a number of lines further down.  Distances
that were filed stay filed, so what is a counterpart of what stays so while both
machines go on.
-/

/-- The token, or the same one a number of lines further down. -/
inductive Token.Shifted (lines : Int) (token : Token) : Token → Prop where
  | same : Shifted lines token token
  | moved : Shifted lines token (token.moved lines)

namespace Token.Shifted

variable {lines : Int} {token image : Token}

/-- The line of a token does not count for its kind. -/
theorem kind
    (shifted : token.Shifted lines image) :
    image.kind = token.kind := by
  cases shifted <;> rfl

/-- The line of a token does not count for how it is spelled. -/
theorem lexeme
    (shifted : token.Shifted lines image) :
    image.lexeme = token.lexeme := by
  cases shifted <;> rfl

end Token.Shifted

/-- Functions of one identity and one frame, with codes that are alike. -/
structure Function.Counterpart (code : Correspondence)
    (function image : Function) : Prop where
  identity : image.identity = function.identity
  closure : image.closure = function.closure
  isInitializer : image.isInitializer = function.isInitializer
  declaration : FunctionDecl.Alike code function.declaration image.declaration

/-- Functions are twins if they are counterparts, bound or not. -/
def Correspondence.likeness (code : Correspondence) : Likeness :=
  ⟨Function.Counterpart code, Function.Counterpart code⟩

/-- Functions that are alike take equally many parameters, and call them alike
if tokens do. -/
theorem FunctionDecl.Alike.params
    {code : Correspondence}
    {declaration image : FunctionDecl}
    (alike : FunctionDecl.Alike code declaration image) :
    List.Forall₂ code.tokens declaration.params image.params := by
  cases alike with
  | intro _ params _ => exact params

/-- Functions that are alike have bodies that are. -/
theorem FunctionDecl.Alike.body
    {code : Correspondence}
    {declaration image : FunctionDecl}
    (alike : FunctionDecl.Alike code declaration image) :
    List.Forall₂ (Stmt.Alike code) declaration.body image.body := by
  cases alike with
  | intro _ _ bodies => exact bodies

/-- Related tokens are spelled alike. -/
def Correspondence.KeepsLexemes (code : Correspondence) : Prop :=
  ∀ token image, code.tokens token image → image.lexeme = token.lexeme

/-- Counterparts look the same. -/
theorem Correspondence.faithful_likeness
    {code : Correspondence}
    (lexemes : code.KeepsLexemes) :
    code.likeness.Faithful := by
  have looksLike : ∀ function image, Function.Counterpart code function image →
      function.LooksLike image := by
    intro function image counterpart
    exact ⟨counterpart.identity, lexemes _ _ counterpart.declaration.name,
      counterpart.declaration.params.length_eq.symm⟩
  exact ⟨looksLike, looksLike⟩

/-- What is related by the one is so by the other. -/
structure Correspondence.Within (code wider : Correspondence) : Prop where
  tokens : ∀ token image, code.tokens token image → wider.tokens token image
  nodes : ∀ id image, code.nodes id image → wider.nodes id image

namespace Correspondence.Within

variable {code wider : Correspondence} (within : code.Within wider)

include within

theorem widensOn
    (references : List Reference) :
    code.WidensOn wider references :=
  ⟨within.tokens, fun node _ image related =>
    within.nodes node.id image related⟩

theorem expr
    {expr image : Expr}
    (alike : Expr.Alike code expr image) :
    Expr.Alike wider expr image :=
  expr.alike_widen alike (within.widensOn _)

theorem exprs
    {exprs images : List Expr}
    (alike : List.Forall₂ (Expr.Alike code) exprs images) :
    List.Forall₂ (Expr.Alike wider) exprs images :=
  alike.imp fun _ _ each => within.expr each

theorem stmt
    {statement image : Stmt}
    (alike : Stmt.Alike code statement image) :
    Stmt.Alike wider statement image :=
  statement.alike_widen alike (within.widensOn _)

theorem stmts
    {statements images : List Stmt}
    (alike : List.Forall₂ (Stmt.Alike code) statements images) :
    List.Forall₂ (Stmt.Alike wider) statements images :=
  alike.imp fun _ _ each => within.stmt each

/-- Counterparts stay counterparts when less is asked of codes. -/
theorem likeness :
    code.likeness.Within wider.likeness := by
  have widen : ∀ function image, Function.Counterpart code function image →
      Function.Counterpart wider function image := by
    intro function image counterpart
    refine ⟨counterpart.identity, counterpart.closure,
      counterpart.isInitializer, ?_⟩
    exact function.declaration.alike_widen counterpart.declaration
      (within.widensOn _)
  exact ⟨widen, widen⟩

end Correspondence.Within

/-- Stores that hold twins. -/
structure Store.Counterpart (like : Likeness) (store image : Store) : Prop where
  size : image.nextFrame = store.nextFrame
  parents : ∀ frame, image.parent? frame = store.parent? frame
  bindings :
    ∀ frame name,
      Option.Rel (Value.Twin like) (store.lookup? frame name)
        (image.lookup? frame name)
  instances : image.nextInstance = store.nextInstance
  fields :
    ∀ object name,
      Option.Rel (Value.Twin like) (store.field? object name)
        (image.field? object name)
  identities : image.nextIdentity = store.nextIdentity

namespace Store.Counterpart

variable {like wider : Likeness} {store image : Store}
variable (counterpart : store.Counterpart like image)

include counterpart

/-- Stores that hold twins still do when less is asked of functions. -/
theorem widen
    (within : like.Within wider) :
    store.Counterpart wider image where
  size := counterpart.size
  parents := counterpart.parents
  bindings frame name := relWiden (counterpart.bindings frame name) fun _ _ =>
    (·.widen within)
  instances := counterpart.instances
  fields object name := relWiden (counterpart.fields object name) fun _ _ =>
    (·.widen within)
  identities := counterpart.identities

/-- The frames above each frame are the same. -/
theorem ancestor?_eq
    (frame : FrameId)
    (distance : Nat) :
    image.ancestor? frame distance = store.ancestor? frame distance := by
  induction distance generalizing frame with
  | zero => rfl
  | succ further inductionHypothesis =>
      simp only [ancestor?, counterpart.parents, inductionHypothesis]

/-- At every distance the stores hold twins. -/
theorem lookupAt?
    (frame : FrameId)
    (distance : Nat)
    (name : String) :
    Option.Rel (Value.Twin like) (store.lookupAt? frame distance name)
      (image.lookupAt? frame distance name) := by
  unfold Store.lookupAt?
  rw [counterpart.ancestor?_eq]
  cases store.ancestor? frame distance with
  | none => exact .none
  | some found => exact counterpart.bindings found name

/-- The stores hold the same names. -/
theorem holds_eq
    (frame : FrameId)
    (name : String) :
    image.holds frame name = store.holds frame name := by
  unfold Store.holds
  have related := counterpart.bindings frame name
  generalize store.lookup? frame name = value at related ⊢
  generalize image.lookup? frame name = valueImage at related ⊢
  cases related <;> rfl

/-- At every distance the stores hold the same names. -/
theorem holderAt?_eq
    (frame : FrameId)
    (distance : Nat)
    (name : String) :
    image.holderAt? frame distance name =
      store.holderAt? frame distance name := by
  unfold Store.holderAt?
  rw [counterpart.ancestor?_eq]
  cases store.ancestor? frame distance with
  | none => rfl
  | some found => simp only [counterpart.holds_eq]

/-- A name gets values that are twins. -/
theorem define
    {value valueImage : Value}
    (alike : Value.Twin like value valueImage)
    (frame : FrameId)
    (name : String) :
    (store.define frame name value).Counterpart like
      (image.define frame name valueImage) where
  size := by simpa using counterpart.size
  parents := by simpa using counterpart.parents
  bindings other wanted := by
    have sizes : image.frames.size = store.frames.size := counterpart.size
    rw [lookup?_define, lookup?_define, sizes]
    split
    · exact .some alike
    · exact counterpart.bindings other wanted
  instances := counterpart.instances
  fields := counterpart.fields
  identities := counterpart.identities

/-- New frames that hold twins. -/
theorem allocate
    {bindings bindingsImage : NameMap Value}
    (alike :
      ∀ name, Option.Rel (Value.Twin like) (bindings.find? name)
        (bindingsImage.find? name))
    (parent : Option FrameId) :
    (store.allocate ⟨bindings, parent⟩).Counterpart like
      (image.allocate ⟨bindingsImage, parent⟩) := by
  refine ⟨by
    simpa [nextFrame_allocate] using counterpart.size, ?_, ?_,
    counterpart.instances, counterpart.fields, counterpart.identities⟩
  · intro frame
    rcases Nat.lt_trichotomy frame store.nextFrame with present | rfl | absent
    · rw [parent?_allocate_of_lt present,
        parent?_allocate_of_lt (counterpart.size ▸ present)]
      exact counterpart.parents frame
    · rw [parent?_allocate_nextFrame, ← counterpart.size,
        parent?_allocate_nextFrame]
    · rw [parent?_eq_none
        (by rw [nextFrame_allocate, counterpart.size]; exact absent),
        parent?_eq_none (by rw [nextFrame_allocate]; exact absent)]
  · intro frame name
    rcases Nat.lt_trichotomy frame store.nextFrame with present | rfl | absent
    · rw [lookup?_allocate_of_lt present,
        lookup?_allocate_of_lt (counterpart.size ▸ present)]
      exact counterpart.bindings frame name
    · have placed :=
        lookup?_allocate_nextFrame image ⟨bindingsImage, parent⟩ name
      rw [counterpart.size] at placed
      rw [lookup?_allocate_nextFrame, placed]
      exact alike name
    · rw [lookup?_eq_none (by rw [nextFrame_allocate]; exact absent),
        lookup?_eq_none
          (by rw [nextFrame_allocate, counterpart.size]; exact absent)]
      exact .none

/-- New instances without fields. -/
theorem allocateInstance :
    store.allocateInstance.Counterpart like image.allocateInstance := by
  refine ⟨counterpart.size, counterpart.parents, counterpart.bindings, ?_, ?_,
    counterpart.identities⟩
  · simpa [nextInstance, Store.allocateInstance] using counterpart.instances
  · intro object name
    have sizes : image.fields.size = store.fields.size := counterpart.instances
    have related := counterpart.fields object name
    simp only [field?, Store.allocateInstance, Array.getElem?_push,
      sizes] at related ⊢
    by_cases isNew : object = store.fields.size
    · simp only [isNew, if_true]
      exact .none
    · simpa only [isNew, if_false] using related

/-- A field gets values that are twins. -/
theorem setField
    {value valueImage : Value}
    (alike : Value.Twin like value valueImage)
    (object : InstanceId)
    (name : String) :
    (store.setField object name value).Counterpart like
      (image.setField object name valueImage) := by
  refine ⟨counterpart.size, counterpart.parents, counterpart.bindings, ?_, ?_,
    counterpart.identities⟩
  · simpa [nextInstance, Store.setField] using counterpart.instances
  · intro other wanted
    have related := counterpart.fields other wanted
    have sizes : image.fields.size = store.fields.size := counterpart.instances
    by_cases here : object = other
    · subst here
      by_cases present : object < store.fields.size
      · by_cases sameName : name = wanted
        · have stored := Option.Rel.some alike
          simpa [field?, Store.setField, Array.getElem_modify,
            NameMap.find?_insert, sizes, present, sameName] using stored
        · simpa [field?, Store.setField, Array.getElem_modify,
            NameMap.find?_insert, sizes, present, sameName] using related
      · simp [field?, Store.setField, sizes, present]
    · simpa [field?, Store.setField, Array.getElem?_modify, here] using related

/-- One more identity is handed out. -/
theorem skipIdentity :
    store.skipIdentity.Counterpart like image.skipIdentity :=
  ⟨counterpart.size, counterpart.parents, counterpart.bindings,
    counterpart.instances,
    counterpart.fields, congrArg (· + 1) counterpart.identities⟩

end Store.Counterpart

/-- Both nodes have been handed out, and they have the same distance. -/
def Machine.Links (machine image : Machine) (id other : NodeId) : Prop :=
  id < machine.nextNode ∧ other < image.nextNode ∧
    image.distances[other]? = machine.distances[id]?

/-- How the codes of the two machines correspond: tokens may be shifted, and
nodes have the same distances. -/
def Machine.linked (lines : Int) (machine image : Machine) : Correspondence :=
  ⟨Token.Shifted lines, machine.Links image⟩

/-- Machines that hold the same but for the codes of functions; of these some
are kept elsewhere, and are their own counterparts. -/
structure Machine.Counterpart
    (lines : Int)
    (kept : Function → Prop)
    (machine image : Machine) : Prop where
  store : machine.store.Counterpart (machine.linked lines image).likeness
    image.store
  active : image.active = machine.active
  output : image.output = machine.output
  world : image.world = machine.world
  requiring : image.requiring = machine.requiring
  kept :
    ∀ function, kept function →
      Function.Counterpart (machine.linked lines image) function function
  unfiled : machine.Unfiled
  unfiledImage : image.Unfiled

namespace Machine

variable {before after image afterImage : Machine} {lines : Int}

/-- Codes of the two machines are spelled alike. -/
theorem keepsLexemes_linked
    (lines : Int)
    (machine image : Machine) :
    (machine.linked lines image).KeepsLexemes :=
  fun _ _ shifted => shifted.lexeme

/-- Counterparts look the same. -/
theorem faithful_linked
    (lines : Int)
    (machine image : Machine) :
    (machine.linked lines image).likeness.Faithful :=
  Correspondence.faithful_likeness (keepsLexemes_linked lines machine image)

/-- Nodes that are linked stay linked while both machines go on. -/
theorem Recalls.within
    (recalls : before.Recalls after)
    (recallsImage : image.Recalls afterImage)
    (lines : Int) :
    (before.linked lines image).Within (after.linked lines afterImage) where
  tokens _ _ shifted := shifted
  nodes id other links := by
    obtain ⟨handed, handedImage, same⟩ := links
    refine ⟨Nat.lt_of_lt_of_le handed recalls.nodes,
      Nat.lt_of_lt_of_le handedImage recallsImage.nodes, ?_⟩
    rw [recalls.distances id handed, recallsImage.distances other handedImage,
      same]

end Machine

end LoxScript
