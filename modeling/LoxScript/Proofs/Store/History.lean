import Mathlib.Data.List.Basic
import LoxScript.Proofs.Machine.Growth

namespace LoxScript

/-!
# Frames and their history

Frames are made, alone or below a parent, and names are written in them, through
the frame itself or through one further down.  What is found in a frame is what
was last written there, whichever way it was reached then and is reached now.
The statements compare the store with the list of what was done, from which they
read off parents and writes.
-/

namespace Store

variable {store after : Store} {frame : FrameId} {distance : Nat}
  {name : String} {value : Value}

/-- A name is overwritten in a frame exactly if the frame holds it. -/
theorem assign?_eq_some_iff :
    store.assign? frame name value = some after ↔
      store.holds frame name = true ∧
        store.define frame name value = after := by
  unfold assign?
  split <;> simp_all

/-- A name is overwritten a number of parents up exactly if the frame there
holds it. -/
theorem assignAt?_eq_some_iff :
    store.assignAt? frame distance name value = some after ↔
      ∃ found, store.ancestor? frame distance = some found ∧
        store.holds found name = true ∧
          store.define found name value = after := by
  unfold assignAt? holderAt?
  cases store.ancestor? frame distance with
  | none => simp
  | some found =>
      dsimp only
      cases holds : store.holds found name <;> simp [holds]

end Store

/-- What can be done with frames. -/
inductive FrameOperation where
  /-- Makes a frame without a parent. -/
  | new
  /-- Makes a frame below another one. -/
  | child (parent : FrameId)
  /-- Gives a name a value in a frame, new or not. -/
  | define (frame : FrameId) (name : String) (value : Value)
  /-- Overwrites a name in a frame. -/
  | assign (frame : FrameId) (name : String) (value : Value)
  /-- Overwrites a name in the frame a number of parents up. -/
  | assignAt (frame : FrameId) (distance : Nat) (name : String) (value : Value)

/-- A name that is written in a frame. -/
structure FrameWrite where
  frame : FrameId
  name : String
  value : Value

namespace FrameOperation

/-- The store after an operation, unless the operation fails. -/
def after? (store : Store) : FrameOperation → Option Store
  | .new => some (store.allocate ⟨NameMap.empty, none⟩)
  | .child parent => some (store.allocate ⟨NameMap.empty, some parent⟩)
  | .define frame name value => some (store.define frame name value)
  | .assign frame name value => store.assign? frame name value
  | .assignAt frame distance name value =>
      store.assignAt? frame distance name value

/-- The parent of the frame that an operation makes, if it makes one. -/
def made? : FrameOperation → Option (Option FrameId)
  | .new => some none
  | .child parent => some (some parent)
  | _ => none

/-- The frame through which an operation is done. -/
def through? : FrameOperation → Option FrameId
  | .new => none
  | .child parent => some parent
  | .define frame _ _ => some frame
  | .assign frame _ _ => some frame
  | .assignAt frame _ _ _ => some frame

/-- The parents of the frames that operations make, in order. -/
def parents (operations : List FrameOperation) : List (Option FrameId) :=
  operations.filterMap made?

/-- The frame that is reached from another one by a number of links to
parents. -/
def climb (links : List (Option FrameId)) (frame : FrameId) : Nat →
    Option FrameId
  | 0 => some frame
  | distance + 1 =>
      match links[frame]? with
      | some (some parent) => climb links parent distance
      | _ => none

/-- What an operation writes, if it does not fail. -/
def write? (links : List (Option FrameId)) : FrameOperation → Option FrameWrite
  | .define frame name value => some ⟨frame, name, value⟩
  | .assign frame name value => some ⟨frame, name, value⟩
  | .assignAt frame distance name value =>
      (climb links frame distance).map fun found => ⟨found, name, value⟩
  | _ => none

/-- The value that an operation writes for a name in a frame, if it does not
fail. -/
def value? (links : List (Option FrameId)) (frame : FrameId) (name : String)
    (operation : FrameOperation) : Option Value :=
  match operation.write? links with
  | some write =>
      if write.frame = frame ∧ write.name = name then some write.value else none
  | none => none

/-- The operations that do not fail, in order. -/
def succeeding (store : Store) : List FrameOperation → List FrameOperation
  | [] => []
  | operation :: rest =>
      match operation.after? store with
      | some after => operation :: succeeding after rest
      | none => succeeding store rest

/-- The store after operations, of which those that fail change nothing. -/
def applyAll (store : Store) (operations : List FrameOperation) : Store :=
  operations.foldl
    (fun reached operation => (operation.after? reached).getD reached) store

/-- A store without any frames. -/
def noFrames : Store :=
  ⟨#[], #[], 0⟩

/-- The value that was last written for a name in a frame by the operations that
did not fail. -/
def lastValue? (operations : List FrameOperation) (frame : FrameId)
    (name : String) : Option Value :=
  ((succeeding noFrames operations).filterMap
    (value? (parents operations) frame name)).getLast?

/-- Operations that are done through frames that are there. -/
inductive Possible : List FrameOperation → Prop where
  | nothing :
      Possible []
  | next {operations operation} :
      Possible operations →
      (∀ frame ∈ operation.through?, frame < (parents operations).length) →
      Possible (operations ++ [operation])

variable {links : List (Option FrameId)} {operations : List FrameOperation}
variable {operation : FrameOperation} {store : Store}

section Lists

/-- One more operation is done on the store that those before have reached. -/
@[simp] theorem applyAll_concat
    (store : Store)
    (operations : List FrameOperation)
    (operation : FrameOperation) :
    applyAll store (operations ++ [operation]) =
      (operation.after? (applyAll store operations)).getD
        (applyAll store operations) := by
  simp [applyAll]

/-- One more operation is kept if it does not fail on the store that those
before have reached. -/
theorem succeeding_concat
    (store : Store)
    (operations : List FrameOperation)
    (operation : FrameOperation) :
    succeeding store (operations ++ [operation]) =
      succeeding store operations ++
        if (operation.after? (applyAll store operations)).isSome then
        [operation] else [] := by
  induction operations generalizing store with
  | nil =>
      cases applied : operation.after? store <;>
        simp [succeeding, applyAll, applied]
  | cons first rest inductionHypothesis =>
      cases applied : first.after? store <;>
        simp [succeeding, applyAll, applied] <;> exact inductionHypothesis _

/-- Only operations that were done are kept. -/
theorem succeeding_subset
    (store : Store)
    (operations : List FrameOperation) :
    succeeding store operations ⊆ operations := by
  induction operations generalizing store with
  | nil => exact List.Subset.refl _
  | cons first rest inductionHypothesis =>
      unfold succeeding
      split
      · exact List.cons_subset_cons _ (inductionHypothesis _)
      · exact List.subset_cons_of_subset _ (inductionHypothesis _)

/-- One more operation may make one more frame. -/
theorem parents_concat
    (operations : List FrameOperation)
    (operation : FrameOperation) :
    parents (operations ++ [operation]) =
      parents operations ++ operation.made?.toList := by
  cases made : operation.made? <;> simp [parents, made]

end Lists

section Links

/-- Every frame but those without a parent was made after its parent. -/
def Ascending (links : List (Option FrameId)) : Prop :=
  ∀ frame parent : FrameId, links[frame]? = some (some parent) → parent < frame

/-- Frames that are made later do not change where links lead. -/
theorem climb_append
    (ascending : Ascending links)
    (further : List (Option FrameId))
    {frame : FrameId}
    (present : frame < links.length)
    (distance : Nat) :
    climb (links ++ further) frame distance = climb links frame distance := by
  induction distance generalizing frame with
  | zero => rfl
  | succ distance inductionHypothesis =>
      simp only [climb, List.getElem?_append_left present]
      match linked : links[frame]? with
      | none => rfl
      | some none => rfl
      | some (some parent) =>
          exact inductionHypothesis
            (Nat.lt_trans (ascending frame parent linked) present)

/-- Frames that are made later do not change what an operation writes. -/
theorem value?_append
    (ascending : Ascending links)
    (further : List (Option FrameId))
    (present : ∀ frame ∈ operation.through?, frame < links.length)
    (frame : FrameId)
    (name : String) :
    operation.value? (links ++ further) frame name =
      operation.value? links frame name := by
  cases operation with
  | assignAt subject distance written value =>
      simp only [value?, write?,
        climb_append ascending further (present subject rfl)]
  | _ => rfl

/-- Only operations that cannot fail make frames. -/
theorem write?_of_made
    {parent : Option FrameId}
    (made : operation.made? = some parent)
    (links : List (Option FrameId)) :
    operation.write? links = none := by
  cases operation <;> first | rfl | cases made

end Links

namespace Possible

/-- Operations are done through frames that have been made. -/
theorem present
    (possible : Possible operations)
    (member : operation ∈ operations) :
    ∀ frame ∈ operation.through?, frame < (parents operations).length := by
  induction possible with
  | nothing => cases member
  | next _ isPresent inductionHypothesis =>
      intro frame through
      rw [parents_concat, List.length_append]
      rcases List.mem_append.mp member with earlier | last
      · exact Nat.lt_add_right _ (inductionHypothesis earlier frame through)
      · cases List.mem_singleton.mp last
        exact Nat.lt_add_right _ (isPresent frame through)

/-- Frames are made after their parents. -/
theorem ascending
    (possible : Possible operations) :
    Ascending (parents operations) := by
  induction possible with
  | nothing => nofun
  | @next operations operation _ isPresent inductionHypothesis =>
      intro frame parent linked
      rw [parents_concat] at linked
      by_cases isEarlier : frame < (parents operations).length
      · rw [List.getElem?_append_left isEarlier] at linked
        exact inductionHypothesis frame parent linked
      · rw [List.getElem?_append_right (Nat.le_of_not_lt isEarlier)] at linked
        have member : some parent ∈ operation.made?.toList :=
          List.mem_of_getElem? linked
        have through : parent ∈ operation.through? := by
          cases operation with
          | child _ =>
              simp only [made?, Option.toList_some,
                List.mem_singleton] at member
              exact member.symm
          | _ => simp [made?] at member
        exact Nat.lt_of_lt_of_le (isPresent parent through)
          (Nat.le_of_not_lt isEarlier)

end Possible

/-- What was last written is what the last operation has written, or else what
was so before. -/
theorem lastValue?_concat
    (possible : Possible operations)
    (isPresent :
      ∀ frame ∈ operation.through?, frame < (parents operations).length)
    (frame : FrameId)
    (name : String) :
    lastValue? (operations ++ [operation]) frame name =
      if (operation.after? (applyAll noFrames operations)).isSome then
        (operation.value? (parents operations) frame name).or
          (lastValue? operations frame name)
      else lastValue? operations frame name := by
  have earlier :
      (succeeding noFrames operations).filterMap
          (value? (parents (operations ++ [operation])) frame name) =
        (succeeding noFrames operations).filterMap
          (value? (parents operations) frame name) := by
    refine List.filterMap_congr fun other member => ?_
    rw [parents_concat]
    exact value?_append possible.ascending _
      (possible.present (succeeding_subset _ _ member)) frame name
  have last : operation.value? (parents (operations ++ [operation]))
      frame name =
      operation.value? (parents operations) frame name := by
    rw [parents_concat]
    exact value?_append possible.ascending _ isPresent frame name
  unfold lastValue?
  rw [succeeding_concat, List.filterMap_append, earlier]
  split
  · rw [List.getLast?_append, List.filterMap_cons, last]
    cases operation.value? (parents operations) frame name <;> simp
  · simp

/-- The store has the frames that the operations have made, and in each frame
the values that they have last written there. -/
structure Reflects (store : Store) (operations : List FrameOperation) :
    Prop where
  links : ∀ frame : FrameId,
    (store.frames[frame]?).map Frame.parent = (parents operations)[frame]?
  values : ∀ frame name,
    store.lookup? frame name = lastValue? operations frame name

namespace Reflects

/-- As many frames are there as have been made. -/
theorem size_eq
    (reflects : Reflects store operations) :
    store.frames.size = (parents operations).length := by
  have same : (store.frames.toList.map Frame.parent) = parents operations :=
    List.ext_getElem? fun frame => by simpa using reflects.links frame
  simpa using congrArg List.length same

/-- The frame a number of parents up is the one to which the links lead. -/
theorem ancestor_eq
    (reflects : Reflects store operations)
    (frame : FrameId)
    (distance : Nat) :
    store.ancestor? frame distance =
      climb (parents operations) frame distance := by
  induction distance generalizing frame with
  | zero => rfl
  | succ distance inductionHypothesis =>
      have linked := reflects.links frame
      cases held : store.frames[frame]? with
      | none =>
          rw [held] at linked
          simp [Store.ancestor?, climb, Store.parent?, held, ← linked]
      | some found =>
          rw [held] at linked
          cases parent : found.parent with
          | none =>
              simp [Store.ancestor?, climb, Store.parent?, held, ← linked,
                parent]
          | some above =>
              simp [Store.ancestor?, climb, Store.parent?, held, ← linked,
                parent, inductionHypothesis]

section Steps

variable
  (reflects : Reflects (applyAll noFrames operations) operations)
  (possible : Possible operations)
  (isPresent :
    ∀ frame ∈ operation.through?, frame < (parents operations).length)

include reflects possible isPresent

/-- An operation that fails changes nothing, and was to make no frame. -/
theorem fail
    (fails : operation.after? (applyAll noFrames operations) = none) :
    Reflects (applyAll noFrames operations) (operations ++ [operation]) := by
  have noFrame : operation.made? = none := by
    cases operation <;> first | rfl | cases fails
  constructor
  · intro frame
    rw [reflects.links, parents_concat, noFrame, Option.toList_none,
      List.append_nil]
  · intro frame name
    rw [reflects.values, lastValue?_concat possible isPresent, fails]
    rfl

/-- A new frame holds no names. -/
theorem make
    {parent : Option FrameId}
    (made : operation.made? = some parent)
    (applied : operation.after? (applyAll noFrames operations) =
      some ((applyAll noFrames operations).allocate ⟨NameMap.empty, parent⟩)) :
    Reflects ((applyAll noFrames operations).allocate ⟨NameMap.empty, parent⟩)
      (operations ++ [operation]) := by
  constructor
  · intro frame
    have linked := reflects.links frame
    rw [parents_concat, made, Option.toList_some, Store.allocate,
      Array.getElem?_push, List.getElem?_append, reflects.size_eq]
    by_cases isNew : frame = (parents operations).length
    · simp [isNew]
    · rw [if_neg isNew, linked]
      split
      · rfl
      · rename_i isBeyond
        have outside : (parents operations).length < frame :=
          Nat.lt_of_le_of_ne (Nat.le_of_not_lt isBeyond) (Ne.symm isNew)
        rw [List.getElem?_eq_none (Nat.le_of_lt outside)]
        exact (List.getElem?_eq_none (Nat.sub_pos_of_lt outside)).symm
  · intro frame name
    rw [lastValue?_concat possible isPresent, applied, value?,
      write?_of_made made]
    simp only [Option.isSome_some, if_true, Option.none_or]
    rw [← reflects.values]
    by_cases isNew : frame = (applyAll noFrames operations).frames.size
    · simp [Store.allocate, Store.lookup?, isNew, NameMap.empty, NameMap.find?,
        NameMap.findIn]
    · simp [Store.allocate, Store.lookup?, Array.getElem?_push, isNew]

/-- A write is the last one for its name in its frame, and for no other. -/
theorem write
    {frame : FrameId}
    {name : String}
    {value : Value}
    (noFrame : operation.made? = none)
    (written :
      operation.write? (parents operations) = some ⟨frame, name, value⟩)
    (present : frame < (parents operations).length)
    (applied : operation.after? (applyAll noFrames operations) =
      some ((applyAll noFrames operations).define frame name value)) :
    Reflects ((applyAll noFrames operations).define frame name value)
      (operations ++ [operation]) := by
  constructor
  · intro other
    rw [parents_concat, noFrame, Option.toList_none, List.append_nil,
      ← reflects.links]
    simp only [Store.define, Array.getElem?_modify]
    split
    · rw [Option.map_map]
      rfl
    · rfl
  · intro other wanted
    rw [lastValue?_concat possible isPresent, applied, value?, written,
      Store.lookup?_define, reflects.values, reflects.size_eq]
    by_cases isSame : frame = other ∧ name = wanted
    · simp [isSame, isSame.1 ▸ present]
    · have isOther :
          ¬ (frame = other ∧ name = wanted ∧
          frame < (parents operations).length) :=
        fun same => isSame ⟨same.1, same.2.1⟩
      simp [isSame, isOther]

/-- What the store reflects it reflects after one more operation. -/
theorem step :
    Reflects (applyAll noFrames (operations ++ [operation]))
      (operations ++ [operation]) := by
  rw [applyAll_concat]
  cases applied : operation.after? (applyAll noFrames operations) with
  | none => exact reflects.fail possible isPresent applied
  | some after =>
      rw [Option.getD_some]
      cases operation with
      | new =>
          cases applied
          exact reflects.make possible isPresent rfl rfl
      | child parent =>
          cases applied
          exact reflects.make possible isPresent rfl rfl
      | define frame name value =>
          cases applied
          exact reflects.write possible isPresent rfl rfl
            (isPresent frame rfl) rfl
      | assign frame name value =>
          obtain ⟨_, rfl⟩ := Store.assign?_eq_some_iff.mp applied
          exact reflects.write possible isPresent rfl rfl
            (isPresent frame rfl) applied
      | assignAt frame distance name value =>
          obtain ⟨found, isAbove, holds, rfl⟩ :=
            Store.assignAt?_eq_some_iff.mp applied
          have written : write? (parents operations)
              (.assignAt frame distance name value) =
              some ⟨found, name, value⟩ := by
            rw [write?, ← reflects.ancestor_eq, isAbove, Option.map_some]
          obtain ⟨held, isFound⟩ := Store.holds_iff.mp holds
          have isThere : found < (applyAll noFrames operations).frames.size :=
            Store.lt_nextFrame_of_lookup? isFound
          have present : found < (parents operations).length :=
            reflects.size_eq ▸ isThere
          exact reflects.write possible isPresent rfl written present applied

end Steps

end Reflects

/-- The store reflects the operations that were done on it. -/
theorem Possible.reflects
    (possible : Possible operations) :
    Reflects (applyAll noFrames operations) operations := by
  induction possible with
  | nothing => exact ⟨fun _ => rfl, fun _ _ => rfl⟩
  | next possible isPresent inductionHypothesis =>
      exact inductionHypothesis.step possible isPresent

end FrameOperation

end LoxScript
