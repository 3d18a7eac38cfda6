import LoxScript.Proofs.Machine.Changes

namespace LoxScript

/-!
# How a machine comes by distances

Identities are handed out in ascending order, and a node gets its distance when
the program that it belongs to is loaded.  So nodes that were handed out keep
the distance that they have, or that they have none.
-/

namespace Machine

variable {before middle after machine : Machine}

/-- Nodes that have not been handed out have no distance yet. -/
def Unfiled (machine : Machine) : Prop :=
  ∀ id : NodeId, machine.nextNode ≤ id → machine.distances[id]? = none

/-- Nodes that were handed out keep their distances, and no node has one before
that. -/
structure Recalls (before after : Machine) : Prop where
  nodes : before.nextNode ≤ after.nextNode
  distances : ∀ id : NodeId, id < before.nextNode →
    after.distances[id]? = before.distances[id]?
  unfiled : before.Unfiled → after.Unfiled

/-- The distance of a node once a program is loaded. -/
theorem getElem?_load
    (machine : Machine)
    (program : Program)
    (next id : NodeId) :
    (machine.load program next).distances[id]? =
      (program.distances[id]?).or machine.distances[id]? :=
  Std.TreeMap.getElem?_union

/-- A program that is loaded gets its distances. -/
theorem Unfiled.loaded
    (unfiled : machine.Unfiled)
    (program : Program)
    (next : NodeId)
    {id : NodeId}
    (above : machine.nextNode ≤ id) :
    (machine.load program next).distances[id]? = program.distances[id]? := by
  rw [getElem?_load, unfiled id above, Option.or_none]

namespace Recalls

/-- A machine with the same nodes. -/
theorem ofSame
    (nodes : after.nextNode = before.nextNode)
    (distances : after.distances = before.distances) :
    before.Recalls after where
  nodes := Nat.le_of_eq nodes.symm
  distances _ _ := by rw [distances]
  unfiled unfiled id above := by
    rw [distances]
    exact unfiled id (nodes ▸ above)

theorem refl
    (machine : Machine) :
    machine.Recalls machine :=
  .ofSame rfl rfl

/-- One step after the other. -/
theorem trans
    (recalls : before.Recalls middle)
    (recallsNext : middle.Recalls after) :
    before.Recalls after where
  nodes := Nat.le_trans recalls.nodes recallsNext.nodes
  distances id handed :=
    (recallsNext.distances id (Nat.lt_of_lt_of_le handed recalls.nodes)).trans
      (recalls.distances id handed)
  unfiled unfiled := recallsNext.unfiled (recalls.unfiled unfiled)

/-- Nodes are handed out that get no distance. -/
theorem hand
    {next : NodeId}
    (rises : machine.nextNode ≤ next) :
    machine.Recalls { machine with nextNode := next } :=
  ⟨rises, fun _ _ => rfl, fun unfiled id above =>
    unfiled id (Nat.le_trans rises above)⟩

/-- A program is loaded whose nodes are the next ones to be handed out. -/
theorem ofUnfiled
    {program : Program}
    {next : NodeId}
    (rises : machine.nextNode ≤ next)
    (unfiled :
      ∀ id : NodeId, id < machine.nextNode ∨ next ≤ id →
        program.distances[id]? = none) :
    machine.Recalls (machine.load program next) := by
  refine ⟨rises, fun id handed => ?_, fun unfiledBefore id above => ?_⟩
  · rw [getElem?_load, unfiled id (.inl handed), Option.none_or]
  · rw [getElem?_load, unfiled id (.inr above),
      unfiledBefore id (Nat.le_trans rises above)]
    rfl

/-- The program of a source is loaded. -/
theorem load
    {source : ByteArray}
    {program : Program}
    {next : NodeId}
    (accepted : Program.compile source machine.nextNode = (.ok program, next)) :
    machine.Recalls (machine.load program next) := by
  have rises := Program.compile_rises source machine.nextNode
  rw [accepted] at rises
  have compiled := Program.compiled_of_compile accepted
  exact .ofUnfiled rises fun _ outside => compiled.unfiled outside

end Recalls

/-- All that the evaluator does lets a machine recall. -/
theorem respected_recalls : Machine.Respected Machine.Recalls where
  refl := .refl
  trans := .trans
  change := by
    intro before after changes
    cases changes with
    | compile source =>
        exact .hand (Program.compile_rises source before.nextNode)
    | load accepted => exact .load accepted
    | _ => exact .ofSame rfl rfl
  inFrame _ entered := ⟨entered.nodes, entered.distances, entered.unfiled⟩
  whileRequiring _ entered :=
    ⟨entered.nodes, entered.distances, entered.unfiled⟩

end Machine

end LoxScript
