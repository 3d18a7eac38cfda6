import LoxScript.Fault
import LoxScript.Host
import LoxScript.Store

namespace LoxScript

/-!
# The machine

The state that running a program changes: variables, distances, output and the
world of the natives, the scope and the required sources that are being
executed.
-/

/-- What a machine runs with and does not change. -/
structure Context where
  /-- The natives of the host, by slot. -/
  natives : List HostNative
  /-- Where required sources come from. -/
  library : Library

/-- The state of a running program. -/
structure Machine where
  store : Store
  /-- The frame of the scope that is being executed. -/
  active : FrameId
  /-- The distances of all programs seen so far. -/
  distances : Distances
  output : Sink
  world : World
  /-- The paths of the required sources being executed, innermost first. -/
  requiring : List String
  nextNode : NodeId

/-- Why a step does not yield a value. -/
inductive Halt where
  | failed (error : RuntimeError)
  | exhausted

/-- A step of a machine. -/
abbrev Run := EStateM Halt Machine

/-- How a statement ends: normally, or by a `return` that looks for its call. -/
inductive Flow where
  | normal
  | returned (value : Value)

namespace Machine

/-- A machine that has run nothing yet. -/
def initial (output : Sink) (world : World) : Machine :=
  { store := .initial
    active := globalFrame
    distances := {}
    output := output
    world := world
    requiring := []
    nextNode := 0 }

/-- Adds the distances of a program, which count where both have one for a
node. -/
def learn (machine : Machine) (distances : Distances) : Machine :=
  { machine with distances := machine.distances ∪ distances }

/-- The value of a global variable. -/
def global? (machine : Machine) (name : String) : Option Value :=
  machine.store.lookup? globalFrame name

/-- Gives a global variable a value, new or not. -/
def defineGlobal (machine : Machine) (name : String) (value : Value) :
    Machine :=
  { machine with store := machine.store.define globalFrame name value }

/-- The program of a source, with identities for its nodes that no other node
has. -/
def compile (machine : Machine) (source : ByteArray) :
    Except StaticError Program × Machine :=
  let (program, next) := Program.compile source machine.nextNode
  (program, { machine with nextNode := next })

end Machine

end LoxScript
