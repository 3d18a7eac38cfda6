import LoxScript.Machine.Evaluation
import LoxScript.Text.Quoted

namespace LoxScript

/-!
# What a host can look at

The forms in which frames, classes and instances are shown to a host, and calls,
property accesses and look-ups that a host makes by itself.
-/

/-- A record in its shown form: a name and fields between braces. -/
def shownRecord (name : String) (fields : List (String × String)) : String :=
  let shown := fields.map fun field => field.1 ++ ": " ++ field.2
  name ++ " \x7b " ++ String.intercalate ", " shown ++ " \x7d"

/-- A truth value in its shown form. -/
def shownBool (value : Bool) : String :=
  if value then "true" else "false"

/-- The shown form of a frame. -/
def Store.shownFrame (store : Store) (frame : FrameId) : String :=
  shownRecord "Environment"
    [("names", Text.quotedList (store.names frame)),
      ("global", shownBool (store.isGlobal frame))]

/-- The shown form of a class with its superclasses. -/
def Class.shown : Class → String
  | ⟨_, name, none, methods⟩ =>
      shownRecord "Class"
        [("name", Text.quoted name), ("methods", Text.quotedList methods.names),
          ("superclass", "None")]
  | ⟨_, name, some superclass, methods⟩ =>
      shownRecord "Class"
        [("name", Text.quoted name), ("methods", Text.quotedList methods.names),
          ("superclass", "Some(" ++ superclass.shown ++ ")")]

/-- The shown form of an instance. -/
def Store.shownInstance (store : Store) (object : Instance) : String :=
  shownRecord "Instance"
    [("class", Text.quoted object.blueprint.name),
      ("fields", Text.quotedList (store.fieldNames object.identity))]

namespace Machine

/-- Enters a new frame inside the present one for each list of variables. -/
def enterFrames (machine : Machine) (frames : List (NameMap Value)) : Machine :=
  frames.foldl
    (fun machine bindings =>
      { machine with
        store := machine.store.allocate ⟨bindings, some machine.active⟩
        active := machine.store.nextFrame })
    machine

/-- Goes back to the global frame. -/
def leaveFrames (machine : Machine) : Machine :=
  { machine with active := globalFrame }

/-- Files a distance for the next node, and counts the node as handed out. -/
def fileNode (machine : Machine) (distance : Option Nat) : NodeId × Machine :=
  let id := machine.nextNode
  let distances := match distance with
    | some found => machine.distances.insert id found
    | none => machine.distances
  (id, { machine with distances := distances, nextNode := id + 1 })

end Machine

end LoxScript
