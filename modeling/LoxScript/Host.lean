import LoxScript.Value
import LoxScript.World

namespace LoxScript

/-!
# Natives of a host

A host lends scripts functions of its own.  Such a native gets its arguments and
the world, and gives back a value or the reason why it failed, with the world as
it left it.
-/

/-- What a native does. -/
abbrev NativeBody := List Value → World → Except String Value × World

/-- A native as a host registers it. -/
structure HostNative where
  name : String
  arity : Nat
  body : NativeBody

namespace HostNative

/-- The value by which scripts call the native in a slot. -/
def value (native : HostNative) (slot : Nat) : Native :=
  ⟨slot, native.name, native.arity⟩

end HostNative

/-- Calls the native in a slot of the host's natives. -/
def performNative
    (natives : List HostNative)
    (slot : Nat)
    (arguments : List Value)
    (world : World) : Except String Value × World :=
  match natives[slot]? with
  | some native => native.body arguments world
  | none => (.error "not registered", world)

/-- How messages call the type of an argument that may be absent. -/
def argumentType : Option Value → String
  | some value => value.typeName
  | none => "nothing"

end LoxScript
