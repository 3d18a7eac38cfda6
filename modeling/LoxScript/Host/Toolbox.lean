import LoxScript.Host

namespace LoxScript.Toolbox

/-!
# Natives for hosts to pick from

Small natives that a host may register under names of its choice, to try out how
scripts and natives work together.
-/

/-- Twice a number. -/
def double : NativeBody := fun arguments world =>
  match arguments.head? with
  | some (.number value) => (.ok (.number (value * 2.0)), world)
  | _ => (.error "double() needs a number", world)

/-- Asks the current run to stop. -/
def cancel : NativeBody := fun _ world =>
  (.ok .nil, world.cancel)

/-- Fails for the reason given. -/
def fail : NativeBody := fun arguments world =>
  match arguments.head? with
  | some reason => (.error reason.text, world)
  | none => (.error "no reason", world)

/-- Tells how often it has been called, counting under a key. -/
def count (key : String) : NativeBody := fun _ world =>
  let counted := world.count key
  (.ok (.number (Float.ofNat (counted.tally key))), counted)

/-- The texts of all arguments with commas between them. -/
def join : NativeBody := fun arguments world =>
  (.ok (.string (String.intercalate "," (arguments.map Value.text))), world)

/-- The name of an argument's type. -/
def type : NativeBody := fun arguments world =>
  (.ok (.string (argumentType arguments.head?)), world)

/-- The first argument. -/
def echo : NativeBody := fun arguments world =>
  (.ok (arguments.headD .nil), world)

/-- The tool with a name, for registration under a key. -/
def body? (tool key : String) : Option NativeBody :=
  match tool with
  | "double" => some double
  | "cancel" => some cancel
  | "fail" => some fail
  | "count" => some (count key)
  | "join" => some join
  | "type" => some type
  | "echo" => some echo
  | _ => none

end LoxScript.Toolbox
