import LoxScript.Host

namespace LoxScript.Standard

/-!
# The natives every session starts with

`clock` tells the time, `sleep` lets time pass and `randN` draws a random
number.
-/

/-- The first duration in seconds that is too long to wait for. -/
def durationLimit : Float :=
  18446744073709551616.0

/-- The greatest bound for which every integer below it is a number. -/
def randomLimit : Float :=
  9007199254740992.0

/-- Tells the seconds since the start of 1970. -/
def clock : NativeBody := fun _ world =>
  (.ok (.number world.clock), world.tick)

/-- Waits for a number of milliseconds; a negative one counts as zero. -/
def sleep : NativeBody := fun arguments world =>
  match arguments.head? with
  | some (.number milliseconds) =>
      let seconds := (if milliseconds > 0.0 then milliseconds else 0.0) / 1000.0
      if seconds < durationLimit then (.ok .nil, world.wait seconds)
      else
        let given := Decimal.write milliseconds
        (.error s!"sleep() requires a finite duration, got {given}", world)
  | other =>
      (.error
        s!"sleep() requires milliseconds as a number, not {argumentType other}",
        world)

/-- Draws a random integer that is at least zero and less than the given
number. -/
def randN : NativeBody := fun arguments world =>
  match arguments.head? with
  | some (.number bound) =>
      if !(bound > 0.0) then
        (.error
          s!"randN()'s parameter must be positive, got {Decimal.write bound}",
          world)
      else if bound > randomLimit then
        (.error s!"randN()'s parameter is too large, got {Decimal.write bound}",
          world)
      else
        let drawn := world.draw bound.ceil.toUInt64.toNat
        (.ok (.number (Float.ofNat drawn)), world.skipDraw)
  | other =>
      (.error s!"randN() requires a number parameter, not {argumentType other}",
        world)

/-- The standard natives with the keys they are registered under. -/
def natives : List (String × HostNative) :=
  [("clock", ⟨"clock", 0, clock⟩),
    ("sleep", ⟨"sleep", 1, sleep⟩),
    ("randN", ⟨"randN", 1, randN⟩)]

/-- The standard native with a name. -/
def find? (name : String) : Option HostNative :=
  (NameMap.ofList natives).find? name

end LoxScript.Standard
