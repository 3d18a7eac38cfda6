import LoxScript.NameMap

namespace LoxScript

/-!
# What natives see of the world

Natives may read the clock, draw random numbers, keep tallies and ask for the
current run to stop.  All of that is plain data: a clock that moves when it is
read and when a script sleeps, a stream of random numbers with a position in it,
and a flag.
-/

/-- The state that natives share with their host. -/
structure World where
  /-- The host or a native has asked runs to stop. -/
  cancelled : Bool := false
  /-- Seconds since the start of 1970. -/
  clock : Float
  /-- The stream of random numbers. -/
  entropy : Nat → Nat
  /-- How many random numbers have been drawn. -/
  drawn : Nat := 0
  /-- How often natives that count have been called. -/
  tallies : NameMap Nat := NameMap.empty

namespace World

/-- Lets time pass. -/
def wait (world : World) (seconds : Float) : World :=
  { world with clock := world.clock + seconds }

/-- How many seconds it takes to read the clock. -/
def readingTime : Float :=
  0.00000095367431640625

/-- Time passes while the clock is read, so a later reading is greater. -/
def tick (world : World) : World :=
  world.wait readingTime

/-- A random number below `bound`. -/
def draw (world : World) (bound : Nat) : Nat :=
  world.entropy world.drawn % bound

/-- Moves on in the stream of random numbers. -/
def skipDraw (world : World) : World :=
  { world with drawn := world.drawn + 1 }

/-- How often the native with this key has been called. -/
def tally (world : World) (key : String) : Nat :=
  (world.tallies.find? key).getD 0

/-- Counts one call of the native with this key. -/
def count (world : World) (key : String) : World :=
  { world with tallies := world.tallies.insert key (world.tally key + 1) }

/-- Asks runs to stop. -/
def cancel (world : World) : World :=
  { world with cancelled := true }

/-- Withdraws the wish to stop. -/
def resume (world : World) : World :=
  { world with cancelled := false }

end World

end LoxScript
