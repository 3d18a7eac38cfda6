namespace LoxScript

/-!
# Output sinks

A sink keeps the bytes written to it.  It may accept only a number of bytes in
total: a write that goes beyond it is accepted up to the limit and fails.
-/

/-- Why a sink refuses. -/
inductive SinkFault where
  | full
  | flushRefused
deriving Repr, DecidableEq

/-- The wording of a refusal. -/
def SinkFault.message : SinkFault → String
  | .full => "sink is full"
  | .flushRefused => "flush refused"

/-- A sink with what it has accepted. -/
structure Sink where
  written : ByteArray := .empty
  /-- How many bytes it accepts in total, if there is a limit. -/
  limit : Option Nat := none
  /-- Every flush fails. -/
  refusesFlush : Bool := false

namespace Sink

/-- Whether the sink still accepts this many bytes. -/
def accepts (sink : Sink) (size : Nat) : Bool :=
  match sink.limit with
  | none => true
  | some limit => sink.written.size + size ≤ limit

/-- Adds bytes as far as the limit allows. -/
def append (sink : Sink) (bytes : ByteArray) : Sink :=
  match sink.limit with
  | none => { sink with written := sink.written ++ bytes }
  | some limit =>
      { sink with
        written := sink.written ++ bytes.extract 0 (limit - sink.written.size) }

/-- The fault of a write of this many bytes, if it fails. -/
def writeFault? (sink : Sink) (size : Nat) : Option SinkFault :=
  if sink.accepts size then none else some .full

/-- The fault of a flush, if it fails. -/
def flushFault? (sink : Sink) : Option SinkFault :=
  if sink.refusesFlush then some .flushRefused else none

/-- A write does not change the limit. -/
@[simp] theorem limit_append
    (sink : Sink)
    (bytes : ByteArray) :
    (sink.append bytes).limit = sink.limit := by
  cases limited : sink.limit <;> simp [append, limited]

/-- A write that is accepted is kept whole. -/
theorem written_append_of_accepts
    {sink : Sink}
    {bytes : ByteArray}
    (accepted : sink.accepts bytes.size) :
    (sink.append bytes).written = sink.written ++ bytes := by
  cases limited : sink.limit with
  | none =>
      simp [append, limited]
  | some limit =>
      have room : bytes.size ≤ limit - sink.written.size := by
        simp [accepts, limited] at accepted
        omega
      have whole : bytes.extract 0 (limit - sink.written.size) = bytes :=
        ByteArray.ext (by simpa only [ByteArray.data_extract] using
          Array.extract_eq_self_of_le room)
      simp [append, limited, whole]

end Sink

end LoxScript
