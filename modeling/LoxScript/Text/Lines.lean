namespace LoxScript.Text

/-!
# Lines of a byte stream

A line ends with a line feed or with the input.  The line feed and one carriage
return right before it do not belong to the line; a carriage return at the very
end of the input does.
-/

/-- A line feed. -/
def lineFeed : UInt8 :=
  10

/-- A carriage return. -/
def carriageReturn : UInt8 :=
  13

/-- A finished line, given its bytes in reverse, without a final carriage
return. -/
def closeLine (reversed : List UInt8) : ByteArray :=
  match reversed with
  | byte :: rest =>
      if byte = carriageReturn then ⟨rest.reverse.toArray⟩
      else ⟨reversed.reverse.toArray⟩
  | [] => ⟨#[]⟩

/-- The lines of `bytes` when `reversed` holds the line under way in reverse. -/
def linesFrom (reversed : List UInt8) : List UInt8 → List ByteArray
  | [] => if reversed.isEmpty then [] else [⟨reversed.reverse.toArray⟩]
  | byte :: rest =>
      if byte = lineFeed then closeLine reversed :: linesFrom [] rest
      else linesFrom (byte :: reversed) rest

/-- The lines of a byte stream in order; an empty stream has none. -/
def lines (bytes : ByteArray) : List ByteArray :=
  linesFrom [] bytes.data.toList

end LoxScript.Text
