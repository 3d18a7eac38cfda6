namespace LoxScript.Text

/-!
# Reading UTF-8

A decoder reads one byte at a time.  Between characters it is ready; inside a
multi-byte character it knows how many bytes are still due and which values the
next one may take.  The strict reader stops at the first sequence that cannot be
continued; the lenient reader puts a replacement character in its place.
-/

namespace Utf8

/-- Why a sequence of bytes is not UTF-8 text. -/
inductive Fault where
  | invalid (index : Nat) (length : Nat)
  | incomplete (index : Nat)
deriving Repr, DecidableEq

/-- The wording of a fault, with the index of the first byte of the bad
sequence. -/
def Fault.message : Fault → String
  | .invalid index length =>
      s!"invalid utf-8 sequence of {length} bytes from index {index}"
  | .incomplete index => s!"incomplete utf-8 byte sequence from index {index}"

/-- A character of which some bytes are read and at least one is due. -/
structure Unfinished where
  /-- Bytes still due after the next one. -/
  due : Nat
  /-- Bytes read so far. -/
  read : Nat
  /-- Payload bits read so far. -/
  code : Nat
  /-- The least value of the next byte. -/
  low : UInt8
  /-- The greatest value of the next byte. -/
  high : UInt8
deriving Repr, DecidableEq

/-- What a byte makes of the character it belongs to. -/
inductive Reading where
  | complete (c : Char)
  | more (next : Unfinished)
  | bad
deriving Repr, DecidableEq

/-- Reads the first byte of a character. -/
def readLead (byte : UInt8) : Reading :=
  let sequence (due : Nat) (mask low high : UInt8) : Reading :=
    .more ⟨due, 1, (byte &&& mask).toNat, low, high⟩
  if byte ≤ 0x7f then .complete (Char.ofNat byte.toNat)
  else if byte < 0xc2 then .bad
  else if byte ≤ 0xdf then sequence 0 0x1f 0x80 0xbf
  else if byte = 0xe0 then sequence 1 0x0f 0xa0 0xbf
  else if byte = 0xed then sequence 1 0x0f 0x80 0x9f
  else if byte ≤ 0xef then sequence 1 0x0f 0x80 0xbf
  else if byte = 0xf0 then sequence 2 0x07 0x90 0xbf
  else if byte ≤ 0xf3 then sequence 2 0x07 0x80 0xbf
  else if byte = 0xf4 then sequence 2 0x07 0x80 0x8f
  else .bad

/-- Reads the next byte of a character that is under way. -/
def Unfinished.readNext (pending : Unfinished) (byte : UInt8) : Reading :=
  if pending.low ≤ byte && byte ≤ pending.high then
    let code := pending.code * 64 + (byte &&& 0x3f).toNat
    match pending.due with
    | 0 => .complete (Char.ofNat code)
    | due + 1 => .more ⟨due, pending.read + 1, code, 0x80, 0xbf⟩
  else .bad

/-- The state of a decoder: characters in reverse, and the character under
way. -/
structure Decoder where
  /-- The characters read, latest first. -/
  characters : List Char := []
  /-- Where the character under way starts. -/
  start : Nat := 0
  /-- The character under way, if one is. -/
  pending : Option Unfinished := none
deriving Repr, DecidableEq

/-- The text read so far. -/
def Decoder.text (decoder : Decoder) : String :=
  String.ofList decoder.characters.reverse

/-- Takes in one byte, or says why the bytes so far cannot be continued. -/
def Decoder.step (decoder : Decoder) (byte : UInt8) : Except Fault Decoder :=
  match decoder.pending with
  | none =>
      match readLead byte with
      | .complete c => .ok ⟨c :: decoder.characters, decoder.start + 1, none⟩
      | .more next => .ok { decoder with pending := some next }
      | .bad => .error (.invalid decoder.start 1)
  | some pending =>
      match pending.readNext byte with
      | .complete c =>
          .ok ⟨c :: decoder.characters, decoder.start + pending.read + 1, none⟩
      | .more next => .ok { decoder with pending := some next }
      | .bad => .error (.invalid decoder.start pending.read)

/-- The text of a decoder at the end of its input. -/
def Decoder.finish (decoder : Decoder) : Except Fault String :=
  match decoder.pending with
  | none => .ok decoder.text
  | some _ => .error (.incomplete decoder.start)

/-- The character that stands for a sequence that is not UTF-8. -/
def replacement : Char :=
  Char.ofNat 0xfffd

/-- Takes in one byte between characters, replacing it when no character starts
so. -/
def Decoder.startLenient (decoder : Decoder) (byte : UInt8) : Decoder :=
  match readLead byte with
  | .complete c =>
      { decoder with characters := c :: decoder.characters, pending := none }
  | .more next => { decoder with pending := some next }
  | .bad =>
      { decoder with
        characters := replacement :: decoder.characters, pending := none }

/-- Takes in one byte, with a replacement for the longest prefix that leads
nowhere. -/
def Decoder.stepLenient (decoder : Decoder) (byte : UInt8) : Decoder :=
  match decoder.pending with
  | none => decoder.startLenient byte
  | some pending =>
      match pending.readNext byte with
      | .complete c =>
          { decoder with
            characters := c :: decoder.characters, pending := none }
      | .more next => { decoder with pending := some next }
      | .bad =>
          Decoder.startLenient
            { decoder with
              characters := replacement :: decoder.characters, pending := none }
            byte

/-- The text of a lenient decoder at the end of its input. -/
def Decoder.finishLenient (decoder : Decoder) : String :=
  match decoder.pending with
  | none => decoder.text
  | some _ =>
      Decoder.text
        { decoder with characters := replacement :: decoder.characters }

/-- The text that the bytes spell, or where they stop being UTF-8. -/
def decode (bytes : ByteArray) : Except Fault String := do
  let decoder ← bytes.data.toList.foldlM Decoder.step {}
  decoder.finish

/-- The text that the bytes spell, with a replacement for each maximal bad
sequence. -/
def decodeLenient (bytes : ByteArray) : String :=
  (bytes.data.toList.foldl Decoder.stepLenient {}).finishLenient

end Utf8

end LoxScript.Text
