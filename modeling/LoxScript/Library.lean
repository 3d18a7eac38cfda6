import LoxScript.NameMap
import LoxScript.Files.Disk

namespace LoxScript

/-!
# Libraries of sources

A library turns the path of a `require` statement into the bytes of a source.
Sources may be kept under their names, or looked for on a disk relative to a
base directory, where a path without an extension that leads nowhere gets the
extension of scripts.
-/

/-- A library: the source for the path of a `require` statement. -/
abbrev Library := String → Except ReadFailure ByteArray

/-- The extension of scripts. -/
def scriptExtension : String :=
  "lox"

namespace Library

/-- The library of sources kept under their names. -/
def ofSources (sources : NameMap String) : Library := fun path =>
  match sources.find? path with
  | some source => .ok source.toUTF8
  | none => .error (.unnamed path)

/-- The library without any source. -/
def nowhere : Library := fun _ =>
  .error .missing

/-- The file that a path means, relative to a base directory. -/
def locate (disk : Disk) (base path : String) : String :=
  let full := Path.within base path
  if Path.hasExtension full || disk.has full then full
  else Path.addExtension full scriptExtension

/-- The library of the files on a disk, relative to a base directory. -/
def ofDisk (disk : Disk) (base : String) : Library := fun path =>
  disk (locate disk base path)

end Library

end LoxScript
