import LoxScript.Files.Path

namespace LoxScript

/-!
# Files

A disk answers what is at a path.  `FileTree` is a disk given by its contents:
the files below a working directory, whose own surroundings hold nothing else.
-/

/-- Why nothing can be read from a place. -/
inductive ReadFailure where
  | missing
  | notADirectory
  | isADirectory
  | nameTooLong
  | nulInName
  | unnamed (name : String)
  | other (text : String)
deriving Repr, DecidableEq

/-- The wording of a failure. -/
def ReadFailure.message : ReadFailure → String
  | .missing => "No such file or directory (os error 2)"
  | .notADirectory => "Not a directory (os error 20)"
  | .isADirectory => "Is a directory (os error 21)"
  | .nameTooLong => "File name too long (os error 36)"
  | .nulInName => "file name contained an unexpected NUL byte"
  | .unnamed name => "no source named " ++ name
  | .other text => text

/-- A disk: the contents of the file at a path. -/
abbrev Disk := String → Except ReadFailure ByteArray

/-- Whether something is at a path, be it a file or a directory. -/
def Disk.has (disk : Disk) (path : String) : Bool :=
  match disk path with
  | .ok _ => true
  | .error .isADirectory => true
  | .error _ => false

/-- The longest name of a file in bytes. -/
def nameLimit : Nat :=
  255

/-- The longest path in bytes. -/
def pathLimit : Nat :=
  4095

/-- The files below a working directory, by the parts of their paths. -/
structure FileTree where
  files : List (List (List Char) × ByteArray)

namespace FileTree

/-- The tree of files given by their relative paths. -/
def ofFiles (files : List (String × ByteArray)) : FileTree :=
  ⟨files.map fun file =>
    ((Path.split file.1.toList).filter fun part => !Path.isIdle part, file.2)⟩

/-- The tree without files. -/
def empty : FileTree :=
  ⟨[]⟩

/-- The file with exactly these parts. -/
def file? (tree : FileTree) (parts : List (List Char)) : Option ByteArray :=
  (tree.files.find? fun file => file.1 == parts).map Prod.snd

/-- Whether the parts name a directory: the working directory, or one on the way
to a file. -/
def isDirectory (tree : FileTree) (parts : List (List Char)) : Bool :=
  parts.isEmpty || tree.files.any fun file =>
    parts.length < file.1.length && file.1.take parts.length == parts

/-- A place on the way along a path. -/
inductive Place where
  | inside (parts : List (List Char))
  | outside
deriving Repr, DecidableEq

/-- Whether a place can be passed through. -/
def passable (tree : FileTree) : Place → Bool
  | .inside parts => tree.isDirectory parts
  | .outside => true

/-- The place a part of a path leads to. -/
def enter (tree : FileTree) (place : Place) (part : List Char) :
    Except ReadFailure Place :=
  if !tree.passable place then .error .notADirectory
  else if Path.isIdle part then .ok place
  else if part == ['.', '.'] then
    match place with
    | .inside [] => .ok .outside
    | .inside parts => .ok (.inside parts.dropLast)
    | .outside => .ok .outside
  else if nameLimit < (String.ofList part).utf8ByteSize then .error .nameTooLong
  else
    match place with
    | .outside => .error .missing
    | .inside parts =>
        let reached := parts ++ [part]
        if tree.isDirectory reached || (tree.file? reached).isSome then
          .ok (.inside reached)
        else .error .missing

/-- The place that a path leads to. -/
def walk (tree : FileTree) (path : String) : Except ReadFailure Place :=
  let start := if Path.isAbsolute path then Place.outside else .inside []
  (Path.split path.toList).foldlM tree.enter start

/-- The contents of the file at a place. -/
def contents (tree : FileTree) : Place → Except ReadFailure ByteArray
  | .inside parts =>
      match tree.file? parts with
      | some bytes => .ok bytes
      | none => .error .isADirectory
  | .outside => .error .isADirectory

/-- The tree as a disk. -/
def disk (tree : FileTree) : Disk := fun path => do
  if path.isEmpty then throw .missing
  if path.toList.contains '\x00' then throw .nulInName
  if pathLimit < path.utf8ByteSize then throw .nameTooLong
  tree.contents (← tree.walk path)

end FileTree

end LoxScript
