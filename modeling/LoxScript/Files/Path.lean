namespace LoxScript.Path

/-!
# Paths as text

A path is a text whose parts are separated by slashes.  Empty parts and single
dots do not count, except for a dot at the very start of a relative path.  The
functions here work on the text alone and keep what they do not cut off as it is
written.
-/

/-- The parts of a text between slashes. -/
def split : List Char → List (List Char)
  | [] => [[]]
  | c :: rest =>
      if c = '/' then [] :: split rest
      else
        match split rest with
        | [] => [[c]]
        | first :: others => (c :: first) :: others

/-- The parts put together again with slashes between them. -/
def join : List (List Char) → List Char
  | [] => []
  | [part] => part
  | part :: rest => part ++ '/' :: join rest

/-- Whether a part leads nowhere. -/
def isIdle (part : List Char) : Bool :=
  part.isEmpty || part == ['.']

/-- The slash or dot at the start of a path that counts although no part follows
it. -/
def anchorOf : List Char → List Char
  | '/' :: _ => ['/']
  | ['.'] => ['.']
  | '.' :: '/' :: _ => ['.']
  | _ => []

/-- A path taken apart: its anchor, the parts before the last that counts, and
that part. -/
structure Anatomy where
  anchor : List Char
  before : List (List Char)
  last : Option (List Char)
deriving Repr, DecidableEq

/-- Takes a path apart; idle parts after the last one that counts are
dropped. -/
def Anatomy.ofPath (path : List Char) : Anatomy :=
  let start := anchorOf path
  let parts := split (path.drop start.length)
  match parts.reverse.dropWhile isIdle with
  | last :: before => ⟨start, before.reverse, some last⟩
  | [] => ⟨start, [], none⟩

/-- The directory that a path lies in; empty when the path has no parts. -/
def parent (path : String) : String :=
  let anatomy := Anatomy.ofPath path.toList
  match anatomy.last with
  | some _ =>
      let kept := (anatomy.before.reverse.dropWhile isIdle).reverse
      String.ofList (anatomy.anchor ++ join kept)
  | none => ""

/-- The last part of a path, unless it leads to a parent directory. -/
def fileName? (path : String) : Option (List Char) :=
  match (Anatomy.ofPath path.toList).last with
  | some last => if last == ['.', '.'] then none else some last
  | none => none

/-- Whether a file name has an extension: a dot that is not its first
character. -/
def nameHasExtension (name : List Char) : Bool :=
  name.tail.contains '.'

/-- Whether the last part of a path has an extension. -/
def hasExtension (path : String) : Bool :=
  match fileName? path with
  | some name => nameHasExtension name
  | none => false

/-- A path without an extension, with one added to its last part. -/
def addExtension (path extension : String) : String :=
  match fileName? path with
  | some name =>
      let anatomy := Anatomy.ofPath path.toList
      let parts := anatomy.before ++ [name ++ '.' :: extension.toList]
      String.ofList (anatomy.anchor ++ join parts)
  | none => path

/-- Whether a path starts at the root. -/
def isAbsolute (path : String) : Bool :=
  path.toList.head? == some '/'

/-- A path taken relative to a base directory. -/
def within (base path : String) : String :=
  if isAbsolute path then path
  else if base.isEmpty || base.toList.getLast? == some '/' then base ++ path
  else base ++ "/" ++ path

end LoxScript.Path
