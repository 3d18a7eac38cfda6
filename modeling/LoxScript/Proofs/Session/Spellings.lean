import Mathlib
import LoxScript.Proofs.Session.Chain

namespace LoxScript

/-!
# One file under several paths

What is being executed is known by the paths it was required under, and not by
the files that these lead to.  A file has several paths: with and without its
extension, with parts that lead nowhere, from the root.  So a file that is being
executed is stopped from being executed within itself exactly where the path is
spelled as before.
-/

open Run

/-- A path that is required is located at the file with these parts, which can
be read. -/
structure FileTree.Locates
    (tree : FileTree)
    (base path : String)
    (file : List (List Char)) : Prop where
  place : tree.walk (Library.locate tree.disk base path) = .ok (.inside file)
  readable : ∃ text, Library.ofDisk tree.disk base path = .ok text

namespace FileTree

variable {tree : FileTree}

/-- What is read at a path is what the file has in it that the path leads to. -/
theorem file?_of_disk
    {path : String}
    {file : List (List Char)}
    {text : ByteArray}
    (place : tree.walk path = .ok (.inside file))
    (reads : tree.disk path = .ok text) :
    tree.file? file = some text := by
  have contents : tree.contents (.inside file) = .ok text := by
    unfold disk at reads
    rw [place] at reads
    cases isEmpty : path.isEmpty <;> rw [isEmpty] at reads
    · cases hasNul : path.toList.contains '\x00' <;> rw [hasNul] at reads
      · by_cases isLong : pathLimit < path.utf8ByteSize
        · rw [if_pos isLong] at reads
          cases reads
        · rw [if_neg isLong] at reads
          exact reads
      · cases reads
    · cases reads
  cases isThere : tree.file? file with
  | some bytes =>
      rw [FileTree.contents, isThere] at contents
      cases contents
      rfl
  | none =>
      rw [FileTree.contents, isThere] at contents
      cases contents

namespace Locates

variable {base path : String} {file : List (List Char)}

/-- A path that leads to a file is served what the file has in it. -/
theorem serves
    (locates : tree.Locates base path file) :
    ∃ text, tree.file? file = some text ∧ Library.ofDisk tree.disk base path =
      .ok text := by
  obtain ⟨text, reads⟩ := locates.readable
  exact ⟨text, file?_of_disk locates.place reads, reads⟩

/-- Every path to a file is served what another one is. -/
theorem serves_alike
    {other : String}
    {text : ByteArray}
    (locates : tree.Locates base path file)
    (locatesOther : tree.Locates base other file)
    (served : Library.ofDisk tree.disk base other = .ok text) :
    tree.file? file = some text ∧ Library.ofDisk tree.disk base path =
      .ok text := by
  obtain ⟨found, isThere, serves⟩ := locates.serves
  have isOther := file?_of_disk locatesOther.place served
  cases isThere.symm.trans isOther
  exact ⟨isThere, serves⟩

end Locates

end FileTree

/-- No statement of a source is executed by requiring it while it is being
executed. -/
theorem not_calls_of_mem
    {context : Context}
    {steps : Nat}
    {keyword : Token}
    {path : String}
    {machine after : Machine}
    {task : Task}
    (member : path ∈ machine.requiring) :
    ¬ Calls context steps (.exec (.require keyword path)) machine
      task after := by
  intro calls
  cases calls with
  | required loads => exact fresh_of_loadRequired loads member

namespace Session

/-- A file that is being executed is required again, under a path that may be
spelled in another way.  If the stack has the path as it is spelled, the
statement fails with the path and its own line, and no statement of the file is
executed.  If it does not, the file is accepted once more and executed from its
first statement on, while it is still being executed. -/
theorem require_stops_exactly_where_spelled_as_before
    {tree : FileTree}
    {base path other : String}
    {file : List (List Char)}
    {session : Session}
    {stopping : Stopping}
    {steps : Nat}
    {source : ByteArray}
    {keyword : Token}
    {machine : Machine}
    (rests : session.AtRest)
    (onDisk : session.library = .ofDisk tree.disk base)
    (reaches : session.Reaches stopping steps source
      (.exec (.require keyword path)) machine)
    (executing : other ∈ machine.requiring)
    (locatesOther : tree.Locates base other file)
    (locates : tree.Locates base path file) :
    (path ∈ machine.requiring →
      ∀ steps,
        exec session.context (steps + 1) (.require keyword path) machine =
            .error (.failed (.cyclicRequire path keyword.line)) machine ∧
          ∀ task after,
            ¬ Calls session.context steps (.exec (.require keyword path))
              machine task after) ∧
    (path ∉ machine.requiring →
      ∃ text program compiled started,
        tree.file? file = some text ∧
          machine.compile text = (.ok program, compiled) ∧
          started.requiring = path :: machine.requiring ∧
          session.Reaches stopping steps source (.execAll program.statements)
            started) := by
  refine ⟨fun member steps => ⟨exec_require_of_mem member,
    fun _ _ => not_calls_of_mem member⟩, ?_⟩
  intro fresh
  obtain ⟨text, accepted, last, served, compiles⟩ :=
    (reaches.chained rests).served other executing
  rw [onDisk] at served
  obtain ⟨isThere, servesAlike⟩ := locates.serves_alike locatesOther served
  obtain ⟨program, next, compilesHere⟩ :=
    Program.accepted_again compiles machine.nextNode
  have acceptedHere :
      machine.compile text = (.ok program, { machine with nextNode := next }) :=
    Machine.compile_eq_ok_iff.mpr ⟨next, compilesHere, rfl⟩
  have loads : loadRequired session.context keyword path machine =
      .ok program _ :=
    loadRequired_eq_ok fresh ((congrFun onDisk path).trans servesAlike)
      acceptedHere
  obtain ⟨whole, compiled, statement, start, acceptedWhole, proceeds,
    reachesTask⟩ := reaches
  exact ⟨text, program, _, _, isThere, acceptedHere, rfl,
    whole, compiled, statement, start, acceptedWhole, proceeds,
    .call 0 reachesTask (.required loads)⟩

/-- A directory with one script. -/
def folder (text : ByteArray) : FileTree :=
  ⟨[(["a.lox".toList], text)]⟩

/-- The script is found with its extension and without it. -/
theorem locates_folder
    (text : ByteArray) :
    (folder text).Locates "" "a" ["a.lox".toList] ∧
      (folder text).Locates "" "a.lox" ["a.lox".toList] := by
  have isShort : Library.locate (folder text).disk "" "a" = "a.lox" := by rfl
  have isLong : Library.locate (folder text).disk "" "a.lox" = "a.lox" := by rfl
  have place : (folder text).walk "a.lox" = .ok
      (.inside ["a.lox".toList]) := by rfl
  have reads : (folder text).disk "a.lox" = .ok text := by rfl
  refine ⟨⟨?_, text, ?_⟩, ⟨?_, text, ?_⟩⟩
  · rw [isShort, place]
  · rw [Library.ofDisk, isShort, reads]
  · rw [isLong, place]
  · rw [Library.ofDisk, isLong, reads]

/-- A session in that directory. -/
def inFolder (text : ByteArray) : Session :=
  bare (folder text).disk {} { clock := 0, entropy := fun _ => 0 }

/-- The script that was required without its extension, and requires itself with
it, is executed within itself. -/
theorem require_starts_again_with_extension :
    ∃ keyword machine program compiled started,
      (inFolder "require \"a.lox\";".toUTF8).Reaches .unheeding 9
        "require \"a\";".toUTF8
          (.exec (.require keyword "a.lox")) machine ∧
        machine.requiring = ["a"] ∧
        machine.compile "require \"a.lox\";".toUTF8 = (.ok program, compiled) ∧
        started.requiring = ["a.lox", "a"] ∧
        (inFolder "require \"a.lox\";".toUTF8).Reaches .unheeding 9
          "require \"a\";".toUTF8 (.execAll program.statements) started := by
  let keyword : Token := ⟨.keyword .requireWord, "require", 1⟩
  have scanned : Program.tokens "require \"a\";".toUTF8 =
      .ok [keyword, ⟨.string "a", "\"a\"", 1⟩, ⟨.symbol .semicolon, ";", 1⟩,
        ⟨.endOfInput, "", 1⟩] := by
    cbv
  have scannedFile : Program.tokens "require \"a.lox\";".toUTF8 =
      .ok [keyword, ⟨.string "a.lox", "\"a.lox\"", 1⟩,
        ⟨.symbol .semicolon, ";", 1⟩, ⟨.endOfInput, "", 1⟩] := by
    cbv
  generalize "require \"a.lox\";".toUTF8 = text at scannedFile ⊢
  have accepted : (inFolder text).machine.compile "require \"a\";".toUTF8 =
      (.ok ⟨[.require keyword "a"], {}⟩, (inFolder text).machine) :=
    Machine.compile_eq_ok_iff.mpr
      ⟨0, Program.compile_of_parsed scanned (by cbv) rfl, rfl⟩
  have acceptedFile :
      (prepared (inFolder text) ⟨[.require keyword "a"], {}⟩).compile text =
      (.ok ⟨[.require keyword "a.lox"], {}⟩,
        prepared (inFolder text) ⟨[.require keyword "a"], {}⟩) :=
    Machine.compile_eq_ok_iff.mpr
      ⟨0, Program.compile_of_parsed scannedFile (by cbv) rfl, rfl⟩
  have empty :
      (prepared (inFolder text) ⟨[.require keyword "a"], {}⟩).requiring = [] :=
      rfl
  have rests : (inFolder text).AtRest := ⟨rfl, rfl⟩
  have onDisk : (inFolder text).library = .ofDisk (folder text).disk "" := by
    rw [inFolder, bare]
  obtain ⟨short, long⟩ := locates_folder text
  obtain ⟨found, isThere, served⟩ := short.serves
  cases isThere
  -- All that counts of the session is known now.
  generalize inFolder text = session at *
  have loads : loadRequired session.context keyword "a"
      (prepared session ⟨[.require keyword "a"], {}⟩) = .ok
      ⟨[.require keyword "a.lox"], {}⟩ _ :=
    loadRequired_eq_ok (empty ▸ List.not_mem_nil)
      ((congrFun onDisk "a").trans served) acceptedFile
  have reaches := reaches_first_required 9 accepted rfl loads rfl
  have isOnly := congrArg ("a" :: ·) empty
  have isOther : "a.lox" ∉ ["a"] := by decide
  obtain ⟨again, program, compiled, started, isThere, acceptedAgain, grown,
      reachesAgain⟩ :=
    (require_stops_exactly_where_spelled_as_before rests onDisk reaches
      List.mem_cons_self short long).2 (isOnly ▸ isOther)
  cases isThere
  exact ⟨keyword, _, program, compiled, started, reaches, isOnly, acceptedAgain,
    grown.trans (congrArg ("a.lox" :: ·) isOnly), reachesAgain⟩

end Session

end LoxScript
