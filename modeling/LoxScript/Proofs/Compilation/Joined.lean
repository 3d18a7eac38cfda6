import LoxScript.Proofs.Compilation.Elsewhere
import LoxScript.Proofs.Scope.Table
import LoxScript.Proofs.Token.Joining

namespace LoxScript

/-!
# Compiling two sources as one

Two sources that are accepted are accepted with a line break between them.  The
statements are those of the first source, and then those of the second one with
other identities and other lines; all nodes keep their distances.
-/

/-- Two lists of tokens that each spell a program spell both programs, one after
the other. -/
theorem parseProgram_append
    {body others : List Token}
    {finish finishOther : Token}
    {statements added : List Stmt}
    {first middle next : NodeId}
    (isSealed : Sealed body finish)
    (isSealedOther : Sealed others finishOther)
    (parsed : parseProgram (body ++ [finish]) first = (.ok statements, middle))
    (parsedOther :
      parseProgram (others ++ [finishOther]) middle = (.ok added, next)) :
    parseProgram (body ++ (others ++ [finishOther])) first =
      (.ok (statements ++ added), next) := by
  have isSealedBoth : Sealed (body ++ others) finishOther := by
    refine ⟨isSealedOther.isEnd, ?_⟩
    intro token member
    rcases List.mem_append.mp member with inFirst | inSecond
    · exact isSealed.noEnd token inFirst
    · exact isSealedOther.noEnd token inSecond
  rw [← List.append_assoc]
  exact (parseProgram_eq_ok_iff isSealedBoth first next _).mpr
    (((parseProgram_eq_ok_iff isSealed first middle _).mp
      parsed).sequence_append
      ((parseProgram_eq_ok_iff isSealedOther middle next _).mp parsedOther))

/-- The last token is still the only end of input on other lines. -/
theorem Sealed.moved
    {body : List Token}
    {finish : Token}
    (isSealed : Sealed body finish)
    (lines : Int) :
    Sealed (body.map (Token.moved lines)) (finish.moved lines) := by
  refine ⟨isSealed.isEnd, ?_⟩
  intro token member
  obtain ⟨still, isStill, rfl⟩ := List.mem_map.mp member
  exact isSealed.noEnd still isStill

/-- Analysing statements one list after the other. -/
theorem Stmt.resolveAll_append
    (statements others : List Stmt) :
    Stmt.resolveAll (statements ++ others) =
      (do
        Stmt.resolveAll statements
        Stmt.resolveAll others) := by
  induction statements with
  | nil => rfl
  | cons first rest inductionHypothesis =>
      simp only [List.cons_append, Stmt.resolveAll, inductionHypothesis,
        bind_assoc]

/-- A program that is accepted is left as it was entered: outside of all scopes,
functions and classes. -/
theorem Analysis.outside_of_accepted
    {statements : List Stmt}
    {after : Analysis}
    (accepted : Stmt.resolveAll statements {} = .ok () after) :
    after.scopes = [] ∧ after.inFunction = false ∧
      after.inClass = .outside := by
  obtain ⟨kept, inClass⟩ := (Stmt.keeps_resolveAll statements {}).ok accepted
  exact ⟨List.length_eq_zero_iff.mp kept.height, kept.inFunction, inClass⟩

/-- Statements that are accepted after others that are accepted: those of the
first list keep their distances, and those of the second have the distances that
they have by themselves. -/
theorem resolveProgram_append
    {related : Correspondence}
    {statements others added : List Stmt}
    {distances distancesOther : Distances}
    (isExact : related.Exact)
    (accepted : resolveProgram statements = .ok distances)
    (acceptedOther : resolveProgram others = .ok distancesOther)
    (alike : List.Forall₂ (Stmt.Alike related) others added)
    (unfiled : ∀ id image : NodeId, related.nodes id image →
      distances[image]? = none) :
    ∃ whole, resolveProgram (statements ++ added) = .ok whole ∧
      (∀ id : NodeId, id ∉ (Part.stmts added).ids →
        whole[id]? = distances[id]?) ∧
      ∀ id image : NodeId, related.nodes id image →
        whole[image]? = distancesOther[id]? := by
  have resolves {list : List Stmt} {table : Distances}
      (passes : resolveProgram list = .ok table) :
      ∃ after, Stmt.resolveAll list {} = .ok () after ∧
        after.distances = table := by
    unfold resolveProgram at passes
    split at passes
    · rename_i after yields
      exact ⟨after, yields, Except.ok.inj passes⟩
    · cases passes
  obtain ⟨first, yields, rfl⟩ := resolves accepted
  obtain ⟨second, yieldsOther, rfl⟩ := resolves acceptedOther
  obtain ⟨scopes, inFunction, inClass⟩ := Analysis.outside_of_accepted yields
  have start : Analysis.Corresponds related first.distances {} first := by
    refine ⟨scopes, inFunction, inClass, fun id image _ => ?_⟩
    have nothing : ({} : Distances)[id]? = none := Std.TreeMap.getElem?_emptyc
    rw [nothing, Option.none_or]
  obtain ⟨⟨⟩, final, yieldsAdded, corresponds⟩ :=
    (Stmt.corresponding_resolveAll isExact others alike {} first start).ok
      yieldsOther
  refine ⟨final.distances, ?_, ?_, ?_⟩
  · unfold resolveProgram
    rw [Stmt.resolveAll_append, bind_of_ok yields, yieldsAdded]
  · intro id absent
    have added : (Part.stmts added).resolve first = .ok () final := yieldsAdded
    exact Part.distances_of_resolve added absent
  · intro id image nodes
    rw [corresponds.distances id image nodes, unfiled id image nodes,
      Option.or_none]

/-- The tokens stand a number of lines further down, and the identities are
equally far from two first ones. -/
def Correspondence.moved (lines : Int) (first other : NodeId) :
    Correspondence :=
  .offset (fun token image => image = Token.moved lines token) first other

/-- A parser does not look at lines. -/
theorem Correspondence.lawful_moved
    (lines : Int)
    (first other : NodeId) :
    (Correspondence.moved lines first other).Lawful := by
  refine lawful_offset ?_
  rintro token _ rfl
  exact .same

/-- An analysis does not look at lines. -/
theorem Correspondence.exact_moved
    (lines : Int)
    (first other : NodeId) :
    (Correspondence.moved lines first other).Exact := by
  refine exact_offset ?_
  rintro token _ rfl
  rfl

namespace Program

/-- What two sources with a line break between them are compiled to: the
statements of the first, and then statements that are alike to those of the
second.  The nodes of the first keep their distances. -/
structure Joins
    (lines : Int)
    (program other whole : Program)
    (start middle : NodeId) : Prop where
  statements :
    ∃ added, whole.statements = program.statements ++ added ∧
      Program.Alike (.moved lines start middle) other ⟨added, whole.distances⟩
  distances :
    ∀ id : NodeId, id < middle → whole.distances[id]? = program.distances[id]?

/-- Two sources that are accepted are accepted with a line break between them,
and need together as many identities. -/
theorem compile_joined
    {source other : ByteArray}
    {program programOther : Program}
    {first middle start last : NodeId}
    (accepted : compile source first = (.ok program, middle))
    (acceptedOther : compile other start = (.ok programOther, last)) :
    ∃ whole next, compile (joined source other) first = (.ok whole, next) ∧
      (Correspondence.moved (lines source) start middle).nodes last next ∧
      Joins (lines source) program programOther whole start middle := by
  obtain ⟨scanned, scans, parsed, resolved⟩ := compile_eq_ok_iff.mp accepted
  obtain ⟨scannedOther, scansOther, parsedOther, resolvedOther⟩ :=
    compile_eq_ok_iff.mp acceptedOther
  obtain ⟨body, finish, rfl, isSealed⟩ := sealed_tokens scans
  have scansWhole := tokens_joined scans scansOther
  -- The statements of the second source, with other identities and on other
  -- lines.
  have pairs :
      List.Forall₂ (Correspondence.moved (lines source) start middle).tokens
      scannedOther
      (scannedOther.map (Token.moved (lines source))) :=
    List.forall₂_map_right_iff.mpr (List.forall₂_same.mpr fun _ _ => rfl)
  obtain ⟨added, next, parsedAdded, alike, nodes⟩ := parseProgram_ok_alike
    (Correspondence.lawful_moved (lines source) start middle) pairs
    Correspondence.offset_first
    parsedOther
  have made : Stmt.MadeAll middle added next := by
    refine parseProgram_made ?_ parsedAdded
    intro token member
    obtain ⟨moved, isMoved, rfl⟩ := List.mem_map.mp member
    exact spelled_of_tokens scansOther moved isMoved
  have compiled := compiled_of_compile accepted
  obtain ⟨whole, resolvedWhole, kept, given⟩ := resolveProgram_append
    (Correspondence.exact_moved (lines source) start middle) resolved
    resolvedOther alike (by
      rintro id _ ⟨distance, -, rfl⟩
      exact compiled.unfiled (.inr (Nat.le_add_right middle distance)))
  have parsedWhole :
      parseProgram (body ++ scannedOther.map (Token.moved (lines source)))
      first =
      (.ok (program.statements ++ added), next) := by
    obtain ⟨others, finishOther, rfl, isSealedOther⟩ := sealed_tokens scansOther
    rw [List.map_append, List.map_singleton] at parsedAdded ⊢
    exact parseProgram_append isSealed (isSealedOther.moved _)
      parsed parsedAdded
  refine ⟨⟨program.statements ++ added, whole⟩, next,
    compile_of_parsed scansWhole parsedWhole resolvedWhole, nodes,
      ⟨added, rfl, alike, given⟩, ?_⟩
  intro id below
  refine kept id fun member => ?_
  obtain ⟨reference, isReference, rfl⟩ := List.mem_map.mp member
  exact Nat.lt_irrefl _
    (Nat.lt_of_lt_of_le below (made.1.within reference isReference).1)

end Program

end LoxScript
