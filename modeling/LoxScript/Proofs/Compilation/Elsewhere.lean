import LoxScript.Proofs.Compilation
import LoxScript.Proofs.Scope.Corresponding
import LoxScript.Proofs.Tree.Reparsed

namespace LoxScript

/-!
# Compiling a source with other identities

Whether a source is accepted does not depend on the identities that are handed
out for its nodes, and neither do the distances of its nodes.
-/

/-- The tokens are related, and the identities are equally far from two first
ones. -/
def Correspondence.offset
    (tokens : Token → Token → Prop)
    (first other : NodeId) : Correspondence :=
  ⟨tokens, fun id image => ∃ distance, id = first + distance ∧
    image = other + distance⟩

section Offset

variable {tokens : Token → Token → Prop} {first other : NodeId}

/-- The first identities are related. -/
theorem Correspondence.offset_first :
    (Correspondence.offset tokens first other).nodes first other :=
  ⟨0, rfl, rfl⟩

/-- Identities are handed out alike. -/
theorem Correspondence.lawful_offset
    (keepsKinds : KeepsKinds tokens) :
    (Correspondence.offset tokens first other).Lawful := by
  refine ⟨keepsKinds, ?_⟩
  rintro id image ⟨distance, rfl, rfl⟩
  exact ⟨distance + 1, rfl, rfl⟩

/-- No identity is related to two. -/
theorem Correspondence.exact_offset
    (lexemes : ∀ token image, tokens token image →
      image.lexeme = token.lexeme) :
    (Correspondence.offset tokens first other).Exact := by
  refine ⟨lexemes, ?_⟩
  rintro id image others otherImage ⟨distance, rfl, rfl⟩ ⟨further, rfl, rfl⟩
  simp

end Offset

/-- Statements that are alike, and related nodes have the same distances. -/
structure Program.Alike (related : Correspondence) (program other : Program) :
    Prop where
  statements : List.Forall₂ (Stmt.Alike related) program.statements
    other.statements
  distances :
    ∀ id image : NodeId, related.nodes id image →
      other.distances[image]? = program.distances[id]?

/-- Statements that are alike and spelled alike are accepted or rejected
alike. -/
theorem resolveProgram_alike
    {related : Correspondence}
    {statements others : List Stmt}
    (isExact : related.Exact)
    (alike : List.Forall₂ (Stmt.Alike related) statements others) :
    (∃ distances distancesOther,
      resolveProgram statements = .ok distances ∧
        resolveProgram others = .ok distancesOther ∧
        Program.Alike related ⟨statements, distances⟩
          ⟨others, distancesOther⟩) ∨
      ∃ error errorOther,
        resolveProgram statements = .error error ∧
          resolveProgram others = .error errorOther ∧
          ScopeError.Alike related error errorOther := by
  have nothing (id : NodeId) : ({} : Distances)[id]? = none :=
    Std.TreeMap.getElem?_emptyc
  have start : Analysis.Corresponds related {} {} {} :=
    ⟨rfl, rfl, rfl, fun id image _ => by simp only [nothing, Option.or_none]⟩
  have mirrors :=
    Stmt.corresponding_resolveAll isExact statements alike {} {} start
  unfold resolveProgram
  cases outcome : Stmt.resolveAll statements {} with
  | ok value after =>
      obtain ⟨_, afterOther, outcomeOther, corresponds⟩ := mirrors.ok outcome
      rw [outcomeOther]
      refine .inl ⟨_, _, rfl, rfl, alike, fun id image nodes => ?_⟩
      rw [corresponds.distances id image nodes, nothing, Option.or_none]
  | error error after =>
      obtain ⟨errorOther, afterOther, outcomeOther, errors, -⟩ :=
        mirrors.error outcome
      rw [outcomeOther]
      exact .inr ⟨_, _, rfl, rfl, errors⟩

/-- What a source comes to with identities from two first ones on: it is
rejected for one reason, or accepted as programs that are alike. -/
inductive CompileOutcome.Alike (first other : NodeId) :
    Except StaticError Program × NodeId → Except StaticError Program × NodeId →
      Prop where
  | accepted {program programOther distance} :
      Program.Alike (.offset Eq first other) program programOther →
      Alike first other (.ok program, first + distance)
        (.ok programOther, other + distance)
  | rejected {error distance} :
      Alike first other (.error error, first + distance)
        (.error error, other + distance)

/-- A source is compiled alike whatever identities are handed out. -/
theorem Program.compile_alike
    (source : ByteArray)
    (first other : NodeId) :
    CompileOutcome.Alike first other (Program.compile source first)
      (Program.compile source other) := by
  unfold Program.compile
  cases Program.tokens source with
  | error error =>
      have rejected : CompileOutcome.Alike first other (.error error, first + 0)
          (.error error, other + 0) := .rejected
      exact rejected
  | ok tokens =>
      have keepsKinds : KeepsKinds (Eq : Token → Token → Prop) := by
        rintro token _ rfl
        exact .same
      have isExact : (Correspondence.offset Eq first other).Exact :=
        Correspondence.exact_offset fun _ _ same =>
          congrArg Token.lexeme same.symm
      have pairs : List.Forall₂ (Correspondence.offset Eq first other).tokens
          tokens tokens :=
        List.forall₂_same.mpr fun _ _ => rfl
      have alike :=
        parseProgram_alike (Correspondence.lawful_offset keepsKinds) pairs
        Correspondence.offset_first
      dsimp only
      generalize parseProgram tokens first = outcome at alike ⊢
      generalize parseProgram tokens other = outcomeOther at alike ⊢
      cases alike with
      | failed errors nodes =>
          obtain ⟨distance, rfl, rfl⟩ := nodes
          cases errors with
          | noTokens => exact .rejected
          | atToken same =>
              cases same
              exact .rejected
      | parsed statements nodes =>
          obtain ⟨distance, rfl, rfl⟩ := nodes
          rcases resolveProgram_alike isExact statements with
            ⟨distances, distancesOther, accepts, acceptsOther, programs⟩ |
            ⟨error, errorOther, rejects, rejectsOther, errors⟩
          · simp only [Program.ofStatements_of_resolved accepts,
              Program.ofStatements_of_resolved acceptsOther]
            exact .accepted programs
          · cases errors with
            | atToken same =>
                cases same
                simp only [Program.ofStatements, rejects, rejectsOther]
                exact .rejected

end LoxScript
