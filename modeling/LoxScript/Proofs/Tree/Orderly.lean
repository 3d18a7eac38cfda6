import LoxScript.Proofs.Token.Spelling
import LoxScript.Tree.References

namespace LoxScript

/-!
# What parsed trees have in common

A tree that was parsed from scanned tokens is orderly: every reference is
spelled as what it is, no declaration stands where only a statement may stand,
and what is declared has a name that is no reserved word.  The identities of its
nodes are pairwise distinct and lie in the interval that the parser handed out.
-/

/-- The token is a name, spelled like no reserved word. -/
def Token.IsName (token : Token) : Prop :=
  Keyword.ofSpelling? token.lexeme = none

namespace Token.IsName

/-- Nothing is called `this`. -/
theorem ne_this
    {token : Token}
    (isName : token.IsName) :
    token.lexeme ≠ "this" := by
  intro same
  have found : Keyword.ofSpelling? "this" = some .thisWord :=
    Keyword.ofSpelling?_spelling .thisWord
  rw [IsName, same, found] at isName
  cases isName

/-- Nothing is called `super`. -/
theorem ne_super
    {token : Token}
    (isName : token.IsName) :
    token.lexeme ≠ "super" := by
  intro same
  have found : Keyword.ofSpelling? "super" = some .superWord :=
    Keyword.ofSpelling?_spelling .superWord
  rw [IsName, same, found] at isName
  cases isName

end Token.IsName

/-- A reference is spelled as what it is. -/
def Reference.Spelled (reference : Reference) : Prop :=
  match reference.kind with
  | .read => reference.token.IsName
  | .write => reference.token.IsName
  | .this => reference.token.lexeme = "this"
  | .super => reference.token.lexeme = "super"

/-- References that were handed out between two identities: spelled as what they
are, with identities that are pairwise distinct. -/
structure Handed (first next : NodeId) (references : List Reference) :
    Prop where
  distinct : (references.map Reference.id).Nodup
  within : ∀ reference ∈ references, first ≤ reference.id ∧ reference.id < next
  spelled : ∀ reference ∈ references, reference.Spelled

namespace Handed

/-- No references at all. -/
theorem nil
    (first next : NodeId) :
    Handed first next [] :=
  ⟨.nil, by simp, by simp⟩

/-- One reference with the identity handed out last. -/
theorem single
    {first next : NodeId}
    {reference : Reference}
    (above : first ≤ reference.id)
    (below : reference.id < next)
    (spelled : reference.Spelled) :
    Handed first next [reference] :=
  ⟨by simp, by simp [above, below], by simpa using spelled⟩

/-- References from two intervals, one after the other. -/
theorem append
    {first middle next : NodeId}
    {earlier later : List Reference}
    (handedEarlier : Handed first middle earlier)
    (handedLater : Handed middle next later)
    (rising : first ≤ middle)
    (risingOn : middle ≤ next) :
    Handed first next (earlier ++ later) := by
  refine ⟨?_, ?_, ?_⟩
  · rw [List.map_append]
    refine List.nodup_append.mpr
      ⟨handedEarlier.distinct, handedLater.distinct, ?_⟩
    intro left leftMember right rightMember same
    obtain ⟨one, oneMember, rfl⟩ := List.mem_map.mp leftMember
    obtain ⟨other, otherMember, rfl⟩ := List.mem_map.mp rightMember
    have below : one.id < middle := (handedEarlier.within one oneMember).2
    have above : middle ≤ other.id := (handedLater.within other otherMember).1
    exact Nat.lt_irrefl other.id (Nat.lt_of_lt_of_le (same ▸ below) above)
  · intro reference member
    rcases List.mem_append.mp member with left | right
    · obtain ⟨above, below⟩ := handedEarlier.within reference left
      exact ⟨above, Nat.lt_of_lt_of_le below risingOn⟩
    · obtain ⟨above, below⟩ := handedLater.within reference right
      exact ⟨Nat.le_trans rising above, below⟩
  · intro reference member
    rcases List.mem_append.mp member with left | right
    · exact handedEarlier.spelled reference left
    · exact handedLater.spelled reference right

/-- The order in which references are listed does not matter. -/
theorem perm
    {first next : NodeId}
    {references others : List Reference}
    (handed : Handed first next references)
    (reordered : references.Perm others) :
    Handed first next others :=
  ⟨(reordered.map Reference.id).nodup_iff.mp handed.distinct,
    fun reference member =>
      handed.within reference (reordered.mem_iff.mpr member),
    fun reference member =>
      handed.spelled reference (reordered.mem_iff.mpr member)⟩

/-- A wider interval. -/
theorem widen
    {first next lower upper : NodeId}
    {references : List Reference}
    (handed : Handed first next references)
    (below : lower ≤ first)
    (above : next ≤ upper) :
    Handed lower upper references := by
  refine ⟨handed.distinct, ?_, handed.spelled⟩
  intro reference member
  obtain ⟨lowest, highest⟩ := handed.within reference member
  exact ⟨Nat.le_trans below lowest, Nat.lt_of_lt_of_le highest above⟩

end Handed

/-- The name that a statement declares in the scope it stands in. -/
def Stmt.declared? : Stmt → Option Token
  | .varDecl name _ => some name
  | .funDecl declaration => some declaration.name
  | .classDecl name _ _ => some name
  | _ => none

mutual

/-- Branches and loop bodies declare nothing, and what is declared has a proper
name. -/
def Stmt.Orderly : Stmt → Prop
  | .varDecl name _ => name.IsName
  | .block body => Stmt.OrderlyAll body
  | .conditional _ thenBranch none =>
      thenBranch.declared? = none ∧ thenBranch.Orderly
  | .conditional _ thenBranch (some elseBranch) =>
      (thenBranch.declared? = none ∧ thenBranch.Orderly) ∧
        elseBranch.declared? = none ∧ elseBranch.Orderly
  | .loop _ body => body.declared? = none ∧ body.Orderly
  | .funDecl declaration => declaration.name.IsName ∧ declaration.Orderly
  | .classDecl name _ methods => name.IsName ∧ FunctionDecl.OrderlyAll methods
  | .print _ | .expression _ | .ret _ _ | .require _ _ => True

/-- Statements in order, each of them orderly. -/
def Stmt.OrderlyAll : List Stmt → Prop
  | [] => True
  | first :: rest => first.Orderly ∧ Stmt.OrderlyAll rest

/-- Parameters have proper names, and the body is orderly. -/
def FunctionDecl.Orderly : FunctionDecl → Prop
  | ⟨_, params, body⟩ => (∀ param ∈ params, param.IsName) ∧ Stmt.OrderlyAll body

/-- Functions in order, each of them orderly. -/
def FunctionDecl.OrderlyAll : List FunctionDecl → Prop
  | [] => True
  | first :: rest => first.Orderly ∧ FunctionDecl.OrderlyAll rest

end

/-- Each of several orderly statements is orderly. -/
theorem Stmt.orderly_of_mem
    {statements : List Stmt}
    {statement : Stmt}
    (orderly : Stmt.OrderlyAll statements)
    (member : statement ∈ statements) :
    statement.Orderly := by
  induction statements with
  | nil =>
      cases member
  | cons head rest inductionHypothesis =>
      simp only [Stmt.OrderlyAll] at orderly
      rcases List.mem_cons.mp member with rfl | further
      · exact orderly.1
      · exact inductionHypothesis orderly.2 further

end LoxScript
