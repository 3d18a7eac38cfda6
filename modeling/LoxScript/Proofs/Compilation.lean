import LoxScript.Machine
import LoxScript.Proofs.Tree.Parsed
import LoxScript.Proofs.Tree.Recognition

namespace LoxScript

/-!
# Compiling a source

A source is compiled in steps: it is split into tokens, the tokens are parsed,
and the statements are analysed.
-/

namespace Program

/-- The last token of a source is its only end of input. -/
theorem sealed_tokens
    {source : ByteArray}
    {scanned : List Token}
    (scans : tokens source = .ok scanned) :
    ∃ body finish, scanned = body ++ [finish] ∧ Sealed body finish := by
  obtain ⟨text, -, scansText⟩ := tokens_eq_ok_iff.mp scans
  obtain ⟨lexer, -, faithful, -, same⟩ := Token.scan_eq_ok scansText
  refine ⟨_, _, same, rfl, ?_⟩
  intro token member
  exact (faithful token (List.mem_reverse.mp member)).2

/-- A source that was compiled was parsed. -/
theorem parsed_of_compile
    {source : ByteArray}
    {tokens : List Token}
    {first next : NodeId}
    {program : Program}
    (scanned : Program.tokens source = .ok tokens)
    (accepted : compile source first = (.ok program, next)) :
    parseProgram tokens first = (.ok program.statements, next) := by
  unfold compile at accepted
  rw [scanned] at accepted
  dsimp only at accepted
  split at accepted
  · cases accepted
  · rename_i statements after parsed
    obtain ⟨made, rfl⟩ := Prod.mk.inj accepted
    unfold ofStatements at made
    cases resolved : resolveProgram statements with
    | error error =>
        rw [resolved] at made
        cases made
    | ok distances =>
        rw [resolved] at made
        cases made
        exact parsed

/-- Accepted statements make a program. -/
theorem ofStatements_of_resolved
    {statements : List Stmt}
    {distances : Distances}
    (resolved : resolveProgram statements = .ok distances) :
    ofStatements statements = .ok ⟨statements, distances⟩ := by
  unfold ofStatements
  rw [resolved]
  rfl

/-- A source is compiled if its tokens are parsed and its statements are
accepted. -/
theorem compile_of_parsed
    {source : ByteArray}
    {tokens : List Token}
    {statements : List Stmt}
    {distances : Distances}
    {first next : NodeId}
    (scanned : Program.tokens source = .ok tokens)
    (parsed : parseProgram tokens first = (.ok statements, next))
    (resolved : resolveProgram statements = .ok distances) :
    compile source first = (.ok ⟨statements, distances⟩, next) := by
  unfold compile
  rw [scanned]
  dsimp only
  rw [parsed]
  dsimp only
  rw [ofStatements_of_resolved resolved]

/-- A source is compiled exactly if its tokens are parsed and its statements are
accepted. -/
theorem compile_eq_ok_iff
    {source : ByteArray}
    {first next : NodeId}
    {program : Program} :
    compile source first = (.ok program, next) ↔
      ∃ scanned, tokens source = .ok scanned ∧
        parseProgram scanned first = (.ok program.statements, next) ∧
        resolveProgram program.statements = .ok program.distances := by
  obtain ⟨statements, distances⟩ := program
  constructor
  · intro accepted
    cases scans : tokens source with
    | error error =>
        unfold compile at accepted
        rw [scans] at accepted
        cases accepted
    | ok scanned =>
        have parsed := parsed_of_compile scans accepted
        refine ⟨scanned, rfl, parsed, ?_⟩
        unfold compile at accepted
        rw [scans] at accepted
        dsimp only at accepted
        rw [parsed] at accepted
        cases resolved : resolveProgram statements with
        | error error =>
            simp only [ofStatements, resolved] at accepted
            cases accepted
        | ok found =>
            simp only [ofStatements_of_resolved resolved] at accepted
            cases accepted
            rfl
  · rintro ⟨scanned, scans, parsed, resolved⟩
    exact compile_of_parsed scans parsed resolved

end Program

/-- A machine compiles a source with identities from its next one on. -/
theorem Machine.compile_eq_ok_iff
    {machine compiled : Machine}
    {source : ByteArray}
    {program : Program} :
    machine.compile source = (.ok program, compiled) ↔
      ∃ next, Program.compile source machine.nextNode = (.ok program, next) ∧
        compiled = { machine with nextNode := next } := by
  unfold Machine.compile
  generalize Program.compile source machine.nextNode = outcome
  obtain ⟨verdict, next⟩ := outcome
  constructor
  · intro same
    obtain ⟨rfl, rfl⟩ := Prod.mk.inj same
    exact ⟨next, rfl, rfl⟩
  · rintro ⟨_, same, rfl⟩
    cases same
    rfl

end LoxScript
