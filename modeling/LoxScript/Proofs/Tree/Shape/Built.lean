import LoxScript.Proofs.Tree.Shape.Derived

namespace LoxScript

/-!
# What has the shape of the grammar is derived

The derivation of a tree from the tokens it is written with is built along the
tree.  An operator goes behind the chain that its left operand is, and a call or
property access behind those of its object.
-/

open Grammar

/-- Different levels have different ranks. -/
theorem Level.rank_injective
    {level other : Level}
    (same : level.rank = other.rank) :
    level = other := by
  cases level <;> cases other <;> first | rfl | cases same

/-- Every rank between assignments and operands is that of a level. -/
theorem Level.exists_rank
    {rank : Nat}
    (positive : 0 < rank)
    (small : rank < 7) :
    ∃ level : Level, level.rank = rank := by
  match rank with
  | 1 => exact ⟨.disjunction, rfl⟩
  | 2 => exact ⟨.conjunction, rfl⟩
  | 3 => exact ⟨.equality, rfl⟩
  | 4 => exact ⟨.comparison, rfl⟩
  | 5 => exact ⟨.sum, rfl⟩
  | 6 => exact ⟨.product, rfl⟩

namespace Phrase.Derives

variable {first middle next : NodeId} {tokens others : List Token}

/-- What binds tightly may stand where something looser could. -/
theorem loosen
    {rank tighter : Nat}
    {value : Expr}
    (derives : Phrase.Derives (.expr tighter value) first tokens next)
    (looser : rank ≤ tighter)
    (small : tighter ≤ 7) :
    Phrase.Derives (.expr rank value) first tokens next := by
  induction tighter with
  | zero => exact Nat.le_zero.mp looser ▸ derives
  | succ tighter inductionHypothesis =>
      rcases Nat.le_or_eq_of_le_succ looser with looser | rfl
      · refine inductionHypothesis ?_ looser (Nat.le_of_succ_le small)
        by_cases isZero : tighter = 0
        · subst isZero
          exact .plain derives
        · obtain ⟨level, rfl⟩ :=
            Level.exists_rank (Nat.pos_of_ne_zero isZero) small
          have joined := Phrase.Derives.level level derives .chainEnd
          rw [List.append_nil] at joined
          exact joined
      · exact derives

/-- One part of a chain after another. -/
theorem chain_trans
    {level : Level}
    {left value last : Expr}
    (derives : Phrase.Derives (.chain level left value) first tokens middle)
    (derivesNext :
      Phrase.Derives (.chain level value last) middle others next) :
    Phrase.Derives (.chain level left last) first (tokens ++ others) next := by
  generalize isPhrase : Phrase.chain level left value = phrase at derives
  induction derives generalizing left with
  | chainEnd =>
      cases isPhrase
      exact derivesNext
  | chainNext accepted derives _ _ inductionHypothesis =>
      cases isPhrase
      rw [List.append_assoc]
      exact .chainNext accepted derives (inductionHypothesis derivesNext rfl)
  | _ => cases isPhrase

/-- One part of calls and property accesses after another. -/
theorem access_trans
    {object value last : Expr}
    (derives : Phrase.Derives (.access object value) first tokens middle)
    (derivesNext : Phrase.Derives (.access value last) middle others next) :
    Phrase.Derives (.access object last) first (tokens ++ others) next := by
  generalize isPhrase : Phrase.access object value = phrase at derives
  induction derives generalizing object with
  | accessEnd =>
      cases isPhrase
      exact derivesNext
  | call isLeft isRight _ inductionHypothesis =>
      cases isPhrase
      exact .call isLeft isRight (inductionHypothesis derivesNext rfl)
  | callWith isLeft derives few isRight _ _ inductionHypothesis =>
      cases isPhrase
      rw [List.append_assoc, List.cons_append]
      exact .callWith isLeft derives few isRight
        (inductionHypothesis derivesNext rfl)
  | get isDot isName _ inductionHypothesis =>
      cases isPhrase
      exact .get isDot isName (inductionHypothesis derivesNext rfl)
  | _ => cases isPhrase

/-- An expression of the rank of a level is a chain of the level. -/
theorem level_cases
    {level : Level}
    {value : Expr}
    (derives : Phrase.Derives (.expr level.rank value) first tokens next) :
    ∃ left before middle after, tokens = before ++ after ∧
      Phrase.Derives (.expr (level.rank + 1) left) first before middle ∧
      Phrase.Derives (.chain level left value) middle after next := by
  generalize isRank : level.rank = rank at derives
  cases derives with
  | level other derives derivesNext =>
      cases Level.rank_injective isRank
      exact ⟨_, _, _, _, rfl, derives, derivesNext⟩
  | _ => cases level <;> cases isRank

/-- An operator of a level and a right operand go behind an expression of the
level. -/
theorem join
    {level : Level}
    {left right : Expr}
    {operator : Token}
    (derives : Phrase.Derives (.expr level.rank left) first tokens middle)
    (accepted : level.accepts operator.kind = true)
    (derivesNext :
      Phrase.Derives (.expr (level.rank + 1) right) middle others next) :
    Phrase.Derives (.expr level.rank (level.join left operator right)) first
      (tokens ++ operator :: others) next := by
  obtain ⟨start, before, between, after, rfl, derivesStart, derivesChain⟩ :=
    derives.level_cases
  have last : Phrase.Derives
      (.chain level left (level.join left operator right)) middle
      (operator :: others ++ []) next :=
        .chainNext accepted derivesNext .chainEnd
  rw [List.append_nil] at last
  rw [List.append_assoc]
  exact .level level derivesStart (derivesChain.chain_trans last)

/-- A call or property access goes behind an operand that can be called or
accessed. -/
theorem access
    {object value : Expr}
    (derives : Phrase.Derives (.expr 7 object) first tokens middle)
    (tight : 8 ≤ object.rank)
    (derivesNext : Phrase.Derives (.access object value) middle others next) :
    Phrase.Derives (.expr 7 value) first (tokens ++ others) next := by
  generalize isRank : 7 = rank at derives
  cases derives with
  | operand derives derivesAccess =>
      rw [List.append_assoc]
      exact .operand derives (derivesAccess.access_trans derivesNext)
  | unary => exact absurd tight (by simp [Expr.rank])
  | level level => cases level <;> cases isRank
  | _ => cases isRank

/-- An operand that nothing follows. -/
theorem alone
    {value : Expr}
    (derives : Phrase.Derives (.primary value) first tokens next) :
    Phrase.Derives (.expr 7 value) first tokens next := by
  have whole := Phrase.Derives.operand derives .accessEnd
  rw [List.append_nil] at whole
  exact whole

end Phrase.Derives

/-- Levels are looser than operands. -/
theorem Level.rank_lt_seven
    (level : Level) :
    level.rank < 7 := by
  cases level <;> decide

/-- Expressions that differ in identities only bind equally tightly. -/
theorem Expr.rank_eq_of_unnumbered
    {value other : Expr}
    (same : other.unnumbered = value.unnumbered) :
    other.rank = value.rank := by
  rw [← Expr.rank_mapped (fun _ => 0) other,
    ← Expr.rank_mapped (fun _ => 0) value]
  exact congrArg Expr.rank same

/-- Levels that always read both operands make binary expressions. -/
theorem Level.join_eq_binary
    {level : Level}
    (notLogical : level.isLogical = false)
    (left : Expr)
    (operator : Token)
    (right : Expr) :
    level.join left operator right = .binary left operator right := by
  cases level <;> first | rfl | cases notLogical

/-- Levels that may leave their right operand aside make logical expressions. -/
theorem Level.join_eq_logical
    {level : Level}
    (isLogical : level.isLogical = true)
    (left : Expr)
    (operator : Token)
    (right : Expr) :
    level.join left operator right = .logical left operator right := by
  cases level <;> first | rfl | cases isLogical

/-- Operands that bind tightly enough and are derived from what they are written
with are joined by an operator of the level between them. -/
theorem Level.derives_join
    {level : Level}
    {left right : Expr}
    {operator : Token}
    {tokens : List Token}
    (isLevel : operator.kind.level? = some level)
    (tightLeft : level.rank ≤ left.rank)
    (derivesLeft : ∀ {tokens}, Fit left.pieces tokens →
      ∀ first, ∃ other next, other.unnumbered = left.unnumbered ∧
        Phrase.Derives (.expr (min left.rank 7) other) first tokens next)
    (tightRight : level.rank < right.rank)
    (derivesRight : ∀ {tokens}, Fit right.pieces tokens →
      ∀ first, ∃ other next, other.unnumbered = right.unnumbered ∧
        Phrase.Derives (.expr (min right.rank 7) other) first tokens next)
    (fit : Fit (left.pieces ++ .kept operator :: right.pieces) tokens)
    (first : NodeId) :
    ∃ leftOther rightOther next, leftOther.unnumbered = left.unnumbered ∧
      rightOther.unnumbered = right.unnumbered ∧
      Phrase.Derives
        (.expr (min ((operator.kind.level?.map Level.rank).getD 0) 7)
          (level.join leftOther operator rightOther)) first tokens next := by
  have loose := level.rank_lt_seven
  have isRank : min ((operator.kind.level?.map Level.rank).getD 0) 7 =
      level.rank := by
    rw [isLevel]
    exact Nat.min_eq_left (Nat.le_of_lt loose)
  obtain ⟨before, after, rfl, fitLeft, fitRest⟩ := fit_append_iff.mp fit
  cases fitRest with
  | cons isKept fitRight =>
      cases isKept
      obtain ⟨leftOther, middle, sameLeft, derives⟩ := derivesLeft fitLeft first
      obtain ⟨rightOther, next, sameRight, derivesNext⟩ :=
        derivesRight fitRight middle
      refine ⟨leftOther, rightOther, next, sameLeft, sameRight, ?_⟩
      rw [isRank]
      exact (derives.loosen (by omega) (by omega)).join
        ((level.accepts_iff _).mpr isLevel)
        (derivesNext.loosen (by omega) (by omega))

mutual

/-- An expression that has the shape of the grammar is derived from what it is
written with. -/
theorem Expr.derives_of_shaped :
    (value : Expr) → value.Shaped → ∀ {tokens : List Token},
      Fit value.pieces tokens →
      ∀ first, ∃ other next, other.unnumbered = value.unnumbered ∧
        Phrase.Derives (.expr (min value.rank 7) other) first tokens next
  | .literal value, _, tokens, fit, first => by
      obtain ⟨token, rfl, isLiteral⟩ := fit_singleton_iff.mp fit
      exact ⟨_, _, rfl,
        (Phrase.Derives.literal (literal?_eq_some_iff.mpr isLiteral)).alone⟩
  | .grouping inner, shaped, tokens, fit, first => by
      cases fit with
      | cons isLeft fit =>
          obtain ⟨between, after, rfl, fitInner, fitRight⟩ :=
            fit_append_iff.mp fit
          obtain ⟨right, rfl, isRight⟩ := fit_singleton_iff.mp fitRight
          obtain ⟨other, next, same, derives⟩ :=
            inner.derives_of_shaped shaped fitInner first
          refine ⟨.grouping other, next, congrArg Expr.grouping same, ?_⟩
          exact (Phrase.Derives.grouping isLeft
            (derives.loosen (Nat.zero_le _) (Nat.min_le_right _ _))
            isRight).alone
  | .unary operator operand, ⟨isOperator, tight, shaped⟩, tokens, fit, first =>
      by
        cases fit with
        | cons isKept fit =>
            cases isKept
            obtain ⟨other, next, same, derives⟩ :=
              operand.derives_of_shaped shaped fit first
            refine ⟨.unary operator other, next,
              congrArg (Expr.unary operator) same, ?_⟩
            exact .unary isOperator
              (derives.loosen (by omega) (Nat.min_le_right _ _))
  | .binary left operator right, shaped, tokens, fit, first => by
      obtain ⟨level, isLevel, notLogical, tightLeft, shapedLeft, tightRight,
        shapedRight⟩ := shaped
      obtain ⟨leftOther, rightOther, next, sameLeft, sameRight, derives⟩ :=
        Level.derives_join isLevel tightLeft (left.derives_of_shaped shapedLeft)
          tightRight (right.derives_of_shaped shapedRight) fit first
      rw [Level.join_eq_binary notLogical] at derives
      exact ⟨.binary leftOther operator rightOther, next,
        congrArg₂ (fun left right => Expr.binary left operator right) sameLeft
          sameRight, derives⟩
  | .logical left operator right, shaped, tokens, fit, first => by
      obtain ⟨level, isLevel, isLogical, tightLeft, shapedLeft, tightRight,
        shapedRight⟩ := shaped
      obtain ⟨leftOther, rightOther, next, sameLeft, sameRight, derives⟩ :=
        Level.derives_join isLevel tightLeft (left.derives_of_shaped shapedLeft)
          tightRight (right.derives_of_shaped shapedRight) fit first
      rw [Level.join_eq_logical isLogical] at derives
      exact ⟨.logical leftOther operator rightOther, next,
        congrArg₂ (fun left right => Expr.logical left operator right) sameLeft
          sameRight, derives⟩
  | .reference id name, isName, tokens, fit, first => by
      obtain ⟨token, rfl, isKept⟩ := fit_singleton_iff.mp fit
      cases isKept
      exact ⟨.reference first name, first + 1, rfl,
        (Phrase.Derives.reference isName).alone⟩
  | .assign id name value, ⟨isName, shaped⟩, tokens, fit, first => by
      cases fit with
      | cons isKept fit =>
          cases isKept
          cases fit with
          | cons isEqual fit =>
              obtain ⟨other, next, same, derives⟩ :=
                value.derives_of_shaped shaped fit (first + 1)
              refine ⟨.assign next name other, next + 1,
                congrArg (Expr.assign 0 name) same, ?_⟩
              exact .assign
                ((Phrase.Derives.reference isName).alone.loosen (by decide)
                  (by decide))
                isEqual (derives.loosen (Nat.zero_le _) (Nat.min_le_right _ _))
  | .call callee paren arguments, shaped, tokens, fit, first => by
      obtain ⟨tight, shapedCallee, isRight, few, shapedAll⟩ := shaped
      obtain ⟨most, last, rfl, fitMost, fitParen⟩ := fit_append_iff.mp fit
      obtain ⟨right, rfl, isKept⟩ := fit_singleton_iff.mp fitParen
      cases isKept
      obtain ⟨before, after, rfl, fitCallee, fitRest⟩ :=
        fit_append_iff.mp fitMost
      obtain ⟨calleeOther, middle, same, derives⟩ :=
        callee.derives_of_shaped shapedCallee fitCallee first
      have tightOther : 8 ≤ calleeOther.rank :=
        Expr.rank_eq_of_unnumbered same ▸ tight
      have derivesCallee :
          Phrase.Derives (.expr 7 calleeOther) first before middle :=
        derives.loosen (by omega) (Nat.min_le_right _ _)
      rw [List.append_assoc]
      cases fitRest with
      | @cons _ left _ inside isLeft fitArguments =>
          cases arguments with
          | nil =>
              cases fitArguments
              refine ⟨.call calleeOther paren [], middle,
                congrArg (fun callee => Expr.call callee paren []) same, ?_⟩
              exact derivesCallee.access tightOther
                (.call isLeft isRight .accessEnd)
          | cons value values =>
              obtain ⟨others, next, sameAll, derivesAll⟩ :=
                Expr.derives_of_shapedAll (value :: values) shapedAll nofun
                  fitArguments middle
              refine ⟨.call calleeOther paren others, next,
                congrArg₂ (fun callee others => Expr.call callee paren others)
                  same sameAll, ?_⟩
              have sameLength : others.length = (value :: values).length := by
                simpa [Expr.mappedAll_eq_map] using congrArg List.length sameAll
              exact derivesCallee.access tightOther
                (.callWith isLeft derivesAll (sameLength ▸ few)
                  isRight .accessEnd)
  | .get object name, ⟨tight, shaped, isName⟩, tokens, fit, first => by
      obtain ⟨before, after, rfl, fitObject, fitRest⟩ := fit_append_iff.mp fit
      obtain ⟨other, next, same, derives⟩ :=
        object.derives_of_shaped shaped fitObject first
      have tightOther : 8 ≤ other.rank :=
        Expr.rank_eq_of_unnumbered same ▸ tight
      cases fitRest with
      | cons isDot fitName =>
          obtain ⟨token, rfl, isKept⟩ := fit_singleton_iff.mp fitName
          cases isKept
          refine ⟨.get other name, next,
            congrArg (fun object => Expr.get object name) same, ?_⟩
          exact Phrase.Derives.access
            (derives.loosen (by omega) (Nat.min_le_right _ _)) tightOther
            (.get isDot isName .accessEnd)
  | .set object name value, ⟨tight, shapedObject, isName, shaped⟩, tokens, fit,
    first => by
      obtain ⟨target, rest, rfl, fitTarget, fitRest⟩ := fit_append_iff.mp fit
      obtain ⟨before, after, rfl, fitObject, fitAccess⟩ :=
        fit_append_iff.mp fitTarget
      obtain ⟨other, middle, same, derives⟩ :=
        object.derives_of_shaped shapedObject fitObject first
      have tightOther : 8 ≤ other.rank :=
        Expr.rank_eq_of_unnumbered same ▸ tight
      cases fitRest with
      | cons isEqual fitValue =>
          obtain ⟨valueOther, next, sameValue, derivesValue⟩ :=
            value.derives_of_shaped shaped fitValue middle
          cases fitAccess with
          | cons isDot fitName =>
              obtain ⟨token, rfl, isKept⟩ := fit_singleton_iff.mp fitName
              cases isKept
              have derivesTarget :=
                Phrase.Derives.access
                  (derives.loosen (by omega) (Nat.min_le_right _ _)) tightOther
                  (.get isDot isName .accessEnd)
              refine ⟨.set other name valueOther, next,
                congrArg₂ (fun object value => Expr.set object name value) same
                  sameValue, ?_⟩
              exact .set (derivesTarget.loosen (by decide) (by decide)) isEqual
                (derivesValue.loosen (Nat.zero_le _) (Nat.min_le_right _ _))
  | .thisRef id keyword, isThis, tokens, fit, first => by
      obtain ⟨token, rfl, isKept⟩ := fit_singleton_iff.mp fit
      cases isKept
      exact ⟨.thisRef first keyword, first + 1, rfl,
        (Phrase.Derives.thisRef isThis).alone⟩
  | .superRef id keyword method, ⟨isSuper, isName⟩, tokens, fit, first => by
      cases fit with
      | cons isKept fit =>
          cases isKept
          cases fit with
          | cons isDot fit =>
              obtain ⟨token, rfl, isKept⟩ := fit_singleton_iff.mp fit
              cases isKept
              exact ⟨.superRef first keyword method, first + 1, rfl,
                (Phrase.Derives.superRef isSuper isDot isName).alone⟩

/-- Arguments that have the shape of the grammar are derived from what they are
written with. -/
theorem Expr.derives_of_shapedAll :
    (values : List Expr) → Expr.ShapedAll values → values ≠ [] →
      ∀ {tokens : List Token},
      Fit (Piece.separated (Expr.piecesAll values)) tokens →
      ∀ first, ∃ others next,
        Expr.mappedAll (fun _ => 0) id others =
          Expr.mappedAll (fun _ => 0) id values ∧
          Phrase.Derives (.arguments others) first tokens next
  | [], _, nonempty, _, _, _ => absurd rfl nonempty
  | [value], ⟨shaped, _⟩, _, tokens, fit, first => by
      obtain ⟨other, next, same, derives⟩ :=
        value.derives_of_shaped shaped fit first
      refine ⟨[other], next, congrArg (fun value => [value]) same, ?_⟩
      exact .lastArgument
        (derives.loosen (Nat.zero_le _) (Nat.min_le_right _ _))
  | value :: second :: rest, ⟨shaped, shapedAll⟩, _, tokens, fit, first => by
      obtain ⟨before, after, rfl, fitFirst, fitRest⟩ := fit_append_iff.mp fit
      cases fitRest with
      | cons isComma fitRest =>
          obtain ⟨other, middle, same, derives⟩ :=
            value.derives_of_shaped shaped fitFirst first
          obtain ⟨others, next, sameRest, derivesRest⟩ :=
            Expr.derives_of_shapedAll (second :: rest) shapedAll nofun
              fitRest middle
          refine ⟨other :: others, next, congrArg₂ List.cons same sameRest, ?_⟩
          exact .argument
            (derives.loosen (Nat.zero_le _) (Nat.min_le_right _ _)) isComma
            derivesRest

end

/-- An expression that may be missing is derived from what it is written
with. -/
theorem Expr.derives_of_optional
    {value : Option Expr}
    {tokens : List Token}
    (shaped : ∀ result ∈ value, result.Shaped)
    (fit : Fit (Expr.optionalPieces value) tokens)
    (first : NodeId) :
    ∃ other next, other.map Expr.unnumbered = value.map Expr.unnumbered ∧
      DerivesOptional other first tokens next := by
  cases value with
  | none =>
      cases fit
      exact ⟨none, first, rfl, .absent⟩
  | some value =>
      obtain ⟨other, next, same, derives⟩ :=
        value.derives_of_shaped (shaped value rfl) fit first
      exact ⟨some other, next, congrArg some same,
        .present (derives.loosen (Nat.zero_le _) (Nat.min_le_right _ _))⟩

/-- The parameters of a function are derived from what they are written with. -/
theorem derivesNames_of_fit
    {names tokens : List Token}
    (nonempty : names ≠ [])
    (areNames : ∀ name ∈ names, name.IsIdentifier)
    (fit : Fit (Piece.separated (names.map fun name => [.kept name])) tokens) :
    DerivesNames names tokens := by
  induction names generalizing tokens with
  | nil => exact absurd rfl nonempty
  | cons name names inductionHypothesis =>
      obtain ⟨isName, areNames⟩ := List.forall_mem_cons.mp areNames
      cases names with
      | nil =>
          obtain ⟨token, rfl, isKept⟩ := fit_singleton_iff.mp fit
          cases isKept
          exact .last isName
      | cons second rest =>
          cases fit with
          | cons isKept fit =>
              cases isKept
              cases fit with
              | cons isComma fit =>
                  exact .next isName isComma
                    (inductionHypothesis nofun areNames fit)

/-- The parameters of a function, if it has any, are derived from what they are
written with. -/
theorem derivesParameters_of_fit
    {names tokens : List Token}
    (areNames : ∀ name ∈ names, name.IsIdentifier)
    (few : names.length ≤ argumentLimit)
    (fit : Fit (Piece.separated (names.map fun name => [.kept name])) tokens) :
    DerivesParameters names tokens := by
  cases names with
  | nil =>
      cases fit
      exact .absent
  | cons name names =>
      exact .present (derivesNames_of_fit nofun areNames fit) few

/-- The superclass of a class is derived from what it is written with. -/
theorem SuperclassRef.derives_of_fit
    {superclass : Option SuperclassRef}
    {tokens : List Token}
    (isName : ∀ parent ∈ superclass, parent.name.IsIdentifier)
    (fit : Fit (SuperclassRef.pieces superclass) tokens)
    (first : NodeId) :
    ∃ other next,
      other.map SuperclassRef.unnumbered =
        superclass.map SuperclassRef.unnumbered ∧
        DerivesSuperclass other first tokens next := by
  cases superclass with
  | none =>
      cases fit
      exact ⟨none, first, rfl, .absent⟩
  | some parent =>
      cases fit with
      | cons isLess fit =>
          obtain ⟨token, rfl, isKept⟩ := fit_singleton_iff.mp fit
          cases isKept
          exact ⟨some ⟨first, parent.name⟩, first + 1, rfl, .present isLess
            (isName parent rfl)⟩

/-- A word, a condition in parentheses, and what follows them. -/
theorem Expr.derives_of_condition
    {word : Keyword}
    {condition : Expr}
    {pieces : List Piece}
    {tokens : List Token}
    (shaped : condition.Shaped)
    (fit : Fit (.ofKeyword word :: .ofSymbol .leftParen :: condition.pieces ++
      .ofSymbol .rightParen :: pieces) tokens)
    (first : NodeId) :
    ∃ keyword left between right rest other middle,
      tokens = keyword :: left :: between ++ right :: rest ∧
        keyword.kind = .keyword word ∧ left.kind = .symbol .leftParen ∧
        right.kind = .symbol .rightParen ∧
        other.unnumbered = condition.unnumbered ∧
        Phrase.Derives (.expr 0 other) first between middle ∧
        Fit pieces rest := by
  cases fit with
  | cons isWord fit =>
      cases fit with
      | cons isLeft fit =>
          obtain ⟨between, after, rfl, fitCondition, fitRest⟩ :=
            fit_append_iff.mp fit
          cases fitRest with
          | cons isRight fitRest =>
              obtain ⟨other, middle, same, derives⟩ :=
                condition.derives_of_shaped shaped fitCondition first
              exact ⟨_, _, between, _, _, other, middle, rfl, isWord, isLeft,
                isRight, same,
                derives.loosen (Nat.zero_le _) (Nat.min_le_right _ _), fitRest⟩

mutual

/-- A statement that has the shape of the grammar is derived from what it is
written with. -/
theorem Stmt.derives_of_shaped :
    (value : Stmt) → value.Shaped → ∀ {tokens : List Token},
      Fit value.pieces tokens →
      ∀ first, ∃ other next, other.unnumbered = value.unnumbered ∧
        if value.declares then
          Clause.Derives (.declaration other value.endsOpen) first tokens next
        else Clause.Derives (.statement other value.endsOpen) first tokens next
  | .print value, shaped, tokens, fit, first => by
      cases fit with
      | cons isPrint fit =>
          obtain ⟨before, after, rfl, fitValue, fitEnd⟩ := fit_append_iff.mp fit
          obtain ⟨semicolon, rfl, isSemicolon⟩ := fit_singleton_iff.mp fitEnd
          obtain ⟨other, next, same, derives⟩ :=
            value.derives_of_shaped shaped fitValue first
          refine ⟨.print other, next, congrArg Stmt.print same, ?_⟩
          exact .print isPrint
            (derives.loosen (Nat.zero_le _) (Nat.min_le_right _ _)) isSemicolon
  | .expression value, shaped, tokens, fit, first => by
      obtain ⟨before, after, rfl, fitValue, fitEnd⟩ := fit_append_iff.mp fit
      obtain ⟨semicolon, rfl, isSemicolon⟩ := fit_singleton_iff.mp fitEnd
      obtain ⟨other, next, same, derives⟩ :=
        value.derives_of_shaped shaped fitValue first
      refine ⟨.expression other, next, congrArg Stmt.expression same, ?_⟩
      exact .expression (derives.loosen (Nat.zero_le _) (Nat.min_le_right _ _))
        isSemicolon
  | .varDecl name none, ⟨isName, _⟩, tokens, fit, first => by
      cases fit with
      | cons isVar fit =>
          cases fit with
          | cons isKept fitEnd =>
              cases isKept
              obtain ⟨semicolon, rfl, isSemicolon⟩ :=
                fit_singleton_iff.mp fitEnd
              exact ⟨.varDecl name none, first, rfl, .varDecl isVar
                (.bare isName isSemicolon)⟩
  | .varDecl name (some value), ⟨isName, shaped⟩, tokens, fit, first => by
      cases fit with
      | cons isVar fit =>
          cases fit with
          | cons isKept fit =>
              cases isKept
              cases fit with
              | cons isEqual fit =>
                  obtain ⟨before, after, rfl, fitValue, fitEnd⟩ :=
                    fit_append_iff.mp fit
                  obtain ⟨semicolon, rfl, isSemicolon⟩ :=
                    fit_singleton_iff.mp fitEnd
                  obtain ⟨other, next, same, derives⟩ :=
                    value.derives_of_shaped (shaped value rfl) fitValue first
                  refine ⟨.varDecl name (some other), next,
                    congrArg (fun value => Stmt.varDecl name (some value))
                      same, ?_⟩
                  exact .varDecl isVar (.initialized isName isEqual
                    (derives.loosen (Nat.zero_le _) (Nat.min_le_right _ _))
                    isSemicolon)
  | .block body, shaped, tokens, fit, first => by
      cases fit with
      | cons isLeft fit =>
          obtain ⟨before, after, rfl, fitBody, fitEnd⟩ := fit_append_iff.mp fit
          obtain ⟨right, rfl, isRight⟩ := fit_singleton_iff.mp fitEnd
          obtain ⟨others, next, same, derives⟩ :=
            Stmt.derives_of_shapedAll body shaped fitBody first
          exact ⟨.block others, next, congrArg Stmt.block same,
            .block isLeft derives isRight⟩
  | .conditional condition thenBranch none, shaped, tokens, fit, first => by
      obtain ⟨shapedCondition, plain, shapedThen⟩ := shaped
      obtain ⟨keyword, left, between, right, rest, other, middle, rfl, isIf,
        isLeft, isRight, same,
        derives, fitThen⟩ := Expr.derives_of_condition shapedCondition fit first
      obtain ⟨branch, next, sameThen, derivesThen⟩ :=
        thenBranch.derives_of_shaped shapedThen fitThen middle
      rw [plain] at derivesThen
      exact ⟨.conditional other branch none, next,
        congrArg₂ (fun condition branch =>
          Stmt.conditional condition branch none) same sameThen,
        .when isIf isLeft derives isRight derivesThen⟩
  | .conditional condition thenBranch (some elseBranch), shaped, tokens, fit,
    first => by
      obtain ⟨shapedCondition, plainThen, shapedThen, closed, plainElse,
        shapedElse⟩ := shaped
      obtain ⟨most, last, rfl, fitMost, fitLast⟩ := fit_append_iff.mp fit
      obtain ⟨keyword, left, between, right, rest, other, middle, rfl, isIf,
        isLeft, isRight, same,
        derives, fitThen⟩ :=
          Expr.derives_of_condition shapedCondition fitMost first
      obtain ⟨branch, further, sameThen, derivesThen⟩ :=
        thenBranch.derives_of_shaped shapedThen fitThen middle
      cases fitLast with
      | cons isElse fitElse =>
          obtain ⟨otherwise, next, sameElse, derivesElse⟩ :=
            elseBranch.derives_of_shaped shapedElse fitElse further
          rw [plainThen, closed] at derivesThen
          rw [plainElse] at derivesElse
          refine ⟨.conditional other branch (some otherwise), next, ?_,
            .conditional isIf isLeft derives isRight derivesThen
              isElse derivesElse⟩
          have sameBranches := congrArg₂
            (fun branch otherwise => Stmt.conditional other.unnumbered branch
              (some otherwise))
            sameThen sameElse
          exact sameBranches.trans
            (congrArg (fun condition => Stmt.conditional condition
              thenBranch.unnumbered (some elseBranch.unnumbered)) same)
  | .loop condition body, ⟨shapedCondition, plain, shapedBody⟩, tokens, fit,
    first => by
      obtain ⟨keyword, left, between, right, rest, other, middle, rfl, isWhile,
        isLeft, isRight,
        same, derives, fitBody⟩ :=
          Expr.derives_of_condition shapedCondition fit first
      obtain ⟨branch, next, sameBody, derivesBody⟩ :=
        body.derives_of_shaped shapedBody fitBody middle
      rw [plain] at derivesBody
      exact ⟨.loop other branch, next, congrArg₂ Stmt.loop same sameBody,
        .loop isWhile isLeft derives isRight derivesBody⟩
  | .funDecl declaration, shaped, tokens, fit, first => by
      cases fit with
      | cons isFun fit =>
          obtain ⟨other, next, same, derives⟩ :=
            declaration.derives_of_shaped shaped fit first
          exact ⟨.funDecl other, next, congrArg Stmt.funDecl same,
            .funDecl isFun derives⟩
  | .ret keyword value, ⟨isReturn, shaped⟩, tokens, fit, first => by
      cases fit with
      | cons isKept fit =>
          cases isKept
          obtain ⟨before, after, rfl, fitValue, fitEnd⟩ := fit_append_iff.mp fit
          obtain ⟨semicolon, rfl, isSemicolon⟩ := fit_singleton_iff.mp fitEnd
          obtain ⟨other, next, same, derives⟩ :=
            Expr.derives_of_optional shaped fitValue first
          exact ⟨.ret keyword other, next, congrArg (Stmt.ret keyword) same,
            .ret isReturn derives isSemicolon⟩
  | .classDecl name superclass methods, shaped, tokens, fit, first => by
      obtain ⟨isName, isParent, shapedMethods⟩ := shaped
      obtain ⟨most, last, rfl, fitMost, fitEnd⟩ := fit_append_iff.mp fit
      obtain ⟨right, rfl, isRight⟩ := fit_singleton_iff.mp fitEnd
      cases fitMost with
      | cons isClass fitMost =>
          cases fitMost with
          | cons isKept fitMost =>
              cases isKept
              obtain ⟨between, after, rfl, fitParent, fitRest⟩ :=
                fit_append_iff.mp fitMost
              obtain ⟨parent, middle, sameParent, derives⟩ :=
                SuperclassRef.derives_of_fit isParent fitParent first
              cases fitRest with
              | cons isLeft fitMethods =>
                  obtain ⟨others, next, sameMethods, derivesMethods⟩ :=
                    FunctionDecl.derives_of_shapedAll methods shapedMethods
                      fitMethods middle
                  exact ⟨.classDecl name parent others, next,
                    congrArg₂ (Stmt.classDecl name) sameParent sameMethods,
                    .classDecl isClass isName derives isLeft
                      derivesMethods isRight⟩
  | .require keyword path, isRequire, tokens, fit, first => by
      cases fit with
      | cons isKept fit =>
          cases isKept
          cases fit with
          | cons isString fitEnd =>
              obtain ⟨semicolon, rfl, isSemicolon⟩ :=
                fit_singleton_iff.mp fitEnd
              exact ⟨.require keyword path, first, rfl,
                .require isRequire isString isSemicolon⟩

/-- Statements that have the shape of the grammar are derived from what they are
written with. -/
theorem Stmt.derives_of_shapedAll :
    (values : List Stmt) → Stmt.ShapedAll values → ∀ {tokens : List Token},
      Fit (Stmt.piecesAll values) tokens → ∀ first, ∃ others next,
        Stmt.unnumberedAll others = Stmt.unnumberedAll values ∧
          Clause.Derives (.sequence others) first tokens next
  | [], _, tokens, fit, first => by
      cases fit
      exact ⟨[], first, rfl, .noStatements⟩
  | value :: values, ⟨shaped, shapedAll⟩, tokens, fit, first => by
      obtain ⟨before, after, rfl, fitFirst, fitRest⟩ := fit_append_iff.mp fit
      obtain ⟨other, middle, same, derives⟩ :=
        value.derives_of_shaped shaped fitFirst first
      obtain ⟨others, next, sameRest, derivesRest⟩ :=
        Stmt.derives_of_shapedAll values shapedAll fitRest middle
      have derivesFirst : Clause.Derives (.declaration other value.endsOpen)
          first before middle := by
        split at derives
        · exact derives
        · exact .plain derives
      exact ⟨other :: others, next, congrArg₂ List.cons same sameRest,
        .andThen derivesFirst derivesRest⟩

/-- A function that has the shape of the grammar is derived from what it is
written with. -/
theorem FunctionDecl.derives_of_shaped :
    (value : FunctionDecl) → value.Shaped → ∀ {tokens : List Token},
      Fit value.pieces tokens →
      ∀ first, ∃ other next,
        FunctionDecl.mapped (fun _ => 0) id other =
          FunctionDecl.mapped (fun _ => 0) id value ∧
          Clause.Derives (.function other) first tokens next
  | ⟨name, params, body⟩, ⟨isName, areNames, few, shaped⟩, tokens, fit, first =>
      by
        obtain ⟨most, last, rfl, fitMost, fitEnd⟩ := fit_append_iff.mp fit
        obtain ⟨closing, rfl, isClosing⟩ := fit_singleton_iff.mp fitEnd
        cases fitMost with
        | cons isKept fitMost =>
            cases isKept
            cases fitMost with
            | cons isLeft fitMost =>
                obtain ⟨between, after, rfl, fitParams, fitRest⟩ :=
                  fit_append_iff.mp fitMost
                cases fitRest with
                | cons isRight fitRest =>
                    cases fitRest with
                    | cons isOpening fitBody =>
                        obtain ⟨others, next, same, derives⟩ :=
                          Stmt.derives_of_shapedAll body shaped fitBody first
                        exact ⟨⟨name, params, others⟩, next,
                          congrArg (FunctionDecl.mk name (params.map id)) same,
                          .function isName isLeft
                            (derivesParameters_of_fit areNames few fitParams)
                            isRight isOpening derives isClosing⟩

/-- Methods that have the shape of the grammar are derived from what they are
written with. -/
theorem FunctionDecl.derives_of_shapedAll :
    (values : List FunctionDecl) → FunctionDecl.ShapedAll values →
      ∀ {tokens : List Token},
      Fit (FunctionDecl.piecesAll values) tokens → ∀ first, ∃ others next,
        FunctionDecl.mappedAll (fun _ => 0) id others =
            FunctionDecl.mappedAll (fun _ => 0) id values ∧
          Clause.Derives (.methods others) first tokens next
  | [], _, tokens, fit, first => by
      cases fit
      exact ⟨[], first, rfl, .noMethods⟩
  | value :: values, ⟨shaped, shapedAll⟩, tokens, fit, first => by
      obtain ⟨before, after, rfl, fitFirst, fitRest⟩ := fit_append_iff.mp fit
      obtain ⟨other, middle, same, derives⟩ :=
        value.derives_of_shaped shaped fitFirst first
      obtain ⟨others, next, sameRest, derivesRest⟩ :=
        FunctionDecl.derives_of_shapedAll values shapedAll fitRest middle
      exact ⟨other :: others, next, congrArg₂ List.cons same sameRest,
        .method derives derivesRest⟩

end

end LoxScript
