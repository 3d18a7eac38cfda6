import LoxScript.Proofs.Tree.Taking

namespace LoxScript

/-!
# What is read is derived

A parser that yields something has taken in tokens that spell it, whatever the
depth that it may go down: where it runs out of depth it yields nothing.
-/

open Parse Grammar

/-- Before the end of input `finish`, the parser takes in just tokens that spell
what it yields. -/
def Parse.Spells
    (finish : Token)
    (parser : Parse α)
    (spells : α → NodeId → List Token → NodeId → Prop) : Prop :=
  ∀ pending first value after,
    parser ⟨pending, finish, first⟩ = .ok value after →
    ∃ tokens rest next,
      pending = tokens ++ rest ∧ after = ⟨rest, finish, next⟩ ∧
        spells value first tokens next

namespace Grammar

variable {finish : Token} {expression : Parse Expr}

/-- Operators of one level and their right operands. -/
theorem spells_chainRest
    {level : Level}
    {operand : Parse Expr}
    (sound : Spells finish operand fun value =>
      Phrase.Derives (.expr (level.rank + 1) value))
    (isEnd : finish.kind = .endOfInput)
    (limit : Nat)
    (left : Expr) :
    Spells finish (chainRest level operand limit left)
      fun value => Phrase.Derives (.chain level left value) := by
  induction limit generalizing left with
  | zero =>
      intro pending first value after run
      cases run
  | succ limit inductionHypothesis =>
      intro pending first value after run
      have looks : currentKind ⟨pending, finish, first⟩ =
          .ok (pending.headD finish).kind ⟨pending, finish, first⟩ := rfl
      unfold chainRest at run
      rw [bind_of_ok looks] at run
      by_cases accepted : level.accepts (pending.headD finish).kind = true
      · cases pending with
        | nil =>
            rw [List.headD_nil, isEnd] at accepted
            cases level <;> cases accepted
        | cons operator pending =>
            rw [if_pos accepted] at run
            have takes : advance ⟨operator :: pending, finish, first⟩ =
                .ok operator ⟨pending, finish, first⟩ := rfl
            rw [bind_of_ok takes] at run
            obtain ⟨right, middle, readsRight, run⟩ := bind_eq_ok_iff.mp run
            obtain ⟨tokens, rest, middle, rfl, rfl, derives⟩ :=
              sound _ _ _ _ readsRight
            obtain ⟨others, rest, next, rfl, rfl, derivesNext⟩ :=
              inductionHypothesis _ _ _ _ _ run
            exact ⟨operator :: tokens ++ others, rest, next, by simp, rfl,
              .chainNext accepted derives derivesNext⟩
      · rw [if_neg accepted] at run
        cases run
        exact ⟨[], pending, first, rfl, rfl, .chainEnd⟩

/-- Operands joined by operators of one level. -/
theorem spells_chain
    {level : Level}
    {operand : Parse Expr}
    (sound : Spells finish operand fun value =>
      Phrase.Derives (.expr (level.rank + 1) value))
    (isEnd : finish.kind = .endOfInput)
    (depth : Nat) :
    Spells finish (chain level operand depth)
      fun value => Phrase.Derives (.expr level.rank value) := by
  intro pending first value after run
  obtain ⟨left, middle, readsLeft, run⟩ := bind_eq_ok_iff.mp run
  obtain ⟨tokens, rest, middle, rfl, rfl, derives⟩ := sound _ _ _ _ readsLeft
  obtain ⟨others, rest, next, rfl, rfl, derivesNext⟩ :=
    spells_chainRest sound isEnd _ _ _ _ _ _ run
  exact ⟨tokens ++ others, rest, next,
    by simp, rfl, .level level derives derivesNext⟩

/-- Operands joined by operators of every level. -/
theorem spells_operators
    {operand : Parse Expr}
    (sound : Spells finish operand fun value => Phrase.Derives (.expr 7 value))
    (isEnd : finish.kind = .endOfInput)
    (depth : Nat) :
    Spells finish (operators operand depth)
      fun value => Phrase.Derives (.expr 1 value) := by
  have product := @spells_chain _ .product _ sound isEnd depth
  have sum := @spells_chain _ .sum _ product isEnd depth
  have comparison := @spells_chain _ .comparison _ sum isEnd depth
  have equality := @spells_chain _ .equality _ comparison isEnd depth
  have conjunction := @spells_chain _ .conjunction _ equality isEnd depth
  exact @spells_chain _ .disjunction _ conjunction isEnd depth

/-- What is stored to a target is an assignment of the target. -/
theorem spells_assignTo
    {target value result : Expr}
    {equals : Token}
    {first middle next : NodeId}
    {tokens others rest : List Token}
    {after : Cursor}
    (derives : Phrase.Derives (.expr 1 target) first tokens middle)
    (isEqual : equals.kind = .symbol .equal)
    (derivesValue : Phrase.Derives (.expr 0 value) middle others next)
    (run : assignTo target equals value ⟨rest, finish, next⟩ =
      .ok result after) :
    ∃ last, after = ⟨rest, finish, last⟩ ∧
      Phrase.Derives (.expr 0 result) first (tokens ++ equals :: others)
        last := by
  cases target with
  | reference id name =>
      cases run
      exact ⟨next + 1, rfl, .assign derives isEqual derivesValue⟩
  | get object name =>
      cases run
      exact ⟨next, rfl, .set derives isEqual derivesValue⟩
  | _ => cases run

/-- An assignment, or the expression that would have been its target. -/
theorem spells_assignment
    {target value : Parse Expr}
    (sound : Spells finish target fun value => Phrase.Derives (.expr 1 value))
    (soundValue :
      Spells finish value fun value => Phrase.Derives (.expr 0 value))
    (isEnd : finish.kind = .endOfInput) :
    Spells finish (assignment target value)
      fun value => Phrase.Derives (.expr 0 value) := by
  intro pending first value after run
  obtain ⟨left, middle, readsLeft, run⟩ := bind_eq_ok_iff.mp run
  obtain ⟨tokens, rest, middle, rfl, rfl, derives⟩ := sound _ _ _ _ readsLeft
  obtain ⟨seen, _, sees, run⟩ := bind_eq_ok_iff.mp run
  obtain ⟨rfl, iff⟩ := seesSymbol_cases sees
  cases seen with
  | false =>
      cases run
      exact ⟨tokens, rest, middle, rfl, rfl, .plain derives⟩
  | true =>
      obtain ⟨equals, rest, rfl, isEqual⟩ :=
        current_cases isEnd (iff.mp rfl) nofun
      have takes : advance ⟨equals :: rest, finish, middle⟩ =
          .ok equals ⟨rest, finish, middle⟩ := rfl
      rw [if_pos rfl, bind_of_ok takes] at run
      obtain ⟨result, _, readsValue, run⟩ := bind_eq_ok_iff.mp run
      obtain ⟨others, rest, next, rfl, rfl, derivesValue⟩ :=
        soundValue _ _ _ _ readsValue
      obtain ⟨last, rfl, derives⟩ :=
        spells_assignTo derives isEqual derivesValue run
      exact ⟨tokens ++ equals :: others, rest, last, by simp, rfl, derives⟩

/-- Arguments with commas between them, as many as are allowed. -/
theorem spells_arguments
    (sound : Spells finish expression fun value =>
      Phrase.Derives (.expr 0 value))
    (isEnd : finish.kind = .endOfInput)
    (limit count : Nat) :
    Spells finish (arguments expression limit count)
      fun values first tokens next =>
        Phrase.Derives (.arguments values) first tokens next ∧
          count + values.length ≤ argumentLimit := by
  induction limit generalizing count with
  | zero =>
      intro pending first value after run
      cases run
  | succ limit inductionHypothesis =>
      intro pending first values after run
      unfold arguments at run
      by_cases tooMany : argumentLimit ≤ count
      · rw [if_pos tooMany] at run
        cases run
      · rw [if_neg tooMany] at run
        change (expression >>= _) _ = _ at run
        obtain ⟨value, middle, readsValue, run⟩ := bind_eq_ok_iff.mp run
        obtain ⟨tokens, rest, middle, rfl, rfl, derives⟩ :=
          sound _ _ _ _ readsValue
        obtain ⟨accepted, _, accepts, run⟩ := bind_eq_ok_iff.mp run
        rcases acceptSymbol_cases isEnd accepts with
          ⟨rfl, comma, rest, rfl, rfl, isComma⟩ | ⟨rfl, rfl, _⟩
        · obtain ⟨others, last, readsOthers, run⟩ := bind_eq_ok_iff.mp run
          obtain ⟨further, rest, next, rfl, rfl, derivesNext, few⟩ :=
            inductionHypothesis (count + 1) _ _ _ _
              readsOthers
          cases run
          refine ⟨tokens ++ comma :: further, rest, next, by simp, rfl,
            .argument derives isComma derivesNext, ?_⟩
          simp only [List.length_cons]
          omega
        · cases run
          refine ⟨tokens, rest, middle, rfl, rfl, .lastArgument derives, ?_⟩
          simp only [List.length_cons, List.length_nil]
          omega

/-- A call, from its opening parenthesis on, and what follows it. -/
theorem spells_finishCall
    {callee result : Expr}
    {left : Token}
    {pending : List Token}
    {first : NodeId}
    {after : Cursor}
    {limit : Nat}
    (sound : Spells finish expression fun value =>
      Phrase.Derives (.expr 0 value))
    (isEnd : finish.kind = .endOfInput)
    (isLeft : left.kind = .symbol .leftParen)
    (run : finishCall expression limit callee ⟨pending, finish, first⟩ =
      .ok result after) :
    ∃ tokens rest middle, pending = tokens ++ rest ∧
      after = ⟨rest, finish, middle⟩ ∧
      ∀ value others next,
        Phrase.Derives (.access result value) middle others next →
        Phrase.Derives (.access callee value) first (left :: tokens ++ others)
          next := by
  obtain ⟨closes, _, sees, run⟩ := bind_eq_ok_iff.mp run
  obtain ⟨rfl, iff⟩ := seesSymbol_cases sees
  cases closes with
  | true =>
      change (expectSymbol .rightParen .argumentsClosing >>= _) _ = _ at run
      obtain ⟨right, _, expects, run⟩ := bind_eq_ok_iff.mp run
      obtain ⟨rest, rfl, rfl, isRight⟩ := expectSymbol_cases isEnd expects
      cases run
      exact ⟨[right], rest, first, rfl, rfl, fun _ _ _ => .call isLeft isRight⟩
  | false =>
      change (arguments expression limit 0 >>= _) _ = _ at run
      obtain ⟨values, _, readsArguments, run⟩ := bind_eq_ok_iff.mp run
      obtain ⟨tokens, rest, middle, rfl, rfl, derives, few⟩ :=
        spells_arguments sound isEnd limit 0 _ _ _ _ readsArguments
      obtain ⟨right, _, expects, run⟩ := bind_eq_ok_iff.mp run
      obtain ⟨rest, rfl, rfl, isRight⟩ := expectSymbol_cases isEnd expects
      cases run
      rw [Nat.zero_add] at few
      refine ⟨tokens ++ [right], rest, middle,
        by simp, rfl, fun _ others _ derivesNext => ?_⟩
      have := Phrase.Derives.callWith isLeft derives few isRight derivesNext
      simpa using this

/-- Calls and property accesses. -/
theorem spells_postfixRest
    (sound : Spells finish expression fun value =>
      Phrase.Derives (.expr 0 value))
    (isEnd : finish.kind = .endOfInput)
    (limit : Nat)
    (object : Expr) :
    Spells finish (postfixRest expression limit object)
      fun value => Phrase.Derives (.access object value) := by
  induction limit generalizing object with
  | zero =>
      intro pending first value after run
      cases run
  | succ limit inductionHypothesis =>
      intro pending first value after run
      obtain ⟨accepted, _, accepts, run⟩ := bind_eq_ok_iff.mp run
      rcases acceptSymbol_cases isEnd accepts with
        ⟨rfl, left, rest, rfl, rfl, isLeft⟩ | ⟨rfl, rfl, _⟩
      · rw [if_pos rfl] at run
        obtain ⟨called, _, calls, run⟩ := bind_eq_ok_iff.mp run
        obtain ⟨tokens, rest, middle, rfl, rfl, derives⟩ :=
          spells_finishCall sound isEnd isLeft calls
        obtain ⟨others, rest, next, rfl, rfl, derivesNext⟩ :=
          inductionHypothesis _ _ _ _ _ run
        exact ⟨left :: tokens ++ others, rest, next,
          by simp, rfl, derives _ _ _ derivesNext⟩
      · rw [if_neg Bool.false_ne_true] at run
        obtain ⟨accepted, _, accepts, run⟩ := bind_eq_ok_iff.mp run
        rcases acceptSymbol_cases isEnd accepts with
          ⟨rfl, dot, rest, rfl, rfl, isDot⟩ | ⟨rfl, rfl, _⟩
        · rw [if_pos rfl] at run
          obtain ⟨name, _, expects, run⟩ := bind_eq_ok_iff.mp run
          obtain ⟨rest, rfl, rfl, isName⟩ := expectName_cases isEnd expects
          obtain ⟨others, rest, next, rfl, rfl, derivesNext⟩ :=
            inductionHypothesis _ _ _ _ _ run
          exact ⟨dot :: name :: others, rest, next, rfl, rfl,
            .get isDot isName derivesNext⟩
        · cases run
          exact ⟨[], pending, first, rfl, rfl, .accessEnd⟩

/-- An expression without operators, calls or property accesses. -/
theorem spells_primary
    (sound : Spells finish expression fun value =>
      Phrase.Derives (.expr 0 value))
    (isEnd : finish.kind = .endOfInput) :
    Spells finish (primary expression) fun value =>
      Phrase.Derives (.primary value) := by
  intro pending first value after run
  cases pending with
  | nil =>
      have looks : currentKind ⟨[], finish, first⟩ =
          .ok finish.kind ⟨[], finish, first⟩ := rfl
      unfold primary at run
      rw [bind_of_ok looks, isEnd] at run
      cases run
  | cons token rest =>
      have looks : currentKind ⟨token :: rest, finish, first⟩ =
          .ok token.kind ⟨token :: rest, finish, first⟩ := rfl
      unfold primary at run
      rw [bind_of_ok looks] at run
      cases isLiteral : literal? token.kind with
      | some literal =>
          rw [isLiteral] at run
          cases run
          exact ⟨[token], rest, first, rfl, rfl, .literal isLiteral⟩
      | none =>
          rw [isLiteral] at run
          generalize isKind : token.kind = kind at run
          cases kind with
          | identifier name =>
              cases run
              exact ⟨[token], rest, first + 1, rfl, rfl,
                .reference ⟨name, isKind⟩⟩
          | keyword word =>
              cases word with
              | thisWord =>
                  cases run
                  exact ⟨[token], rest, first + 1, rfl, rfl, .thisRef isKind⟩
              | superWord =>
                  change superMethod token ⟨rest, finish, first⟩ = _ at run
                  obtain ⟨dot, _, expectsDot, run⟩ := bind_eq_ok_iff.mp run
                  obtain ⟨rest, rfl, rfl, isDot⟩ :=
                    expectSymbol_cases isEnd expectsDot
                  obtain ⟨method, _, expectsName, run⟩ := bind_eq_ok_iff.mp run
                  obtain ⟨rest, rfl, rfl, isName⟩ :=
                    expectName_cases isEnd expectsName
                  cases run
                  exact ⟨[token, dot, method], rest, first + 1, rfl, rfl,
                    .superRef isKind isDot isName⟩
              | _ => cases run
          | symbol sign =>
              cases sign with
              | leftParen =>
                  change group expression ⟨rest, finish, first⟩ = _ at run
                  obtain ⟨inner, _, readsInner, run⟩ := bind_eq_ok_iff.mp run
                  obtain ⟨tokens, rest, next, rfl, rfl, derives⟩ :=
                    sound _ _ _ _ readsInner
                  obtain ⟨right, _, expects, run⟩ := bind_eq_ok_iff.mp run
                  obtain ⟨rest, rfl, rfl, isRight⟩ :=
                    expectSymbol_cases isEnd expects
                  cases run
                  exact ⟨token :: tokens ++ [right], rest, next, by simp, rfl,
                    .grouping isKind derives isRight⟩
              | _ => cases run
          | _ => cases run

/-- An operand without an operator in front. -/
theorem spells_operand
    (sound : Spells finish expression fun value =>
      Phrase.Derives (.expr 0 value))
    (isEnd : finish.kind = .endOfInput)
    (limit : Nat) :
    Spells finish (primary expression >>= postfixRest expression limit)
      fun value => Phrase.Derives (.expr 7 value) := by
  intro pending first value after run
  obtain ⟨object, _, readsObject, run⟩ := bind_eq_ok_iff.mp run
  obtain ⟨tokens, rest, middle, rfl, rfl, derives⟩ :=
    spells_primary sound isEnd _ _ _ _ readsObject
  obtain ⟨others, rest, next, rfl, rfl, derivesNext⟩ :=
    spells_postfixRest sound isEnd limit object _ _ _ _ run
  exact ⟨tokens ++ others, rest, next,
    by simp, rfl, .operand derives derivesNext⟩

/-- An operand with an operator in front. -/
theorem spells_operator
    {operand : Parse Expr}
    {operator : Token}
    {pending : List Token}
    {first : NodeId}
    {value : Expr}
    {after : Cursor}
    (sound : Spells finish operand fun value => Phrase.Derives (.expr 7 value))
    (isOperator :
      operator.kind = .symbol .bang ∨ operator.kind = .symbol .minus)
    (run : (Expr.unary operator <$> operand) ⟨pending, finish, first⟩ =
      .ok value after) :
    ∃ tokens rest next, operator :: pending = tokens ++ rest ∧
      after = ⟨rest, finish, next⟩ ∧
      Phrase.Derives (.expr 7 value) first tokens next := by
  obtain ⟨inner, readsOperand, rfl⟩ := map_eq_ok_iff.mp run
  obtain ⟨tokens, rest, next, rfl, rfl, derives⟩ := sound _ _ _ _ readsOperand
  exact ⟨operator :: tokens, rest, next, rfl, rfl, .unary isOperator derives⟩

/-- An operand, given the parsers of what it may contain. -/
theorem spells_unary
    {depth : Nat}
    (sound : Spells finish (Grammar.expression depth)
      fun value => Phrase.Derives (.expr 0 value))
    (soundOperand : Spells finish (unary depth)
      fun value => Phrase.Derives (.expr 7 value))
    (isEnd : finish.kind = .endOfInput) :
    Spells finish (unary (depth + 1)) fun value =>
      Phrase.Derives (.expr 7 value) := by
  intro pending first value after run
  have looks : currentKind ⟨pending, finish, first⟩ =
      .ok (pending.headD finish).kind ⟨pending, finish, first⟩ := rfl
  have plain := spells_operand sound isEnd depth pending first value after
  unfold unary at run
  rw [bind_of_ok looks] at run
  generalize isKind : (pending.headD finish).kind = kind at run
  cases kind with
  | symbol sign =>
      obtain ⟨operator, rest, rfl, isSymbol⟩ := current_cases isEnd isKind nofun
      cases sign with
      | bang => exact spells_operator soundOperand (.inl isSymbol) run
      | minus => exact spells_operator soundOperand (.inr isSymbol) run
      | _ => exact plain run
  | _ => exact plain run

/-- Expressions and operands, by induction on the depth. -/
theorem spells_expression_unary
    (isEnd : finish.kind = .endOfInput)
    (depth : Nat) :
    (Spells finish (Grammar.expression depth) fun value =>
      Phrase.Derives (.expr 0 value)) ∧
      Spells finish (unary depth) fun value =>
        Phrase.Derives (.expr 7 value) := by
  induction depth with
  | zero =>
      constructor
      · intro pending first value after run
        cases run
      · intro pending first value after run
        cases run
  | succ depth inductionHypothesis =>
      obtain ⟨soundExpression, soundUnary⟩ := inductionHypothesis
      have target := spells_operators soundUnary isEnd depth
      exact ⟨spells_assignment target soundExpression isEnd,
        spells_unary soundExpression soundUnary isEnd⟩

end Grammar

end LoxScript
