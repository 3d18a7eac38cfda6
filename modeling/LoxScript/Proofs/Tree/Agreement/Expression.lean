import LoxScript.Proofs.Tree.Agreement

namespace LoxScript

/-!
# Expressions are read up to the first end of input

The parsers of expressions agree on a whole list of tokens and on those before
its first end, with any two depths that are ample for these, and every
expression takes in a token.
-/

open Parse

/-- The end of input is no operator. -/
theorem Level.accepts_endOfInput
    (level : Level) :
    level.accepts .endOfInput = false := by
  cases level <;> rfl

namespace Grammar

variable {mayRunOut : Prop} {beyond : List Token} {outside : Token}

section Parts

variable {size depth other : Nat}
variable {operand operandOther expression expressionOther : Parse Expr}

/-- What follows an operand with operators of one level. -/
theorem agree_chainRest
    (agree : Agree mayRunOut beyond outside size 1 operand operandOther)
    (level : Level)
    (ample : Ample mayRunOut (size + 1) depth other)
    (left : Expr) :
    Agree mayRunOut beyond outside size 0 (chainRest level operand depth left)
      (chainRest level operandOther other left) := by
  refine ample.repeated (fun smaller depth other =>
    smaller ≤ size → ∀ left,
      Agree mayRunOut beyond outside smaller 0
      (chainRest level operand depth left)
      (chainRest level operandOther other left)) ?_ ?_ (Nat.le_refl size) left
  · intro may smaller within left
    exact .ofFail _ fun _ => may
  · intro smaller depth other _ goesOn within left
    refine .byKind fun kind => ?_
    cases accepts : level.accepts kind with
    | false => exact (Agree.ofPure left).knowing kind
    | true =>
        have notEnd : kind ≠ .endOfInput := by
          rintro rfl
          rw [level.accepts_endOfInput] at accepts
          cases accepts
        refine .advance notEnd fun operator some => ?_
        refine (agree.weaken (by omega) (Nat.le_refl 1)).andThen
          fun right more => ?_
        exact goesOn _ (by omega) (by omega) _

/-- Operands joined by operators of one level. -/
theorem agree_chain
    (agree : Agree mayRunOut beyond outside size 1 operand operandOther)
    (level : Level)
    (ample : Ample mayRunOut (size + 1) depth other) :
    Agree mayRunOut beyond outside size 1 (chain level operand depth)
      (chain level operandOther other) :=
  agree.andThen fun first some =>
    agree_chainRest (agree.weaken (by omega) (Nat.le_refl 1)) level
      (ample.weaken (by omega)) first

/-- Operands joined by operators of every level. -/
theorem agree_operators
    (agree : Agree mayRunOut beyond outside size 1 operand operandOther)
    (ample : Ample mayRunOut (size + 1) depth other) :
    Agree mayRunOut beyond outside size 1 (operators operand depth)
      (operators operandOther other) := by
  unfold operators
  induction Level.all with
  | nil => exact agree
  | cons level _ inductionHypothesis =>
      exact agree_chain inductionHypothesis level ample

/-- Storing a value in a target takes in nothing. -/
theorem agree_assignTo
    (target : Expr)
    (equals : Token)
    (value : Expr) :
    Agree mayRunOut beyond outside size 0 (assignTo target equals value)
      (assignTo target equals value) := by
  cases target with
  | reference _ name =>
      exact agree_freshNode.andThen fun id _ =>
        .ofPure (Expr.assign id name value)
  | get object name => exact .ofPure (Expr.set object name value)
  | _ => exact .ofThrow _ nofun

/-- An assignment, or the expression that would have been its target. -/
theorem agree_assignment
    (agree : Agree mayRunOut beyond outside size 1 operand operandOther)
    (agreeValue :
      ∀ smaller, smaller < size →
        Agree mayRunOut beyond outside smaller 1 expression expressionOther) :
    Agree mayRunOut beyond outside size 1 (assignment operand expression)
      (assignment operandOther expressionOther) := by
  refine agree.andThen fun left some => agree_seesSymbol ?_ (.ofPure left)
  refine .advance nofun fun equals more => ?_
  refine (agreeValue _ (by omega)).andThen fun value _ => ?_
  exact agree_assignTo left equals value

/-- Arguments with commas between them. -/
theorem agree_arguments
    (agree : Agree mayRunOut beyond outside size 1 expression expressionOther)
    (ample : Ample mayRunOut (size + 1) depth other)
    (count : Nat) :
    Agree mayRunOut beyond outside size 0 (arguments expression depth count)
      (arguments expressionOther other count) := by
  refine ample.repeated (fun smaller depth other =>
    smaller ≤ size → ∀ count,
      Agree mayRunOut beyond outside smaller 0
      (arguments expression depth count)
      (arguments expressionOther other count)) ?_ ?_ (Nat.le_refl size) count
  · intro may smaller within count
    exact .ofFail _ fun _ => may
  · intro smaller depth other _ goesOn within count
    unfold arguments
    by_cases tooMany : argumentLimit ≤ count
    · rw [if_pos tooMany, if_pos tooMany]
      exact .ofFail _ nofun
    · rw [if_neg tooMany, if_neg tooMany]
      refine (agree.weaken within (Nat.le_refl 1)).andThen fun first some => ?_
      refine agree_acceptSymbol (fun more => ?_) (.ofPure [first])
      exact (goesOn _ (by omega) (by omega) (count + 1)).andThen fun rest _ =>
        .ofPure (first :: rest)

/-- The arguments of a call and its closing parenthesis. -/
theorem agree_finishCall
    (agree : Agree mayRunOut beyond outside size 1 expression expressionOther)
    (ample : Ample mayRunOut (size + 1) depth other)
    (callee : Expr) :
    Agree mayRunOut beyond outside size 1 (finishCall expression depth callee)
      (finishCall expressionOther other callee) := by
  have closes (passed : List Expr) (smaller : Nat) :
      Agree mayRunOut beyond outside smaller 1
        (expectSymbol .rightParen .argumentsClosing >>= fun paren =>
          pure (Expr.call callee paren passed))
        (expectSymbol .rightParen .argumentsClosing >>= fun paren =>
          pure (Expr.call callee paren passed)) :=
    (agree_expectSymbol .rightParen .argumentsClosing).andThen fun paren _ =>
      .ofPure (Expr.call callee paren passed)
  refine agree_seesSymbol ((closes [] size).knowing _) ?_
  exact (agree_arguments agree ample 0).andThen fun passed _ => closes passed _

/-- Calls and property accesses behind an expression. -/
theorem agree_postfixRest
    (agree : Agree mayRunOut beyond outside size 1 expression expressionOther)
    (ample : Ample mayRunOut (size + 1) depth other)
    (object : Expr) :
    Agree mayRunOut beyond outside size 0 (postfixRest expression depth object)
      (postfixRest expressionOther other object) := by
  refine ample.repeated (fun smaller depth other =>
    smaller ≤ size → ∀ object, Agree mayRunOut beyond outside smaller 0
      (postfixRest expression depth object)
      (postfixRest expressionOther other object))
    ?_ ?_ (Nat.le_refl size) object
  · intro may smaller within object
    exact .ofFail _ fun _ => may
  · intro smaller depth other ample goesOn within object
    refine agree_acceptSymbol (fun some => ?_)
      (agree_acceptSymbol (fun some => ?_) (.ofPure object))
    · have ampleInside : Ample mayRunOut (smaller - 1 + 1) depth
          other := by rwa [Nat.sub_add_cancel some]
      refine (agree_finishCall (agree.weaken (by omega) (Nat.le_refl 1))
        ampleInside object).andThen fun call more => ?_
      exact goesOn _ (by omega) (by omega) call
    · refine (agree_expectName .propertyName).andThen fun name more => ?_
      exact goesOn _ (by omega) (by omega) (.get object name)

/-- An expression in parentheses. -/
theorem agree_group
    (agree : Agree mayRunOut beyond outside size 1 expression expressionOther) :
    Agree mayRunOut beyond outside size 1 (group expression)
      (group expressionOther) := by
  refine agree.andThen fun inner _ => ?_
  exact (agree_expectSymbol .rightParen .groupClosing).andThen fun _ _ =>
    .ofPure (Expr.grouping inner)

/-- A method of the superclass. -/
theorem agree_superMethod
    (keyword : Token) :
    Agree mayRunOut beyond outside size 0 (superMethod keyword)
      (superMethod keyword) := by
  refine (agree_expectSymbol .dot .superDot).andThen fun _ _ => ?_
  refine (agree_expectName .superMethodName).andThen fun method _ => ?_
  exact agree_freshNode.andThen fun id _ =>
    .ofPure (Expr.superRef id keyword method)

/-- An expression without operators, calls or property accesses. -/
theorem agree_primary
    (agree :
      ∀ smaller, smaller < size →
        Agree mayRunOut beyond outside smaller 1 expression expressionOther) :
    Agree mayRunOut beyond outside size 1 (primary expression)
      (primary expressionOther) := by
  refine .byKind fun kind => ?_
  cases isLiteral : literal? kind with
  | some value =>
      have notEnd : kind ≠ .endOfInput := by
        rintro rfl
        cases isLiteral
      exact .advance notEnd fun _ _ => .ofPure (Expr.literal value)
  | none =>
      cases kind with
      | identifier _ =>
          refine .advance nofun fun name _ => ?_
          exact agree_freshNode.andThen fun id _ =>
            .ofPure (Expr.reference id name)
      | keyword word =>
          cases word with
          | thisWord =>
              refine .advance nofun fun keyword _ => ?_
              exact agree_freshNode.andThen fun id _ =>
                .ofPure (Expr.thisRef id keyword)
          | superWord =>
              exact .advance nofun fun keyword _ => agree_superMethod keyword
          | _ => exact (Agree.ofFail _ nofun).knowing _
      | symbol sign =>
          cases sign with
          | leftParen =>
              exact .advance nofun fun _ some =>
                (agree_group (agree _ (by omega))).weaken (Nat.le_refl _)
                  (Nat.zero_le 1)
          | _ => exact (Agree.ofFail _ nofun).knowing _
      | _ => exact (Agree.ofFail _ nofun).knowing _

end Parts

/-- An expression takes in a token, and so does an operand of the tightest
operators. -/
theorem agree_expression_unary
    (size depth other : Nat) :
    (Ample mayRunOut (2 * size + 2) depth other →
      Agree mayRunOut beyond outside size 1 (expression depth)
        (expression other)) ∧
    (Ample mayRunOut (2 * size + 1) depth other →
      Agree mayRunOut beyond outside size 1 (unary depth) (unary other)) := by
  -- Both go back to themselves with one less depth.  An expression goes on to
  -- operands with the tokens it has; all other ways back have taken in a token.
  induction depth generalizing size other with
  | zero =>
      cases other with
      | zero =>
          exact ⟨fun ample => .ofFail _ fun _ => ample.mayRunOut_of_zero,
            fun ample => .ofFail _ fun _ => ample.mayRunOut_of_zero⟩
      | succ other =>
          exact ⟨fun ample => absurd ample Ample.not_zero_succ,
            fun ample => absurd ample Ample.not_zero_succ⟩
  | succ depth inductionHypothesis =>
      cases other with
      | zero =>
          exact ⟨fun ample => absurd ample Ample.not_succ_zero,
            fun ample => absurd ample Ample.not_succ_zero⟩
      | succ other =>
          constructor
          · intro ample
            refine agree_assignment
              (agree_operators ?_ (ample.inside (by omega))) ?_
            · exact (inductionHypothesis size other).2 (ample.inside (by omega))
            · intro smaller isSmaller
              exact (inductionHypothesis smaller other).1
                (ample.inside (by omega))
          · intro ample
            have inside (smaller : Nat) (isSmaller : smaller < size) :
                Agree mayRunOut beyond outside smaller 1 (expression depth)
                  (expression other) :=
              (inductionHypothesis smaller other).1 (ample.inside (by omega))
            have plain : Agree mayRunOut beyond outside size 1
                (primary (expression depth) >>= postfixRest
                  (expression depth) depth)
                (primary (expression other) >>= postfixRest
                  (expression other) other) :=
              (agree_primary inside).andThen fun object some =>
                agree_postfixRest (inside _ (by omega))
                  (ample.inside (by omega)) object
            have negated (operator : Token) (some : 1 ≤ size) :
                Agree mayRunOut beyond outside (size - 1) 0
                  (unary depth >>= fun operand =>
                    pure (Expr.unary operator operand))
                  (unary other >>= fun operand =>
                    pure (Expr.unary operator operand)) := by
              have agree : Agree mayRunOut beyond outside (size - 1) 1
                  (unary depth) (unary other) :=
                (inductionHypothesis (size - 1) other).2
                  (ample.inside (by omega))
              exact agree.andThen fun operand _ =>
                .ofPure (Expr.unary operator operand)
            refine .byKind fun kind => ?_
            cases kind with
            | symbol sign =>
                cases sign with
                | bang => exact .advance nofun negated
                | minus => exact .advance nofun negated
                | _ => exact plain.knowing _
            | _ => exact plain.knowing _

end Grammar

end LoxScript
