import LoxScript.Proofs.Tree.Taking

namespace LoxScript

/-!
# What is derived is read

Given enough depth, the parser of a phrase or clause reads exactly the tokens
that spell it, whatever follows them that cannot continue it.  The depth has to
exceed twice the number of the tokens that are left, and the loops of the
parsers may go on as often as there are tokens left.
-/

open Parse Grammar

namespace Grammar

/-- Operands with operators of one rank or a greater one. -/
def ranked (operand : Parse Expr) (depth rank : Nat) : Parse Expr :=
  (Level.all.drop (rank - 1)).foldr
    (fun level tighter => chain level tighter depth) operand

end Grammar

/-- A token of this kind does not continue an expression of the rank. -/
structure Kind.Ends (kind : Kind) (rank : Nat) : Prop where
  notCall : kind ≠ .symbol .leftParen
  notGet : kind ≠ .symbol .dot
  notOperator : ∀ level : Level, rank ≤ level.rank → level.accepts kind = false
  notAssign : rank = 0 → kind ≠ .symbol .equal

namespace Kind.Ends

variable {kind : Kind} {rank : Nat}

/-- What does not continue a looser expression does not continue a tighter
one. -/
theorem tighten
    {tighter : Nat}
    (ends : kind.Ends rank)
    (isTighter : rank ≤ tighter) :
    kind.Ends tighter where
  notCall := ends.notCall
  notGet := ends.notGet
  notOperator level atLeast :=
    ends.notOperator level (Nat.le_trans isTighter atLeast)
  notAssign isZero := ends.notAssign (Nat.le_zero.mp (isZero ▸ isTighter))

/-- A symbol that is no operator, opens no call and no access does not continue
anything. -/
theorem ofSymbol
    {symbol : Symbol}
    (isOther : symbol = .rightParen ∨ symbol = .semicolon ∨ symbol = .comma)
    (isSymbol : kind = .symbol symbol) :
    kind.Ends rank := by
  subst isSymbol
  rcases isOther with rfl | rfl | rfl <;>
    exact ⟨nofun, nofun, fun level _ => by cases level <;> rfl, nofun⟩

/-- The equals sign does not continue the target of an assignment. -/
theorem ofEqual
    (isEqual : kind = .symbol .equal) :
    kind.Ends 1 := by
  subst isEqual
  exact ⟨nofun, nofun, fun level _ => by cases level <;> rfl, nofun⟩

/-- An operator does not continue operands of a greater rank. -/
theorem ofOperator
    {level : Level}
    (accepted : level.accepts kind = true) :
    kind.Ends (level.rank + 1) := by
  have isLevel := (level.accepts_iff kind).mp accepted
  refine ⟨?_, ?_, ?_, nofun⟩
  · rintro rfl
    cases isLevel
  · rintro rfl
    cases isLevel
  · intro other tighter
    cases joins : other.accepts kind with
    | false => rfl
    | true =>
        cases isLevel.symm.trans ((other.accepts_iff kind).mp joins)
        exact absurd tighter (Nat.not_succ_le_self _)

end Kind.Ends

/-- The parser of expressions of a rank. -/
def Grammar.ofRank (depth : Nat) : Nat → Parse Expr
  | 0 => expression depth
  | rank + 1 => ranked (unary depth) depth (rank + 1)

/-- The operators of one level join operands of the next rank. -/
theorem Grammar.ofRank_rank
    (depth : Nat)
    (level : Level) :
    ofRank depth level.rank =
      chain level (ofRank depth (level.rank + 1)) depth := by
  cases level <;> rfl

/-- With enough depth, the parser of the phrase reads just the tokens, if what
follows does not continue the phrase. -/
def Phrase.Reads (first : NodeId) (tokens : List Token) (next : NodeId) :
    Phrase → Prop
  | .expr rank value =>
      ∀ depth rest finish,
        2 * (tokens ++ rest).length + (if rank = 0 then 2 else 1) ≤ depth →
        (rest.headD finish).kind.Ends rank →
        ofRank depth rank ⟨tokens ++ rest, finish, first⟩ =
          .ok value ⟨rest, finish, next⟩
  | .primary value =>
      ∀ depth rest finish, 2 * (tokens ++ rest).length ≤ depth →
        Grammar.primary (expression depth) ⟨tokens ++ rest, finish, first⟩ =
          .ok value ⟨rest, finish, next⟩
  | .chain level left value =>
      ∀ depth limit rest finish, 2 * (tokens ++ rest).length + 1 ≤ depth →
        (tokens ++ rest).length < limit →
        (rest.headD finish).kind.Ends level.rank →
        chainRest level (ofRank depth (level.rank + 1)) limit left
            ⟨tokens ++ rest, finish, first⟩ =
          .ok value ⟨rest, finish, next⟩
  | .access object value =>
      ∀ depth limit rest finish, 2 * (tokens ++ rest).length ≤ depth →
        (tokens ++ rest).length < limit →
        (rest.headD finish).kind.Ends 7 →
        postfixRest (expression depth) limit object
          ⟨tokens ++ rest, finish, first⟩ = .ok value ⟨rest, finish, next⟩
  | .arguments values =>
      ∀ depth limit count rest finish, 2 * (tokens ++ rest).length + 2 ≤ depth →
        (tokens ++ rest).length < limit →
        count + values.length ≤ argumentLimit →
        (rest.headD finish).kind = .symbol .rightParen →
        Grammar.arguments (expression depth) limit count
          ⟨tokens ++ rest, finish, first⟩ = .ok values ⟨rest, finish, next⟩

/-- What follows the first operand of a chain does not continue that operand. -/
theorem Phrase.Derives.ends_operand
    {level : Level}
    {left value : Expr}
    {first next : NodeId}
    {tokens rest : List Token}
    {finish : Token}
    (derives : Phrase.Derives (.chain level left value) first tokens next)
    (ends : (rest.headD finish).kind.Ends level.rank) :
    ((tokens ++ rest).headD finish).kind.Ends (level.rank + 1) := by
  cases derives with
  | chainEnd => exact ends.tighten (Nat.le_succ _)
  | chainNext accepted => exact .ofOperator accepted

namespace Phrase.Reads

variable {first middle next : NodeId} {tokens others : List Token}

/-- An expression in parentheses. -/
theorem grouping
    {left right : Token}
    {inner : Expr}
    (isLeft : left.kind = .symbol .leftParen)
    (reads : Phrase.Reads first tokens next (.expr 0 inner))
    (isRight : right.kind = .symbol .rightParen) :
    Phrase.Reads first (left :: tokens ++ [right])
      next (.primary (.grouping inner)) := by
  intro depth rest finish deep
  have looks : currentKind ⟨left :: tokens ++ [right] ++ rest, finish, first⟩ =
      .ok left.kind ⟨left :: tokens ++ [right] ++ rest, finish, first⟩ := rfl
  have inside : expression depth ⟨tokens ++ right :: rest, finish, first⟩ =
      .ok inner ⟨right :: rest, finish, next⟩ := by
    apply reads
    · simp at deep ⊢
      omega
    · exact .ofSymbol (.inl rfl) isRight
  unfold Grammar.primary
  rw [bind_of_ok looks, isLeft]
  change group (expression depth) ⟨tokens ++ [right] ++ rest, finish, first⟩ = _
  rw [List.append_assoc, List.singleton_append]
  unfold group
  rw [bind_of_ok inside, bind_of_ok (expectSymbol_of_eq isRight _)]
  rfl

/-- Without an operator in front, an operand is read by the parsers of its
parts. -/
theorem unary_of_startsOperand
    {token : Token}
    (starts : token.kind.StartsOperand)
    (depth : Nat)
    (rest : List Token)
    (finish : Token) :
    Grammar.unary (depth + 1) ⟨token :: rest, finish, first⟩ =
      (Grammar.primary (expression depth) >>= postfixRest
        (expression depth) depth) ⟨token :: rest, finish, first⟩ := by
  have looks : currentKind ⟨token :: rest, finish, first⟩ =
      .ok token.kind ⟨token :: rest, finish, first⟩ := rfl
  unfold Grammar.unary
  rw [bind_of_ok looks]
  generalize token.kind = kind at starts ⊢
  cases kind with
  | symbol sign =>
      cases sign with
      | bang => simp [Kind.StartsOperand, literal?] at starts
      | minus => simp [Kind.StartsOperand, literal?] at starts
      | _ => rfl
  | _ => rfl

/-- An operand without an operator in front. -/
theorem operand
    {object value : Expr}
    (derives : Phrase.Derives (.primary object) first tokens middle)
    (reads : Phrase.Reads first tokens middle (.primary object))
    (readsNext : Phrase.Reads middle others next (.access object value)) :
    Phrase.Reads first (tokens ++ others) next (.expr 7 value) := by
  intro depth rest finish deep ends
  obtain ⟨token, more, rfl, starts⟩ := derives.starts_primary
  obtain ⟨depth, rfl⟩ : ∃ fewer, depth = fewer + 1 :=
    ⟨depth - 1, by simp at deep; omega⟩
  have readsObject : Grammar.primary (expression depth)
      ⟨token :: more ++ (others ++ rest), finish, first⟩ =
        .ok object ⟨others ++ rest, finish, middle⟩ := by
    apply reads
    simp at deep ⊢
    omega
  have readsAccess : postfixRest (expression depth) depth object
      ⟨others ++ rest, finish, middle⟩ = .ok value ⟨rest, finish, next⟩ := by
    apply readsNext
    · simp at deep ⊢
      omega
    · simp at deep ⊢
      omega
    · exact ends
  change Grammar.unary (depth + 1) _ = _
  rw [List.append_assoc]
  rw [List.cons_append] at readsObject ⊢
  rw [unary_of_startsOperand starts, bind_of_ok readsObject, readsAccess]

/-- An operand with an operator in front. -/
theorem unary
    {operator : Token}
    {operand : Expr}
    (isOperator :
      operator.kind = .symbol .bang ∨ operator.kind = .symbol .minus)
    (reads : Phrase.Reads first tokens next (.expr 7 operand)) :
    Phrase.Reads first (operator :: tokens)
      next (.expr 7 (.unary operator operand)) := by
  intro depth rest finish deep ends
  obtain ⟨depth, rfl⟩ : ∃ fewer, depth = fewer + 1 :=
    ⟨depth - 1, by simp at deep; omega⟩
  have looks : currentKind ⟨operator :: tokens ++ rest, finish, first⟩ =
      .ok operator.kind ⟨operator :: tokens ++ rest, finish, first⟩ := rfl
  have takes : advance ⟨operator :: tokens ++ rest, finish, first⟩ =
      .ok operator ⟨tokens ++ rest, finish, first⟩ := rfl
  have readsOperand : Grammar.unary depth ⟨tokens ++ rest, finish, first⟩ =
      .ok operand ⟨rest, finish, next⟩ := by
    apply reads
    · simp at deep ⊢
      omega
    · exact ends
  change Grammar.unary (depth + 1) _ = _
  unfold Grammar.unary
  rw [bind_of_ok looks]
  rcases isOperator with isBang | isMinus
  · rw [isBang]
    change (advance >>= _) _ = _
    rw [bind_of_ok takes, bind_of_ok readsOperand]
    rfl
  · rw [isMinus]
    change (advance >>= _) _ = _
    rw [bind_of_ok takes, bind_of_ok readsOperand]
    rfl

/-- Nothing follows the object. -/
theorem accessEnd
    (object : Expr) :
    Phrase.Reads first [] first (.access object object) := by
  intro depth limit rest finish _ enough ends
  obtain ⟨limit, rfl⟩ :=
    Nat.exists_eq_succ_of_ne_zero (Nat.ne_zero_of_lt enough)
  have noCall : acceptSymbol .leftParen ⟨rest, finish, first⟩ =
      .ok false ⟨rest, finish, first⟩ := acceptSymbol_of_ne ends.notCall
  have noGet : acceptSymbol .dot ⟨rest, finish, first⟩ =
      .ok false ⟨rest, finish, first⟩ := acceptSymbol_of_ne ends.notGet
  change postfixRest (expression depth) (limit + 1) object
    ⟨rest, finish, first⟩ = _
  unfold postfixRest
  rw [bind_of_ok noCall]
  simp only [Bool.false_eq_true, if_false]
  rw [bind_of_ok noGet]
  rfl

/-- A call without arguments, and what follows it. -/
theorem call
    {left right : Token}
    {object value : Expr}
    (isLeft : left.kind = .symbol .leftParen)
    (isRight : right.kind = .symbol .rightParen)
    (readsNext :
      Phrase.Reads first others next (.access (.call object right []) value)) :
    Phrase.Reads first (left :: right :: others)
      next (.access object value) := by
  intro depth limit rest finish deep enough ends
  obtain ⟨limit, rfl⟩ : ∃ fewer, limit = fewer + 1 :=
    ⟨limit - 1, by simp at enough; omega⟩
  have sees : seesSymbol .rightParen
      ⟨right :: (others ++ rest), finish, first⟩ =
      .ok true ⟨right :: (others ++ rest), finish, first⟩ :=
        seesSymbol_of_eq isRight
  have finishes : finishCall (expression depth) limit object
      ⟨right :: (others ++ rest), finish, first⟩ =
        .ok (.call object right []) ⟨others ++ rest, finish, first⟩ := by
    unfold finishCall
    rw [bind_of_ok sees]
    change (expectSymbol .rightParen .argumentsClosing >>= _) _ = _
    rw [bind_of_ok (expectSymbol_of_eq isRight _)]
    rfl
  have readsAccess : postfixRest (expression depth) limit
      (.call object right [])
      ⟨others ++ rest, finish, first⟩ = .ok value ⟨rest, finish, next⟩ := by
    apply readsNext
    · simp at deep ⊢
      omega
    · simp at enough ⊢
      omega
    · exact ends
  change postfixRest (expression depth) (limit + 1) object
    ⟨left :: right :: (others ++ rest), finish, first⟩ = _
  unfold postfixRest
  rw [bind_of_ok (acceptSymbol_of_eq isLeft)]
  simp only [if_true]
  rw [bind_of_ok finishes, readsAccess]

/-- A call with arguments, and what follows it. -/
theorem callWith
    {left right : Token}
    {object value : Expr}
    {values : List Expr}
    (isLeft : left.kind = .symbol .leftParen)
    (derives : Phrase.Derives (.arguments values) first tokens middle)
    (reads : Phrase.Reads first tokens middle (.arguments values))
    (few : values.length ≤ argumentLimit)
    (isRight : right.kind = .symbol .rightParen)
    (readsNext :
      Phrase.Reads middle others
      next (.access (.call object right values) value)) :
    Phrase.Reads first (left :: tokens ++ right :: others)
      next (.access object value) := by
  intro depth limit rest finish deep enough ends
  obtain ⟨limit, rfl⟩ : ∃ fewer, limit = fewer + 1 :=
    ⟨limit - 1, by simp at enough; omega⟩
  have notRight :
      (Cursor.current
        ⟨tokens ++ right :: (others ++ rest), finish, first⟩).kind ≠
      .symbol .rightParen := by
    obtain ⟨token, more, rfl, starts⟩ := derives.starts_arguments
    exact starts.ne_rightParen
  have readsArguments : Grammar.arguments (expression depth) limit 0
      ⟨tokens ++ right :: (others ++ rest), finish, first⟩ =
        .ok values ⟨right :: (others ++ rest), finish, middle⟩ := by
    apply reads
    · simp at deep ⊢
      omega
    · simp at enough ⊢
      omega
    · rw [Nat.zero_add]
      exact few
    · exact isRight
  have finishes : finishCall (expression depth) limit object
      ⟨tokens ++ right :: (others ++ rest), finish, first⟩ =
        .ok (.call object right values) ⟨others ++ rest, finish, middle⟩ := by
    unfold finishCall
    rw [bind_of_ok (seesSymbol_of_ne notRight)]
    simp only [Bool.false_eq_true, if_false]
    rw [bind_of_ok readsArguments, bind_of_ok (expectSymbol_of_eq isRight _)]
    rfl
  have readsAccess : postfixRest (expression depth) limit
      (.call object right values)
      ⟨others ++ rest, finish, middle⟩ = .ok value ⟨rest, finish, next⟩ := by
    apply readsNext
    · simp at deep ⊢
      omega
    · simp at enough ⊢
      omega
    · exact ends
  rw [List.append_assoc, List.cons_append]
  unfold postfixRest
  rw [List.cons_append, bind_of_ok (acceptSymbol_of_eq isLeft)]
  simp only [if_true]
  rw [bind_of_ok finishes, readsAccess]

/-- A property access, and what follows it. -/
theorem get
    {dot name : Token}
    {object value : Expr}
    (isDot : dot.kind = .symbol .dot)
    (isName : name.IsIdentifier)
    (readsNext :
      Phrase.Reads first others next (.access (.get object name) value)) :
    Phrase.Reads first (dot :: name :: others) next (.access object value) := by
  intro depth limit rest finish deep enough ends
  obtain ⟨limit, rfl⟩ : ∃ fewer, limit = fewer + 1 :=
    ⟨limit - 1, by simp at enough; omega⟩
  have noCall :
      acceptSymbol .leftParen ⟨dot :: name :: (others ++ rest), finish, first⟩ =
      .ok false ⟨dot :: name :: (others ++ rest), finish, first⟩ :=
    acceptSymbol_of_ne (by simp [Cursor.current, isDot])
  have readsAccess : postfixRest (expression depth) limit (.get object name)
      ⟨others ++ rest, finish, first⟩ = .ok value ⟨rest, finish, next⟩ := by
    apply readsNext
    · simp at deep ⊢
      omega
    · simp at enough ⊢
      omega
    · exact ends
  change postfixRest (expression depth) (limit + 1) object
    ⟨dot :: name :: (others ++ rest), finish, first⟩ = _
  unfold postfixRest
  rw [bind_of_ok noCall]
  simp only [Bool.false_eq_true, if_false]
  rw [bind_of_ok (acceptSymbol_of_eq isDot)]
  simp only [if_true]
  rw [bind_of_ok (expectName_of_isIdentifier isName _), readsAccess]

/-- The last argument. -/
theorem lastArgument
    {value : Expr}
    (reads : Phrase.Reads first tokens next (.expr 0 value))
    (derives : Phrase.Derives (.expr 0 value) first tokens next) :
    Phrase.Reads first tokens next (.arguments [value]) := by
  intro depth limit count rest finish deep enough few isRight
  obtain ⟨limit, rfl⟩ : ∃ fewer, limit = fewer + 1 := by
    obtain ⟨token, more, rfl, _⟩ := derives.starts
    exact ⟨limit - 1, by simp at enough; omega⟩
  have allowed : ¬ argumentLimit ≤ count := by simp at few; omega
  have readsValue : expression depth ⟨tokens ++ rest, finish, first⟩ =
      .ok value ⟨rest, finish, next⟩ := by
    apply reads
    · exact deep
    · exact .ofSymbol (.inl rfl) isRight
  have noComma : acceptSymbol .comma ⟨rest, finish, next⟩ =
      .ok false ⟨rest, finish, next⟩ := by
    apply acceptSymbol_of_ne
    change (rest.headD finish).kind ≠ _
    rw [isRight]
    exact nofun
  unfold Grammar.arguments
  rw [if_neg allowed]
  change (expression depth >>= _) _ = _
  rw [bind_of_ok readsValue, bind_of_ok noComma]
  rfl

/-- An argument that a comma follows. -/
theorem argument
    {value : Expr}
    {values : List Expr}
    {comma : Token}
    (reads : Phrase.Reads first tokens middle (.expr 0 value))
    (isComma : comma.kind = .symbol .comma)
    (readsNext : Phrase.Reads middle others next (.arguments values)) :
    Phrase.Reads first (tokens ++ comma :: others)
      next (.arguments (value :: values)) := by
  intro depth limit count rest finish deep enough few isRight
  obtain ⟨limit, rfl⟩ : ∃ fewer, limit = fewer + 1 :=
    ⟨limit - 1, by simp at enough; omega⟩
  have allowed : ¬ argumentLimit ≤ count := by simp at few; omega
  have readsValue :
      expression depth ⟨tokens ++ comma :: (others ++ rest), finish, first⟩ =
      .ok value ⟨comma :: (others ++ rest), finish, middle⟩ := by
    apply reads
    · simp at deep ⊢
      omega
    · exact .ofSymbol (.inr (.inr rfl)) isComma
  have readsOthers : Grammar.arguments (expression depth) limit (count + 1)
      ⟨others ++ rest, finish, middle⟩ = .ok values ⟨rest, finish, next⟩ := by
    apply readsNext
    · simp at deep ⊢
      omega
    · simp at enough ⊢
      omega
    · simp at few
      omega
    · exact isRight
  rw [List.append_assoc, List.cons_append]
  unfold Grammar.arguments
  rw [if_neg allowed]
  change (expression depth >>= _) _ = _
  rw [bind_of_ok readsValue, bind_of_ok (acceptSymbol_of_eq isComma)]
  simp only [if_true]
  rw [bind_of_ok readsOthers]
  rfl

/-- No operator of the level follows. -/
theorem chainEnd
    (level : Level)
    (left : Expr) :
    Phrase.Reads first [] first (.chain level left left) := by
  intro depth limit rest finish _ enough ends
  obtain ⟨limit, rfl⟩ :=
    Nat.exists_eq_succ_of_ne_zero (Nat.ne_zero_of_lt enough)
  have looks : currentKind ⟨rest, finish, first⟩ =
      .ok (rest.headD finish).kind ⟨rest, finish, first⟩ := rfl
  change chainRest level _ (limit + 1) left ⟨rest, finish, first⟩ = _
  unfold chainRest
  rw [bind_of_ok looks, ends.notOperator level (Nat.le_refl _)]
  rfl

/-- An operator of the level, its right operand, and what follows them. -/
theorem chainNext
    {level : Level}
    {operator : Token}
    {left right value : Expr}
    (accepted : level.accepts operator.kind = true)
    (reads : Phrase.Reads first tokens middle (.expr (level.rank + 1) right))
    (derivesNext :
      Phrase.Derives (.chain level (level.join left operator right) value)
        middle others next)
    (readsNext :
      Phrase.Reads middle others
        next (.chain level (level.join left operator right) value)) :
    Phrase.Reads first (operator :: tokens ++ others)
      next (.chain level left value) := by
  intro depth limit rest finish deep enough ends
  obtain ⟨limit, rfl⟩ : ∃ fewer, limit = fewer + 1 :=
    ⟨limit - 1, by simp at enough; omega⟩
  have looks :
      currentKind ⟨operator :: (tokens ++ (others ++ rest)), finish, first⟩ =
      .ok operator.kind ⟨operator :: (tokens ++ (others ++ rest)), finish,
        first⟩ := rfl
  have takes :
      advance ⟨operator :: (tokens ++ (others ++ rest)), finish, first⟩ =
      .ok operator ⟨tokens ++ (others ++ rest), finish, first⟩ := rfl
  have readsRight : ofRank depth (level.rank + 1)
      ⟨tokens ++ (others ++ rest), finish, first⟩ =
      .ok right ⟨others ++ rest, finish, middle⟩ := by
    apply reads
    · simp at deep ⊢
      omega
    · exact derivesNext.ends_operand ends
  have readsRest : chainRest level (ofRank depth (level.rank + 1)) limit
      (level.join left operator right) ⟨others ++ rest, finish, middle⟩ =
        .ok value ⟨rest, finish, next⟩ := by
    apply readsNext
    · simp at deep ⊢
      omega
    · simp at enough ⊢
      omega
    · exact ends
  rw [List.append_assoc, List.cons_append]
  unfold chainRest
  rw [bind_of_ok looks, accepted]
  simp only [if_true]
  rw [bind_of_ok takes, bind_of_ok readsRight, readsRest]

/-- Operands with operators of one level. -/
theorem level
    (level : Level)
    {left value : Expr}
    (reads : Phrase.Reads first tokens middle (.expr (level.rank + 1) left))
    (derivesNext : Phrase.Derives (.chain level left value) middle others next)
    (readsNext : Phrase.Reads middle others next (.chain level left value)) :
    Phrase.Reads first (tokens ++ others) next (.expr level.rank value) := by
  intro depth rest finish deep ends
  have deepEnough : 2 * (tokens ++ others ++ rest).length + 1 ≤ depth := by
    cases level <;> exact deep
  have readsFirst : ofRank depth (level.rank + 1)
      ⟨tokens ++ (others ++ rest), finish, first⟩ =
      .ok left ⟨others ++ rest, finish, middle⟩ := by
    apply reads
    · simp at deepEnough ⊢
      omega
    · exact derivesNext.ends_operand ends
  have readsRest : chainRest level (ofRank depth (level.rank + 1)) depth left
      ⟨others ++ rest, finish, middle⟩ = .ok value ⟨rest, finish, next⟩ := by
    apply readsNext
    · simp at deepEnough ⊢
      omega
    · simp at deepEnough ⊢
      omega
    · exact ends
  rw [ofRank_rank, List.append_assoc]
  unfold Grammar.chain
  rw [bind_of_ok readsFirst, readsRest]

/-- An expression that assigns nothing. -/
theorem plain
    {value : Expr}
    (reads : Phrase.Reads first tokens next (.expr 1 value)) :
    Phrase.Reads first tokens next (.expr 0 value) := by
  intro depth rest finish deep ends
  obtain ⟨depth, rfl⟩ : ∃ fewer, depth = fewer + 1 :=
    ⟨depth - 1, by simp at deep; omega⟩
  have readsValue : operators (Grammar.unary depth) depth
      ⟨tokens ++ rest, finish, first⟩ =
      .ok value ⟨rest, finish, next⟩ := by
    apply reads
    · simp at deep ⊢
      omega
    · exact ends.tighten (Nat.zero_le _)
  have noEqual : seesSymbol .equal ⟨rest, finish, next⟩ =
      .ok false ⟨rest, finish, next⟩ :=
    seesSymbol_of_ne (ends.notAssign rfl)
  change expression (depth + 1) _ = _
  unfold expression assignment
  rw [bind_of_ok readsValue, bind_of_ok noEqual]
  rfl

/-- An assignment: its target, its value, and what the two make. -/
theorem assignment
    {target value result : Expr}
    {equals : Token}
    {last : NodeId}
    (reads : Phrase.Reads first tokens middle (.expr 1 target))
    (isEqual : equals.kind = .symbol .equal)
    (readsNext : Phrase.Reads middle others next (.expr 0 value))
    (assigns : ∀ rest finish,
      assignTo target equals value ⟨rest, finish, next⟩ =
        .ok result ⟨rest, finish, last⟩) :
    Phrase.Reads first (tokens ++ equals :: others) last (.expr 0 result) := by
  intro depth rest finish deep ends
  obtain ⟨depth, rfl⟩ : ∃ fewer, depth = fewer + 1 :=
    ⟨depth - 1, by simp at deep; omega⟩
  have readsTarget : operators (Grammar.unary depth) depth
      ⟨tokens ++ equals :: (others ++ rest), finish, first⟩ =
        .ok target ⟨equals :: (others ++ rest), finish, middle⟩ := by
    apply reads
    · simp at deep ⊢
      omega
    · exact .ofEqual isEqual
  have sees : seesSymbol .equal ⟨equals :: (others ++ rest), finish, middle⟩ =
      .ok true ⟨equals :: (others ++ rest), finish, middle⟩ :=
        seesSymbol_of_eq isEqual
  have takes : advance ⟨equals :: (others ++ rest), finish, middle⟩ =
      .ok equals ⟨others ++ rest, finish, middle⟩ := rfl
  have readsValue : expression depth ⟨others ++ rest, finish, middle⟩ =
      .ok value ⟨rest, finish, next⟩ := by
    apply readsNext
    · simp at deep ⊢
      omega
    · exact ends
  change expression (depth + 1) _ = _
  rw [List.append_assoc, List.cons_append]
  unfold expression Grammar.assignment
  rw [bind_of_ok readsTarget, bind_of_ok sees]
  simp only [if_true]
  rw [bind_of_ok takes, bind_of_ok readsValue, assigns]

/-- A name that is a method of the superclass. -/
theorem superRef
    {keyword dot method : Token}
    (isSuper : keyword.kind = .keyword .superWord)
    (isDot : dot.kind = .symbol .dot)
    (isName : method.IsIdentifier) :
    Phrase.Reads first [keyword, dot, method] (first + 1)
      (.primary (.superRef first keyword method)) := by
  intro depth rest finish _
  have looks : currentKind ⟨[keyword, dot, method] ++ rest, finish, first⟩ =
      .ok keyword.kind ⟨[keyword, dot, method] ++ rest, finish, first⟩ := rfl
  unfold Grammar.primary
  rw [bind_of_ok looks, isSuper]
  change superMethod keyword ⟨dot :: method :: rest, finish, first⟩ = _
  unfold superMethod
  rw [bind_of_ok (expectSymbol_of_eq isDot _),
    bind_of_ok (expectName_of_isIdentifier isName _)]
  rfl

end Phrase.Reads

/-- The parsers of expressions read what is derived. -/
theorem Phrase.Derives.reads
    {phrase : Phrase}
    {first next : NodeId}
    {tokens : List Token}
    (derives : phrase.Derives first tokens next) :
    phrase.Reads first tokens next := by
  induction derives with
  | @literal token value first isLiteral =>
      intro depth rest finish _
      have looks : currentKind ⟨[token] ++ rest, finish, first⟩ =
          .ok token.kind ⟨[token] ++ rest, finish, first⟩ := rfl
      unfold Grammar.primary
      rw [bind_of_ok looks, isLiteral]
      rfl
  | @reference name first isName =>
      intro depth rest finish _
      have looks : currentKind ⟨[name] ++ rest, finish, first⟩ =
          .ok name.kind ⟨[name] ++ rest, finish, first⟩ := rfl
      obtain ⟨text, isIdentifier⟩ := isName
      unfold Grammar.primary
      rw [bind_of_ok looks, isIdentifier]
      rfl
  | @thisRef keyword first isThis =>
      intro depth rest finish _
      have looks : currentKind ⟨[keyword] ++ rest, finish, first⟩ =
          .ok keyword.kind ⟨[keyword] ++ rest, finish, first⟩ := rfl
      unfold Grammar.primary
      rw [bind_of_ok looks, isThis]
      rfl
  | superRef isSuper isDot isName => exact .superRef isSuper isDot isName
  | grouping isLeft _ isRight reads => exact .grouping isLeft reads isRight
  | operand derives _ reads readsNext => exact .operand derives reads readsNext
  | unary isOperator _ reads => exact .unary isOperator reads
  | accessEnd => exact .accessEnd _
  | call isLeft isRight _ readsNext => exact .call isLeft isRight readsNext
  | callWith isLeft derives few isRight _ reads readsNext =>
      exact .callWith isLeft derives reads few isRight readsNext
  | get isDot isName _ readsNext => exact .get isDot isName readsNext
  | lastArgument derives reads => exact .lastArgument reads derives
  | argument _ isComma _ reads readsNext =>
      exact .argument reads isComma readsNext
  | chainEnd => exact .chainEnd _ _
  | chainNext accepted _ derivesNext reads readsNext =>
      exact .chainNext accepted reads derivesNext readsNext
  | level level _ derivesNext reads readsNext =>
      exact .level level reads derivesNext readsNext
  | plain _ reads => exact .plain reads
  | assign _ isEqual _ reads readsNext =>
      exact .assignment reads isEqual readsNext fun _ _ => rfl
  | set _ isEqual _ reads readsNext =>
      exact .assignment reads isEqual readsNext fun _ _ => rfl

end LoxScript
