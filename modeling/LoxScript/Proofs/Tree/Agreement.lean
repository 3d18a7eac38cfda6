import LoxScript.Proofs.Mirror
import LoxScript.Proofs.Tree.Taking

namespace LoxScript

/-!
# Parsing up to the first end of input

A parser that looks at a whole list of tokens does what it does on the tokens
before the first end of input.  The two cursors stand at the same place, one
with all the tokens that follow and one with those before the end.  `Agree`
compares two parsers on such cursors: they end alike, what was taken in lies
before the end, and there are at least so many tokens of it.

The parsers of the grammar count down a depth.  Two depths that are `Ample` for
the number of tokens that are left make no difference.  Depths that are enough
do not run out: no error that the parsers fail with is the one for that.
-/

/-- What stands behind the tokens up to an end of input begins with that end:
the tokens are followed by `beyond`, and that by `outside`. -/
structure BeginsWithEnd (beyond : List Token) (outside finish : Token) :
    Prop where
  next : beyond.headD outside = finish
  isEnd : finish.kind = .endOfInput

/-- Two depths are enough, or they are the same where a depth may run out. -/
def Ample (mayRunOut : Prop) (enough depth other : Nat) : Prop :=
  mayRunOut ∧ depth = other ∨ enough ≤ depth ∧ enough ≤ other

namespace Ample

variable {mayRunOut : Prop} {enough depth other : Nat}

/-- One depth that has run out is not ample. -/
theorem not_zero_succ : ¬ Ample mayRunOut (enough + 1) 0 (other + 1) := by
  rintro (⟨-, same⟩ | ⟨few, -⟩)
  · cases same
  · cases few

/-- The other depth that has run out is not ample. -/
theorem not_succ_zero : ¬ Ample mayRunOut (enough + 1) (depth + 1) 0 := by
  rintro (⟨-, same⟩ | ⟨-, few⟩)
  · cases same
  · cases few

/-- Both depths have run out only where they may. -/
theorem mayRunOut_of_zero (ample : Ample mayRunOut (enough + 1) 0 0) :
    mayRunOut := by
  rcases ample with ⟨may, -⟩ | ⟨few, -⟩
  · exact may
  · cases few

/-- Depths that are ample are ample for less. -/
theorem weaken
    {less : Nat}
    (ample : Ample mayRunOut enough depth other)
    (isLess : less ≤ enough) :
    Ample mayRunOut less depth other :=
  ample.imp_right fun enough =>
    ⟨Nat.le_trans isLess enough.1, Nat.le_trans isLess enough.2⟩

/-- What depths are ample for after one step. -/
theorem inside
    {less : Nat}
    (ample : Ample mayRunOut enough (depth + 1) (other + 1))
    (isLess : less < enough) :
    Ample mayRunOut less depth other := by
  rcases ample with ⟨may, same⟩ | ⟨enoughHere, enoughThere⟩
  · exact .inl ⟨may, Nat.succ.inj same⟩
  · exact .inr ⟨by omega, by omega⟩

/-- What is repeated with depths that count down, each time with fewer tokens
left. -/
theorem repeated
    {size : Nat}
    (ample : Ample mayRunOut (size + 1) depth other)
    (holds : Nat → Nat → Nat → Prop)
    (runsOut : mayRunOut → ∀ size, holds size 0 0)
    (goesOn :
      ∀ size depth other, Ample mayRunOut size depth other →
        (∀ smaller, smaller < size → holds smaller depth other) →
        holds size (depth + 1) (other + 1)) :
    holds size depth other := by
  induction depth generalizing size other with
  | zero =>
      cases other with
      | zero => exact runsOut ample.mayRunOut_of_zero size
      | succ other => exact absurd ample not_zero_succ
  | succ depth inductionHypothesis =>
      cases other with
      | zero => exact absurd ample not_succ_zero
      | succ other =>
          refine goesOn size depth other
            (ample.inside (Nat.lt_succ_self size)) ?_
          intro smaller isSmaller
          exact inductionHypothesis (ample.inside (Nat.succ_lt_succ isSmaller))

end Ample

namespace Parse

/-- A parser on the tokens before the end and all that follow, and one on those
before the end, both take in the same tokens, at least `least` of them, and
yield the same value; or both fail for one reason, which is that the depth has
run out only where it may. -/
def AgreeOn
    (mayRunOut : Prop)
    (beyond : List Token)
    (outside finish : Token)
    (pending : List Token)
    (first : NodeId)
    (least : Nat)
    (parser other : Parse α) : Prop :=
  Mirrors parser other ⟨pending ++ beyond, outside, first⟩
    ⟨pending, finish, first⟩ (fun value after image afterImage =>
      value = image ∧
        ∃ taken rest next, pending = taken ++ rest ∧ least ≤ taken.length ∧
          after = ⟨rest ++ beyond, outside, next⟩ ∧
            afterImage = ⟨rest, finish, next⟩)
    (fun error after image afterImage =>
      error = image ∧ (error.fault = .outOfDepth → mayRunOut) ∧
        after.nextNode = afterImage.nextNode)

/-- The parsers agree wherever at most `size` tokens are left before the end. -/
def Agree
    (mayRunOut : Prop)
    (beyond : List Token)
    (outside : Token)
    (size least : Nat)
    (parser other : Parse α) : Prop :=
  ∀ finish pending first, BeginsWithEnd beyond outside finish →
    pending.length ≤ size →
    AgreeOn mayRunOut beyond outside finish pending first least parser other

/-- The parsers agree wherever the next token is of the kind and at most `size`
are left. -/
def AgreeAt
    (mayRunOut : Prop)
    (kind : Kind)
    (beyond : List Token)
    (outside : Token)
    (size least : Nat)
    (parser other : Parse α) : Prop :=
  ∀ finish pending first, BeginsWithEnd beyond outside finish →
    pending.length ≤ size →
    (pending.headD finish).kind = kind →
    AgreeOn mayRunOut beyond outside finish pending first least parser other

end Parse

open Parse

variable {mayRunOut : Prop} {beyond : List Token} {outside : Token}
  {size least : Nat}

/-- The two cursors are at one token. -/
theorem BeginsWithEnd.current
    {finish : Token}
    (begins : BeginsWithEnd beyond outside finish)
    (pending : List Token) :
    (pending ++ beyond).headD outside = pending.headD finish := by
  cases pending with
  | nil => exact begins.next
  | cons token rest => rfl

/-- Where two steps have taken in the same tokens, what follows them agrees if
it does from there. -/
theorem Parse.AgreeOn.after
    {step stepOther : Parse α}
    {next nextOther : α → Parse β}
    {finish : Token}
    {rest : List Token}
    {first middle : NodeId}
    {value : α}
    {more : Nat}
    (taken : List Token)
    (yields : step ⟨taken ++ rest ++ beyond, outside, first⟩ =
      .ok value ⟨rest ++ beyond, outside, middle⟩)
    (yieldsOther : stepOther ⟨taken ++ rest, finish, first⟩ =
      .ok value ⟨rest, finish, middle⟩)
    (agree : AgreeOn mayRunOut beyond outside finish rest middle more
      (next value) (nextOther value))
    (enough : least ≤ taken.length + more) :
    AgreeOn mayRunOut beyond outside finish (taken ++ rest) first least
      (step >>= next) (stepOther >>= nextOther) := by
  unfold AgreeOn Mirrors
  rw [bind_of_ok yields, bind_of_ok yieldsOther]
  refine agree.weaken ?_ fun _ _ _ _ failsAlike => failsAlike
  rintro final _ image _ - - ⟨same, last, others, following, rfl, some, stands⟩
  exact ⟨same, taken ++ last, others, following,
    by simp, by simp; omega, stands⟩

namespace Parse.Agree

variable {parser other : Parse α}

/-- Parsers that only yield a value. -/
theorem ofPure
    (value : α) :
    Agree mayRunOut beyond outside size 0 (pure value) (pure value) :=
  fun _ pending first _ _ =>
    Mirrors.ofPure ⟨rfl, [], pending, first, rfl, Nat.le_refl _, rfl, rfl⟩

/-- Parsers that fail at a token they have taken in. -/
theorem ofThrow
    (error : ParseError)
    (may : error.fault = .outOfDepth → mayRunOut) :
    Agree (α := α) mayRunOut beyond outside size least (throw error)
      (throw error) :=
  fun _ _ _ _ _ => Mirrors.ofError rfl rfl ⟨rfl, may, rfl⟩

/-- Parsers that fail at the next token. -/
theorem ofFail
    (fault : ParseFault)
    (may : fault = .outOfDepth → mayRunOut) :
    Agree (α := α) mayRunOut beyond outside size least (fail fault)
      (fail fault) := by
  intro finish pending first begins _
  have same : ParseError.atToken fault ((pending ++ beyond).headD outside) =
      ParseError.atToken fault (pending.headD finish) := by
    rw [begins.current pending]
  exact Mirrors.ofError rfl rfl ⟨same, may, rfl⟩

/-- The bound on the tokens that are left may be lowered, and so may that on
what is taken in. -/
theorem weaken
    {larger more : Nat}
    (agree : Agree mayRunOut beyond outside larger more parser other)
    (smaller : size ≤ larger)
    (fewer : least ≤ more) :
    Agree mayRunOut beyond outside size least parser other := by
  intro finish pending first begins bound
  refine (agree finish pending first begins
    (Nat.le_trans bound smaller)).weaken ?_
    fun _ _ _ _ failsAlike => failsAlike
  rintro value after image afterImage - -
    ⟨same, taken, rest, next, split, some, stands⟩
  exact ⟨same, taken, rest, next, split, Nat.le_trans fewer some, stands⟩

/-- One parser after the other: the second one has fewer tokens left, and need
not take in as many. -/
theorem andThen
    {next nextOther : α → Parse β}
    {all : Nat}
    (agree : Agree mayRunOut beyond outside size least parser other)
    (agreeNext :
      ∀ value, least ≤ size →
        Agree mayRunOut beyond outside (size - least) (all - least) (next value)
          (nextOther value)) :
    Agree mayRunOut beyond outside size all (parser >>= next)
      (other >>= nextOther) := by
  intro finish pending first begins bound
  refine (agree finish pending first begins bound).andThen ?_
  rintro value after _ afterImage - -
    ⟨rfl, taken, rest, middle, rfl, some, rfl, rfl⟩
  rw [List.length_append] at bound
  refine (agreeNext value (by omega) finish rest middle begins
    (by omega)).weaken ?_
    fun _ _ _ _ failsAlike => failsAlike
  rintro final last image lastImage - -
    ⟨same, others, left, following, rfl, someNext, stands⟩
  exact ⟨same, taken ++ others, left, following,
    by simp, by simp; omega, stands⟩

/-- Parsers whose values are changed. -/
theorem map
    (change : α → β)
    (agree : Agree mayRunOut beyond outside size least parser other) :
    Agree mayRunOut beyond outside size least (change <$> parser)
      (change <$> other) := by
  have sequence : Agree mayRunOut beyond outside size least
      (parser >>= fun value => pure (change value))
      (other >>= fun value => pure (change value)) :=
    agree.andThen fun value _ =>
      (ofPure (change value)).weaken (Nat.le_refl _)
        (Nat.le_of_eq (Nat.sub_self least))
  simpa [Functor.map] using sequence

/-- Parsers agree at every next token if they agree. -/
theorem knowing
    (agree : Agree mayRunOut beyond outside size least parser other)
    (kind : Kind) :
    AgreeAt mayRunOut kind beyond outside size least parser other :=
  fun finish pending first begins bound _ =>
    agree finish pending first begins bound

/-- Going on by the kind of the next token. -/
theorem byKind
    {next nextOther : Kind → Parse α}
    (agree : ∀ kind, AgreeAt mayRunOut kind beyond outside size least
      (next kind) (nextOther kind)) :
    Agree mayRunOut beyond outside size least (currentKind >>= next)
      (currentKind >>= nextOther) := by
  intro finish pending first begins bound
  have looks : currentKind ⟨pending ++ beyond, outside, first⟩ =
      .ok (pending.headD finish).kind ⟨pending ++ beyond, outside, first⟩ := by
    rw [← begins.current pending]
    rfl
  have looksOther : currentKind ⟨pending, finish, first⟩ =
      .ok (pending.headD finish).kind ⟨pending, finish, first⟩ := rfl
  simpa using AgreeOn.after [] looks looksOther
    (agree _ finish pending first begins bound rfl) (by simp)

end Parse.Agree

/-- Taking in the next token, which is not the end of the input, before going
on. -/
theorem Parse.AgreeAt.advance
    {next nextOther : Token → Parse α}
    {kind : Kind}
    (notEnd : kind ≠ .endOfInput)
    (agree :
      ∀ token, 1 ≤ size →
        Agree mayRunOut beyond outside (size - 1) (least - 1) (next token)
          (nextOther token)) :
    AgreeAt mayRunOut kind beyond outside size least (Parse.advance >>= next)
      (Parse.advance >>= nextOther) := by
  intro finish pending first begins bound isKind
  cases pending with
  | nil =>
      have isEnd : finish.kind = kind := isKind
      exact absurd (isEnd.symm.trans begins.isEnd) notEnd
  | cons token rest =>
      rw [List.length_cons] at bound
      exact AgreeOn.after [token] rfl rfl
        (agree token (by omega) finish rest first begins (by omega))
        (by simp; omega)

/-- Handing out an identity takes in nothing. -/
theorem agree_freshNode :
    Agree mayRunOut beyond outside size 0 freshNode freshNode :=
  fun _ pending first _ _ =>
    Mirrors.ofOk rfl rfl ⟨rfl, [], pending, first + 1, rfl, Nat.le_refl _, rfl,
      rfl⟩

/-- Taking in the next token, which is not the end of the input. -/
theorem agreeAt_advance
    {kind : Kind}
    (notEnd : kind ≠ .endOfInput) :
    AgreeAt mayRunOut kind beyond outside size 1 advance advance := by
  have goesOn : AgreeAt mayRunOut kind beyond outside size 1 (advance >>= pure)
      (advance >>= pure) :=
    .advance notEnd fun token _ => .ofPure token
  simpa using goesOn

section Tokens

variable {next nextOther : Bool → Parse α}

/-- Going on by whether the next token is the symbol. -/
theorem agree_seesSymbol
    {symbol : Symbol}
    (agree : AgreeAt mayRunOut (.symbol symbol) beyond outside size least
      (next true) (nextOther true))
    (agreeElse : Agree mayRunOut beyond outside size least (next false)
      (nextOther false)) :
    Agree mayRunOut beyond outside size least (seesSymbol symbol >>= next)
      (seesSymbol symbol >>= nextOther) := by
  intro finish pending first begins bound
  have isCurrent : Cursor.current ⟨pending ++ beyond, outside, first⟩ =
      pending.headD finish :=
    begins.current pending
  by_cases isNext : (pending.headD finish).kind = .symbol symbol
  · simpa using AgreeOn.after [] (seesSymbol_of_eq (isCurrent ▸ isNext))
      (seesSymbol_of_eq isNext) (agree finish pending first begins bound isNext)
      (by simp)
  · simpa using AgreeOn.after [] (seesSymbol_of_ne (isCurrent ▸ isNext))
      (seesSymbol_of_ne isNext) (agreeElse finish pending first begins bound)
      (by simp)

/-- Going on by whether a token of one kind, which is not the end of the input,
could be taken in. -/
theorem agree_accept
    {accept : Parse Bool}
    {kind : Kind}
    (takes :
      ∀ token rest finish first, token.kind = kind →
        accept ⟨token :: rest, finish, first⟩ = .ok true ⟨rest, finish, first⟩)
    (leaves : ∀ cursor : Cursor, cursor.current.kind ≠ kind →
      accept cursor = .ok false cursor)
    (notEnd : kind ≠ .endOfInput)
    (agree : 1 ≤ size → Agree mayRunOut beyond outside (size - 1) (least - 1)
      (next true) (nextOther true))
    (agreeElse : Agree mayRunOut beyond outside size least (next false)
      (nextOther false)) :
    Agree mayRunOut beyond outside size least (accept >>= next)
      (accept >>= nextOther) := by
  intro finish pending first begins bound
  by_cases isNext : (pending.headD finish).kind = kind
  · obtain ⟨token, rest, rfl, isKind⟩ :=
      current_cases begins.isEnd isNext notEnd
    rw [List.length_cons] at bound
    exact AgreeOn.after [token] (takes token _ outside first isKind)
      (takes token rest finish first isKind)
      (agree (by omega) finish rest first begins (by omega))
      (by simp; omega)
  · have isCurrent : Cursor.current ⟨pending ++ beyond, outside, first⟩ =
        pending.headD finish :=
      begins.current pending
    simpa using AgreeOn.after [] (leaves _ (isCurrent ▸ isNext))
      (leaves _ isNext) (agreeElse finish pending first begins bound) (by simp)

/-- Going on by whether the symbol could be taken in. -/
theorem agree_acceptSymbol
    {symbol : Symbol}
    (agree : 1 ≤ size → Agree mayRunOut beyond outside (size - 1) (least - 1)
      (next true) (nextOther true))
    (agreeElse : Agree mayRunOut beyond outside size least (next false)
      (nextOther false)) :
    Agree mayRunOut beyond outside size least (acceptSymbol symbol >>= next)
      (acceptSymbol symbol >>= nextOther) :=
  agree_accept (fun _ _ _ _ => acceptSymbol_of_eq) (fun _ => acceptSymbol_of_ne)
    nofun agree agreeElse

/-- Going on by whether the reserved word could be taken in. -/
theorem agree_acceptKeyword
    {keyword : Keyword}
    (agree : 1 ≤ size → Agree mayRunOut beyond outside (size - 1) (least - 1)
      (next true) (nextOther true))
    (agreeElse : Agree mayRunOut beyond outside size least (next false)
      (nextOther false)) :
    Agree mayRunOut beyond outside size least (acceptKeyword keyword >>= next)
      (acceptKeyword keyword >>= nextOther) :=
  agree_accept (fun _ _ _ _ => acceptKeyword_of_eq)
    (fun _ => acceptKeyword_of_ne) nofun agree agreeElse

/-- Taking in a symbol that has to be next. -/
theorem agree_expectSymbol
    (symbol : Symbol)
    (item : Expectation) :
    Agree mayRunOut beyond outside size 1 (expectSymbol symbol item)
      (expectSymbol symbol item) :=
  agree_seesSymbol (agreeAt_advance nofun) (.ofFail _ nofun)

/-- Taking in a name that has to be next. -/
theorem agree_expectName
    (item : Expectation) :
    Agree mayRunOut beyond outside size 1 (expectName item)
      (expectName item) := by
  refine .byKind fun kind => ?_
  cases kind with
  | identifier name => exact agreeAt_advance nofun
  | _ => exact (Agree.ofFail _ nofun).knowing _

end Tokens

end LoxScript
