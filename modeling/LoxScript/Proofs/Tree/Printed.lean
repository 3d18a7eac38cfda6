import LoxScript.Proofs.Decimal.Writing
import LoxScript.Proofs.Token.Rescanning
import LoxScript.Proofs.Tree.Form
import LoxScript.Proofs.Tree.Legible

namespace LoxScript

/-!
# The forms of expressions

What is printed for an expression is the text of a form, and one can read the
form from the text if the tokens in it are genuine.  A token is known from its
lexeme up to its line.
-/

open Lexer

section Spellings

/-- How a symbol is spelled. -/
def Symbol.spelling : Symbol → String
  | .leftParen => "("
  | .rightParen => ")"
  | .leftBrace => "\x7b"
  | .rightBrace => "\x7d"
  | .comma => ","
  | .dot => "."
  | .minus => "-"
  | .plus => "+"
  | .semicolon => ";"
  | .slash => "/"
  | .star => "*"
  | .bang => "!"
  | .bangEqual => "!="
  | .equal => "="
  | .equalEqual => "=="
  | .greater => ">"
  | .greaterEqual => ">="
  | .less => "<"
  | .lessEqual => "<="

/-- How the tokens of a kind are spelled, if there is one way. -/
def Kind.spelling? : Kind → Option String
  | .symbol sign => some sign.spelling
  | .keyword word => some word.spelling
  | _ => none

/-- A token of a kind with one spelling has this spelling. -/
theorem Lexeme.eq_spelling
    {letters : List Char}
    {kind : Kind}
    {spelling : String}
    (lexeme : Lexeme letters kind)
    (isSpelling : kind.spelling? = some spelling) :
    letters = spelling.toList := by
  cases lexeme with
  | single isSingle =>
      unfold single? at isSingle
      split at isSingle <;> cases isSingle <;> cases isSpelling <;> rfl
  | alone isComparison =>
      unfold comparison? at isComparison
      split at isComparison <;> cases isComparison <;> cases isSpelling <;> rfl
  | joined isComparison =>
      unfold comparison? at isComparison
      split at isComparison <;> cases isComparison <;> cases isSpelling <;> rfl
  | slash => cases isSpelling; rfl
  | keyword => cases isSpelling; rfl
  | identifier | whole | fraction | string => cases isSpelling

variable {token other : Token}

/-- Two genuine tokens of one lexeme differ in their lines only. -/
theorem Token.Genuine.content_eq
    (genuine : token.Genuine)
    (genuineOther : other.Genuine)
    (same : token.lexeme = other.lexeme) :
    token.content = other.content := by
  rw [Token.Genuine, ← same] at genuineOther
  exact Prod.ext (genuine.kind_unique genuineOther).symm same

/-- A genuine token of a kind with one spelling has this spelling. -/
theorem Token.Genuine.lexeme_eq
    (genuine : token.Genuine)
    {kind : Kind}
    (isKind : token.kind = kind)
    {spelling : String}
    (isSpelling : kind.spelling? = some spelling) :
    token.lexeme = spelling :=
  String.toList_inj.mp (genuine.eq_spelling (isKind ▸ isSpelling))

/-- Two genuine tokens of one kind with one spelling differ in their lines
only. -/
theorem Token.Genuine.content_eq_of_kind
    (genuine : token.Genuine)
    (genuineOther : other.Genuine)
    {kind : Kind}
    (isKind : token.kind = kind)
    (isKindOther : other.kind = kind)
    {spelling : String}
    (isSpelling : kind.spelling? = some spelling) :
    token.content = other.content :=
  genuine.content_eq genuineOther
    ((genuine.lexeme_eq isKind isSpelling).trans
      (genuineOther.lexeme_eq isKindOther isSpelling).symm)

/-- A genuine name starts as a word does, goes on as a word does, and is not
reserved. -/
theorem Token.Genuine.name
    (genuine : token.Genuine)
    (isName : token.IsIdentifier) :
    ∃ first rest, token.lexeme.toList = first :: rest ∧
      isWordStart first = true ∧
      (∀ c ∈ rest, isWordRest c = true) ∧ ∀ word : Keyword,
        token.lexeme ≠ word.spelling := by
  obtain ⟨name, isKind⟩ := isName
  rw [Token.Genuine, isKind] at genuine
  generalize spelled : token.lexeme.toList = letters at genuine
  cases genuine with
  | identifier isStart areRest isFree =>
      refine ⟨_, _, rfl, isStart, areRest, fun word same => isFree word ?_⟩
      rw [← spelled, String.ofList_toList, same]

end Spellings

/-- The form of a literal. -/
def Literal.form : Literal → Form
  | .string value => .quoted value.toList
  | literal => .word literal.text.toList

mutual

/-- The form of an expression. -/
def Expr.form : Expr → Form
  | .literal value => value.form
  | .grouping inner => .list "group".toList [inner.form]
  | .unary operator operand => .list operator.lexeme.toList [operand.form]
  | .binary left operator right =>
      .list operator.lexeme.toList [left.form, right.form]
  | .logical left operator right =>
      .list operator.lexeme.toList [left.form, right.form]
  | .reference _ name => .word name.lexeme.toList
  | .assign _ name value =>
      .list "assign".toList [.word name.lexeme.toList, value.form]
  | .call callee _ arguments =>
      .list "call".toList (callee.form :: Expr.formAll arguments)
  | .get object name =>
      .list "get".toList [object.form, .word name.lexeme.toList]
  | .set object name value =>
      .list "set".toList [object.form, .word name.lexeme.toList, value.form]
  | .thisRef _ _ => .word "this".toList
  | .superRef _ _ method => .list "super".toList [.word method.lexeme.toList]

/-- The forms of several expressions. -/
def Expr.formAll : List Expr → List Form
  | [] => []
  | first :: rest => first.form :: Expr.formAll rest

end

section Texts

theorem Literal.toList_printed
    (value : Literal) :
    value.printed.toList = value.form.text := by
  cases value with
  | string value => simp [printed, form, Form.text, Text.quoted]
  | _ => rfl

/-- The text of a head in parentheses with its parts. -/
theorem toList_parenthesized
    (head : String)
    {parts : List String}
    {forms : List Form}
    (same : parts.map String.toList = forms.map Form.text) :
    (parenthesized head parts).toList = (Form.list head.toList forms).text := by
  have behindHead : ∀ front : List Char,
      [' '].intercalate (front :: parts.map String.toList) =
        front ++ Form.textAll forms := by
    rw [same]
    clear same
    induction forms with
    | nil => simp [Form.textAll]
    | cons form forms inductionHypothesis =>
        intro front
        rw [List.map_cons, List.intercalate_cons_cons, inductionHypothesis]
        simp [Form.textAll]
  simp [parenthesized, String.toList_intercalate, behindHead, Form.text]

mutual

/-- What is printed for an expression is the text of its form. -/
theorem Expr.toList_printed :
    (value : Expr) → value.printed.toList = value.form.text
  | .literal value => value.toList_printed
  | .grouping inner => toList_parenthesized _ (by simp [inner.toList_printed])
  | .unary _ operand =>
      toList_parenthesized _ (by simp [operand.toList_printed])
  | .binary left _ right =>
      toList_parenthesized _
        (by simp [left.toList_printed, right.toList_printed])
  | .logical left _ right =>
      toList_parenthesized _
        (by simp [left.toList_printed, right.toList_printed])
  | .reference _ _ => rfl
  | .assign _ _ value =>
      toList_parenthesized _ (by simp [value.toList_printed, Form.text])
  | .call callee _ arguments =>
      toList_parenthesized _
        (by simp [callee.toList_printed, Expr.toList_printedAll arguments])
  | .get object _ =>
      toList_parenthesized _ (by simp [object.toList_printed, Form.text])
  | .set object _ value =>
      toList_parenthesized _
        (by simp [object.toList_printed, value.toList_printed, Form.text])
  | .thisRef _ _ => rfl
  | .superRef _ _ _ => toList_parenthesized _ (by simp [Form.text])

/-- What is printed for several expressions are the texts of their forms. -/
theorem Expr.toList_printedAll :
    (values : List Expr) →
      (Expr.printedAll values).map String.toList =
        (Expr.formAll values).map Form.text
  | [] => rfl
  | first :: rest => by
      simp [printedAll, formAll, first.toList_printed,
        Expr.toList_printedAll rest]

end

end Texts

/-- The expression has the shape of the grammar, its tokens are genuine and its
numbers finite. -/
structure Expr.Legible (value : Expr) : Prop where
  shaped : value.Shaped
  genuine : ∀ token, Piece.kept token ∈ value.pieces → token.Genuine
  finite : value.HasFiniteNumbers

section Soundness

/-- The parts of a legible expression are legible. -/
theorem Expr.Legible.child
    {value inner : Expr}
    (legible : value.Legible)
    (member : inner ∈ value.children) :
    inner.Legible where
  shaped := Expr.shaped_of_mem_children legible.shaped member
  genuine token inPieces :=
    legible.genuine token (Expr.pieces_subset_of_mem_children member inPieces)
  finite number holds := legible.finite number (.ofChild member holds)

variable {value : Expr} {token : Token}

/-- A character that words are made of can stand in the word of a form. -/
theorem Form.isLetter_of_isWordRest
    {c : Char}
    (inWord : isWordRest c = true) :
    Form.isLetter c = true := by
  simp only [isLetter, Bool.and_eq_true, bne_iff_ne]
  constructor <;> rintro rfl <;> exact absurd inWord (by decide)

/-- What is spelled as a word is the word of a form. -/
theorem Form.isWord_cons
    {first : Char}
    {rest : List Char}
    (isStart : isWordStart first = true)
    (areRest : ∀ c ∈ rest, isWordRest c = true) :
    Form.IsWord (first :: rest) := by
  refine ⟨List.cons_ne_nil _ _, ?_, ?_⟩
  · intro c member
    rcases List.mem_cons.mp member with rfl | later
    · exact Form.isLetter_of_isWordRest (by simp [isWordRest, isStart])
    · exact Form.isLetter_of_isWordRest (areRest c later)
  · rintro _ ⟨⟩
    constructor <;> rintro rfl <;> exact absurd isStart (by decide)

/-- A genuine name is the word of a form. -/
theorem Token.Genuine.isWord
    (genuine : token.Genuine)
    (isName : token.IsIdentifier) :
    Form.IsWord token.lexeme.toList := by
  obtain ⟨first, rest, spelled, isStart, areRest, -⟩ := genuine.name isName
  exact spelled ▸ Form.isWord_cons isStart areRest

/-- A reserved word is the word of a form. -/
theorem Keyword.isWord
    (word : Keyword) :
    Form.IsWord word.spelling.toList := by
  obtain ⟨first, rest, spelled, isStart, areRest⟩ := word.isWord_spelling
  exact spelled ▸ Form.isWord_cons isStart areRest

/-- A digit, a point and a sign can stand in the word of a form. -/
theorem Form.isLetter_of_numeric
    {c : Char}
    (numeric : c = '-' ∨ c = '.' ∨ c.isDigit = true) :
    Form.isLetter c = true := by
  simp only [isLetter, Bool.and_eq_true, bne_iff_ne]
  constructor <;> rintro rfl <;> exact absurd numeric (by decide)

/-- The text of a finite number is the word of a form. -/
theorem Decimal.isWord_write
    {number : Float}
    (isFinite : number.isFinite = true) :
    Form.IsWord (Decimal.write number).toList := by
  obtain ⟨first, rest, spelled, isFirst, areRest⟩ :=
    Decimal.write_spelled isFinite
  rw [spelled]
  refine ⟨List.cons_ne_nil _ _, ?_, ?_⟩
  · intro c member
    rcases List.mem_cons.mp member with rfl | later
    · exact Form.isLetter_of_numeric (isFirst.imp_right .inr)
    · exact Form.isLetter_of_numeric (.inr (areRest c later))
  · rintro _ ⟨⟩
    constructor <;> rintro rfl <;> exact absurd isFirst (by decide)

/-- The form of a literal is sound if its number is finite. -/
theorem Literal.sound_form
    (value : Literal)
    (finite : ∀ number, value = .number number → number.isFinite = true) :
    value.form.Sound := by
  cases value with
  | nil => exact Keyword.isWord .nilWord
  | boolean value =>
      cases value with
      | false => exact Keyword.isWord .falseWord
      | true => exact Keyword.isWord .trueWord
  | number number => exact Decimal.isWord_write (finite number rfl)
  | string value => trivial

/-- The operators of expressions are letters. -/
theorem Lexeme.areLetters
    {letters : List Char}
    {kind : Kind}
    (lexeme : Lexeme letters kind)
    (isOperator : kind.level?.isSome = true ∨ kind = .symbol .bang) :
    ∀ c ∈ letters, Form.isLetter c = true := by
  cases kind with
  | symbol sign =>
      rw [lexeme.eq_spelling rfl]
      cases sign <;> simp [Kind.level?] at isOperator <;>
        simp [Symbol.spelling, Form.isLetter]
  | keyword word =>
      rw [lexeme.eq_spelling rfl]
      cases word <;> simp [Kind.level?] at isOperator <;>
        simp [Keyword.spelling, Form.isLetter]
  | _ => simp [Kind.level?] at isOperator

mutual

/-- The form of a legible expression is sound. -/
theorem Expr.sound_form :
    (value : Expr) → value.Legible → value.form.Sound
  | .literal value, legible =>
      value.sound_form fun number same => legible.finite number (same ▸ .here)
  | .grouping inner, legible =>
      ⟨by
        simp [Form.isLetter], inner.sound_form
        (legible.child (by simp [children])), trivial⟩
  | .unary operator operand, legible => by
      have isGenuine := legible.genuine operator (by simp [pieces])
      have isOperator : operator.kind.level?.isSome = true ∨
          operator.kind = .symbol .bang := by
        rcases legible.shaped.1 with isBang | isMinus
        · exact .inr isBang
        · exact .inl (by rw [isMinus]; rfl)
      exact ⟨isGenuine.areLetters isOperator,
        operand.sound_form (legible.child (by simp [children])), trivial⟩
  | .binary left operator right, legible => by
      have isGenuine := legible.genuine operator (by simp [pieces])
      obtain ⟨level, isLevel, -⟩ := legible.shaped
      exact ⟨isGenuine.areLetters (.inl (by rw [isLevel]; rfl)),
        left.sound_form (legible.child (by simp [children])),
        right.sound_form (legible.child (by simp [children])), trivial⟩
  | .logical left operator right, legible => by
      have isGenuine := legible.genuine operator (by simp [pieces])
      obtain ⟨level, isLevel, -⟩ := legible.shaped
      exact ⟨isGenuine.areLetters (.inl (by rw [isLevel]; rfl)),
        left.sound_form (legible.child (by simp [children])),
        right.sound_form (legible.child (by simp [children])), trivial⟩
  | .reference _ name, legible =>
      (legible.genuine name (by simp [pieces])).isWord legible.shaped
  | .assign _ name value, legible =>
      ⟨by
        simp [Form.isLetter], (legible.genuine name (by simp [pieces])).isWord
        legible.shaped.1,
        value.sound_form (legible.child (by simp [children])), trivial⟩
  | .call callee _ arguments, legible =>
      ⟨by
        simp [Form.isLetter], callee.sound_form
        (legible.child (by simp [children])),
        Expr.sound_formAll arguments fun argument member =>
          legible.child (by simp [children, member])⟩
  | .get object name, legible =>
      ⟨by
        simp [Form.isLetter], object.sound_form
        (legible.child (by simp [children])),
        (legible.genuine name (by simp [pieces])).isWord legible.shaped.2.2,
          trivial⟩
  | .set object name value, legible =>
      ⟨by
        simp [Form.isLetter], object.sound_form
        (legible.child (by simp [children])),
        (legible.genuine name (by simp [pieces])).isWord legible.shaped.2.2.1,
        value.sound_form (legible.child (by simp [children])), trivial⟩
  | .thisRef _ _, _ => Keyword.isWord .thisWord
  | .superRef _ _ method, legible =>
      ⟨by simp [Form.isLetter],
        (legible.genuine method (by simp [pieces])).isWord legible.shaped.2,
          trivial⟩

/-- The forms of legible expressions are sound. -/
theorem Expr.sound_formAll :
    (values : List Expr) → (∀ value ∈ values, value.Legible) →
      Form.SoundAll (Expr.formAll values)
  | [], _ => trivial
  | first :: rest, legible =>
      ⟨first.sound_form (legible first List.mem_cons_self),
        Expr.sound_formAll rest fun value member =>
          legible value (List.mem_cons_of_mem _ member)⟩

end

/-- Legible expressions for which the same is printed are of one form. -/
theorem Expr.form_eq_of_printed_eq
    {other : Expr}
    (legible : value.Legible)
    (legibleOther : other.Legible)
    (same : value.printed = other.printed) :
    value.form = other.form :=
  Form.text_injective (value.sound_form legible) (other.sound_form legibleOther)
    (by rw [← value.toList_printed, ← other.toList_printed, same])

end Soundness

end LoxScript
