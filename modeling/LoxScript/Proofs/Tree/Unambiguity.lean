import LoxScript.Proofs.Tree.Alike
import LoxScript.Proofs.Tree.Printed

namespace LoxScript

/-!
# Printed expressions are unambiguous

The printed form of an expression that stands in a source says which expression
it is, up to what the form does not show: the identities of its nodes and the
lines of its tokens.  The form of an expression first says of which sort the
expression is.
-/

open Lexer

/-- The sorts of expressions. -/
inductive ExprSort where
  | literal | grouping | unary | binary | logical | reference
  | assign | call | get | set | thisRef | superRef
deriving DecidableEq

/-- The sort of an expression. -/
def Expr.sort : Expr → ExprSort
  | .literal _ => .literal
  | .grouping _ => .grouping
  | .unary _ _ => .unary
  | .binary _ _ _ => .binary
  | .logical _ _ _ => .logical
  | .reference _ _ => .reference
  | .assign _ _ _ => .assign
  | .call _ _ _ => .call
  | .get _ _ => .get
  | .set _ _ _ => .set
  | .thisRef _ _ => .thisRef
  | .superRef _ _ _ => .superRef

namespace Form

/-- The heads that are words, with the sorts of expressions that they stand
for. -/
def namedHeads : List (String × ExprSort) :=
  [("group", .grouping), ("assign", .assign), ("call", .call), ("get", .get),
    ("set", .set), ("super", .superRef), ("and", .logical), ("or", .logical)]

/-- The words that are no names, with the sorts of expressions that they stand
for. -/
def namedWords : List (String × ExprSort) :=
  [("nil", .literal), ("true", .literal), ("false", .literal),
    ("this", .thisRef)]

/-- The sort of the expressions of this form. -/
def sort : Form → ExprSort
  | .word letters =>
      (namedWords.lookup (String.ofList letters)).getD
        (if letters.head?.any isWordStart then .reference else .literal)
  | .quoted _ => .literal
  | .list head parts =>
      (namedHeads.lookup (String.ofList head)).getD
        (if parts.length = 1 then .unary else .binary)

end Form

section Sorts

/-- No symbol is spelled as a head that is a word. -/
theorem Symbol.lookup_spelling
    (sign : Symbol) :
    Form.namedHeads.lookup sign.spelling = none := by
  cases sign <;> decide

/-- The operators of binary expressions are symbols. -/
theorem Level.eq_symbol
    {kind : Kind}
    {level : Level}
    (isLevel : kind.level? = some level)
    (notLogical : level.isLogical = false) :
    ∃ sign, kind = .symbol sign := by
  cases kind with
  | symbol sign => exact ⟨sign, rfl⟩
  | keyword word => cases word <;> cases isLevel <;> cases notLogical
  | _ => cases isLevel

/-- The operators of logical expressions are `and` and `or`. -/
theorem Level.eq_keyword
    {kind : Kind}
    {level : Level}
    (isLevel : kind.level? = some level)
    (isLogical : level.isLogical = true) :
    kind = .keyword .andWord ∨ kind = .keyword .orWord := by
  cases kind with
  | symbol sign => cases sign <;> cases isLevel <;> cases isLogical
  | keyword word => cases word <;> cases isLevel <;> simp
  | _ => cases isLevel

variable {token : Token}

/-- A symbol as a head stands for an operator. -/
theorem Token.Genuine.lookup_symbol
    (genuine : token.Genuine)
    {sign : Symbol}
    (isSymbol : token.kind = .symbol sign) :
    Form.namedHeads.lookup token.lexeme = none := by
  rw [genuine.lexeme_eq isSymbol rfl]
  exact sign.lookup_spelling

/-- What is spelled as no reserved word is none of the words that are no
names. -/
theorem Form.lookup_word
    {word : String}
    (isFree : ∀ keyword : Keyword, word ≠ keyword.spelling) :
    Form.namedWords.lookup word = none := by
  have areReserved : ∀ pair ∈ Form.namedWords, ∃ keyword : Keyword,
      pair.1 = keyword.spelling := by
    simp only [namedWords, List.forall_mem_cons, List.not_mem_nil,
      false_implies, implies_true, and_true]
    exact ⟨⟨.nilWord, rfl⟩, ⟨.trueWord, rfl⟩, ⟨.falseWord, rfl⟩,
      ⟨.thisWord, rfl⟩⟩
  refine List.lookup_eq_none_iff.mpr fun pair member => ?_
  obtain ⟨keyword, isKeyword⟩ := areReserved pair member
  simpa [isKeyword] using isFree keyword

/-- The form of a name is of the sort of references. -/
theorem Token.Genuine.sort_name
    (genuine : token.Genuine)
    (isName : token.IsIdentifier) :
    (Form.word token.lexeme.toList).sort = .reference := by
  obtain ⟨first, rest, spelled, isStart, -, isFree⟩ := genuine.name isName
  rw [Form.sort, String.ofList_toList, Form.lookup_word isFree, spelled]
  simp [isStart]

/-- No number is spelled as a word. -/
theorem Decimal.not_isWordStart_write
    {number : Float}
    (isFinite : number.isFinite = true) :
    (Decimal.write number).toList.head?.any isWordStart = false := by
  obtain ⟨first, rest, spelled, isFirst, -⟩ := Decimal.write_spelled isFinite
  rw [spelled, List.head?_cons, Option.any_some]
  rcases isFirst with rfl | isDigit
  · decide
  · cases isStart : isWordStart first with
    | false => rfl
    | true =>
        rw [Opening.isDigit_of_isWordStart isStart] at isDigit; cases isDigit

/-- No number is spelled as a reserved word. -/
theorem Decimal.write_ne_spelling
    {number : Float}
    (isFinite : number.isFinite = true)
    (keyword : Keyword) :
    Decimal.write number ≠ keyword.spelling := by
  intro same
  obtain ⟨first, rest, spelled, isStart, -⟩ := keyword.isWord_spelling
  have notStart := Decimal.not_isWordStart_write isFinite
  rw [same, spelled, List.head?_cons, Option.any_some, isStart] at notStart
  cases notStart

/-- The form of a literal is of the sort of literals. -/
theorem Literal.sort_form
    (value : Literal)
    (finite : ∀ number, value = .number number → number.isFinite = true) :
    value.form.sort = .literal := by
  cases value with
  | nil => rfl
  | boolean value => cases value <;> rfl
  | string value => rfl
  | number number =>
      have isFinite := finite number rfl
      change (Form.word (Decimal.write number).toList).sort = .literal
      rw [Form.sort, String.ofList_toList,
        Form.lookup_word (Decimal.write_ne_spelling isFinite),
        Decimal.not_isWordStart_write isFinite]
      rfl

/-- The form of a legible expression says of which sort it is. -/
theorem Expr.Legible.sort_form
    {value : Expr}
    (legible : value.Legible) :
    value.form.sort = value.sort := by
  obtain ⟨shaped, genuine, finite⟩ := legible
  cases value with
  | literal value =>
      exact value.sort_form fun number same => finite number (same ▸ .here)
  | unary operator operand =>
      have isGenuine := genuine operator (by simp [pieces])
      have unnamed : Form.namedHeads.lookup operator.lexeme = none := by
        rcases shaped.1 with isBang | isMinus
        · exact isGenuine.lookup_symbol isBang
        · exact isGenuine.lookup_symbol isMinus
      simp [form, Form.sort, sort, unnamed]
  | binary left operator right =>
      have isGenuine := genuine operator (by simp [pieces])
      obtain ⟨level, isLevel, notLogical, -⟩ := shaped
      obtain ⟨sign, isSymbol⟩ := Level.eq_symbol isLevel notLogical
      simp [form, Form.sort, sort, isGenuine.lookup_symbol isSymbol]
  | logical left operator right =>
      have isGenuine := genuine operator (by simp [pieces])
      obtain ⟨level, isLevel, isLogical, -⟩ := shaped
      rcases Level.eq_keyword isLevel isLogical with isAnd | isOr
      · rw [form, Form.sort, String.ofList_toList,
          isGenuine.lexeme_eq isAnd rfl]
        rfl
      · rw [form, Form.sort, String.ofList_toList, isGenuine.lexeme_eq isOr rfl]
        rfl
  | reference id name =>
      exact (genuine name (by simp [pieces])).sort_name shaped
  | _ => rfl

end Sorts

/-- Tokens and nodes correspond if the tokens have one kind and one lexeme,
whatever their lines and the identities of the nodes are. -/
def Correspondence.ofContents : Correspondence :=
  ⟨fun token other => token.content = other.content, fun _ _ => True⟩

section Reading

/-- A number is of another form than a literal that is a reserved word. -/
theorem Literal.form_number_ne
    {number : Float}
    (isFinite : number.isFinite = true)
    {value : Literal}
    {keyword : Keyword}
    (isWord : value.form = .word keyword.spelling.toList) :
    (Literal.number number).form ≠ value.form := by
  intro same
  rw [isWord] at same
  exact Decimal.write_ne_spelling isFinite keyword
    (String.toList_inj.mp (Form.word.inj same))

theorem Literal.form_nil :
    Literal.nil.form = .word Keyword.nilWord.spelling.toList :=
  rfl

theorem Literal.form_boolean
    (truth : Bool) :
    ∃ keyword : Keyword,
      (Literal.boolean truth).form = .word keyword.spelling.toList := by
  cases truth with
  | false => exact ⟨.falseWord, rfl⟩
  | true => exact ⟨.trueWord, rfl⟩

/-- Literals of one form are the same if their numbers are finite. -/
theorem Literal.form_injective
    {value other : Literal}
    (finite : ∀ number, value = .number number → number.isFinite = true)
    (finiteOther : ∀ number, other = .number number → number.isFinite = true)
    (same : value.form = other.form) :
    value = other := by
  cases value with
  | string text =>
      cases other with
      | string textOther =>
          exact congrArg string (String.toList_inj.mp (Form.quoted.inj same))
      | _ => cases same
  | number number =>
      have isFinite := finite number rfl
      cases other with
      | string textOther => cases same
      | number numberOther =>
          exact congrArg Literal.number (Decimal.write_injective isFinite
            (finiteOther numberOther rfl)
            (String.toList_inj.mp (Form.word.inj same)))
      | nil => exact absurd same (Literal.form_number_ne isFinite form_nil)
      | boolean truth =>
          obtain ⟨keyword, isWord⟩ := form_boolean truth
          exact absurd same (Literal.form_number_ne isFinite isWord)
  | nil =>
      cases other with
      | string textOther => cases same
      | number number =>
          exact absurd same.symm
            (Literal.form_number_ne (finiteOther number rfl) form_nil)
      | nil => rfl
      | boolean truth => cases truth <;> simp [form, text] at same
  | boolean truth =>
      cases other with
      | string textOther => cases same
      | number number =>
          obtain ⟨keyword, isWord⟩ := form_boolean truth
          exact absurd same.symm
            (Literal.form_number_ne (finiteOther number rfl) isWord)
      | nil => cases truth <;> simp [form, text] at same
      | boolean truthOther =>
          cases truth <;> cases truthOther <;> simp [form, text] at same ⊢

/-- Legible expressions of one form are of one sort. -/
theorem Expr.Legible.sort_eq
    {value other : Expr}
    (legible : value.Legible)
    (legibleOther : other.Legible)
    (same : value.form = other.form) :
    value.sort = other.sort := by
  rw [← legible.sort_form, ← legibleOther.sort_form, same]

/-- Two tokens of one lexeme that legible expressions keep differ in their lines
only. -/
theorem Expr.Legible.content_eq
    {value other : Expr}
    (legible : value.Legible)
    (legibleOther : other.Legible)
    {token tokenOther : Token}
    (same : token.lexeme = tokenOther.lexeme)
    (kept : Piece.kept token ∈ value.pieces)
    (keptOther : Piece.kept tokenOther ∈ other.pieces) :
    token.content = tokenOther.content :=
  (legible.genuine token kept).content_eq
    (legibleOther.genuine tokenOther keptOther) same

mutual

/-- Legible expressions of one form are alike. -/
theorem Expr.alike_of_form_eq :
    (value other :
      Expr) → value.Legible → other.Legible → value.form = other.form →
      Expr.Alike .ofContents value other
  | .literal value, other, legible, legibleOther, same => by
      have sorted := legible.sort_eq legibleOther same
      cases other with
      | literal valueOther =>
          have sameValue : value = valueOther := Literal.form_injective
            (fun number same => legible.finite number (same ▸ .here))
            (fun number same => legibleOther.finite number (same ▸ .here)) same
          exact sameValue ▸ .literal
      | _ => cases sorted
  | .grouping inner, other, legible, legibleOther, same => by
      have sorted := legible.sort_eq legibleOther same
      cases other with
      | grouping innerOther =>
          simp only [form, Form.list.injEq, List.cons.injEq, and_true,
            true_and] at same
          exact .grouping
            (inner.alike_of_form_eq innerOther
              (legible.child (by simp [children]))
              (legibleOther.child (by simp [children])) same)
      | _ => cases sorted
  | .unary operator operand, other, legible, legibleOther, same => by
      have sorted := legible.sort_eq legibleOther same
      cases other with
      | unary operatorOther operandOther =>
          simp only [form, Form.list.injEq, List.cons.injEq, and_true,
            String.toList_inj] at same
          exact .unary
            (legible.content_eq legibleOther same.1 (by simp [pieces])
              (by simp [pieces]))
            (operand.alike_of_form_eq operandOther
              (legible.child (by simp [children]))
              (legibleOther.child (by simp [children])) same.2)
      | _ => cases sorted
  | .binary left operator right, other, legible, legibleOther, same => by
      have sorted := legible.sort_eq legibleOther same
      cases other with
      | binary leftOther operatorOther rightOther =>
          simp only [form, Form.list.injEq, List.cons.injEq, and_true,
            String.toList_inj] at same
          exact .binary
            (left.alike_of_form_eq leftOther
              (legible.child (by simp [children]))
              (legibleOther.child (by simp [children])) same.2.1)
            (legible.content_eq legibleOther same.1 (by simp [pieces])
              (by simp [pieces]))
            (right.alike_of_form_eq rightOther
              (legible.child (by simp [children]))
              (legibleOther.child (by simp [children])) same.2.2)
      | _ => cases sorted
  | .logical left operator right, other, legible, legibleOther, same => by
      have sorted := legible.sort_eq legibleOther same
      cases other with
      | logical leftOther operatorOther rightOther =>
          simp only [form, Form.list.injEq, List.cons.injEq, and_true,
            String.toList_inj] at same
          exact .logical
            (left.alike_of_form_eq leftOther
              (legible.child (by simp [children]))
              (legibleOther.child (by simp [children])) same.2.1)
            (legible.content_eq legibleOther same.1 (by simp [pieces])
              (by simp [pieces]))
            (right.alike_of_form_eq rightOther
              (legible.child (by simp [children]))
              (legibleOther.child (by simp [children])) same.2.2)
      | _ => cases sorted
  | .reference id name, other, legible, legibleOther, same => by
      have sorted := legible.sort_eq legibleOther same
      cases other with
      | reference idOther nameOther =>
          simp only [form, Form.word.injEq, String.toList_inj] at same
          exact .reference trivial
            (legible.content_eq legibleOther same (by simp [pieces])
              (by simp [pieces]))
      | _ => cases sorted
  | .assign id name value, other, legible, legibleOther, same => by
      have sorted := legible.sort_eq legibleOther same
      cases other with
      | assign idOther nameOther valueOther =>
          simp only [form, Form.list.injEq, Form.word.injEq, List.cons.injEq,
            and_true, true_and, String.toList_inj] at same
          exact .assign trivial
            (legible.content_eq legibleOther same.1 (by simp [pieces])
              (by simp [pieces]))
            (value.alike_of_form_eq valueOther
              (legible.child (by simp [children]))
              (legibleOther.child (by simp [children])) same.2)
      | _ => cases sorted
  | .call callee paren arguments, other, legible, legibleOther, same => by
      have sorted := legible.sort_eq legibleOther same
      cases other with
      | call calleeOther parenOther argumentsOther =>
          simp only [form, Form.list.injEq, List.cons.injEq, true_and] at same
          exact .call
            (callee.alike_of_form_eq calleeOther
              (legible.child (by simp [children]))
              (legibleOther.child (by simp [children])) same.1)
            ((legible.genuine paren (by simp [pieces])).content_eq_of_kind
              (legibleOther.genuine parenOther (by simp [pieces]))
              legible.shaped.2.2.1 legibleOther.shaped.2.2.1 rfl)
            (Expr.alike_of_formAll_eq arguments argumentsOther
              (fun argument member =>
                legible.child (by simp [children, member]))
              (fun argument member =>
                legibleOther.child (by simp [children, member])) same.2)
      | _ => cases sorted
  | .get object name, other, legible, legibleOther, same => by
      have sorted := legible.sort_eq legibleOther same
      cases other with
      | get objectOther nameOther =>
          simp only [form, Form.list.injEq, Form.word.injEq, List.cons.injEq,
            and_true, true_and, String.toList_inj] at same
          exact .get
            (object.alike_of_form_eq objectOther
              (legible.child (by simp [children]))
              (legibleOther.child (by simp [children])) same.1)
            (legible.content_eq legibleOther same.2 (by simp [pieces])
              (by simp [pieces]))
      | _ => cases sorted
  | .set object name value, other, legible, legibleOther, same => by
      have sorted := legible.sort_eq legibleOther same
      cases other with
      | set objectOther nameOther valueOther =>
          simp only [form, Form.list.injEq, Form.word.injEq, List.cons.injEq,
            and_true, true_and, String.toList_inj] at same
          exact .set
            (object.alike_of_form_eq objectOther
              (legible.child (by simp [children]))
              (legibleOther.child (by simp [children])) same.1)
            (legible.content_eq legibleOther same.2.1 (by simp [pieces])
              (by simp [pieces]))
            (value.alike_of_form_eq valueOther
              (legible.child (by simp [children]))
              (legibleOther.child (by simp [children])) same.2.2)
      | _ => cases sorted
  | .thisRef id keyword, other, legible, legibleOther, same => by
      have sorted := legible.sort_eq legibleOther same
      cases other with
      | thisRef idOther keywordOther =>
          exact .thisRef trivial
            ((legible.genuine keyword (by simp [pieces])).content_eq_of_kind
              (legibleOther.genuine keywordOther (by simp [pieces]))
              legible.shaped legibleOther.shaped rfl)
      | _ => cases sorted
  | .superRef id keyword method, other, legible, legibleOther, same => by
      have sorted := legible.sort_eq legibleOther same
      cases other with
      | superRef idOther keywordOther methodOther =>
          simp only [form, Form.list.injEq, Form.word.injEq, List.cons.injEq,
            and_true, true_and, String.toList_inj] at same
          exact .superRef trivial
            ((legible.genuine keyword (by simp [pieces])).content_eq_of_kind
              (legibleOther.genuine keywordOther (by simp [pieces]))
              legible.shaped.1 legibleOther.shaped.1 rfl)
            (legible.content_eq legibleOther same (by simp [pieces])
              (by simp [pieces]))
      | _ => cases sorted

/-- Legible expressions of the same forms are alike, one by one. -/
theorem Expr.alike_of_formAll_eq :
    (values others : List Expr) → (∀ value ∈ values, value.Legible) →
      (∀ other ∈ others, other.Legible) →
      Expr.formAll values = Expr.formAll others →
      List.Forall₂ (Expr.Alike .ofContents) values others
  | [], [], _, _, _ => .nil
  | [], _ :: _, _, _, same => by cases same
  | _ :: _, [], _, _, same => by cases same
  | value :: values, other :: others, legible, legibleOther, same => by
      obtain ⟨sameFirst, sameRest⟩ := List.cons.inj same
      exact .cons
        (value.alike_of_form_eq other (legible value List.mem_cons_self)
          (legibleOther other List.mem_cons_self) sameFirst)
        (Expr.alike_of_formAll_eq values others
          (fun value member => legible value (List.mem_cons_of_mem _ member))
          (fun other member =>
            legibleOther other (List.mem_cons_of_mem _ member)) sameRest)

end

mutual

/-- Expressions that are alike have one form. -/
theorem Expr.form_eq_of_alike :
    (value other :
      Expr) → Expr.Alike .ofContents value other → value.form = other.form
  | .literal _, _, .literal => rfl
  | .grouping inner, _, .grouping alike => by
      simp only [form, inner.form_eq_of_alike _ alike]
  | .unary _ operand, _, .unary operators alike => by
      simp only [form, operand.form_eq_of_alike _ alike,
        (Prod.mk.inj operators).2]
  | .binary left _ right, _, .binary alikeLeft operators alikeRight => by
      simp only [form, left.form_eq_of_alike _ alikeLeft,
        right.form_eq_of_alike _ alikeRight, (Prod.mk.inj operators).2]
  | .logical left _ right, _, .logical alikeLeft operators alikeRight => by
      simp only [form, left.form_eq_of_alike _ alikeLeft,
        right.form_eq_of_alike _ alikeRight, (Prod.mk.inj operators).2]
  | .reference _ _, _, .reference _ names => by
      simp only [form, (Prod.mk.inj names).2]
  | .assign _ _ value, _, .assign _ names alike => by
      simp only [form, value.form_eq_of_alike _ alike, (Prod.mk.inj names).2]
  | .call callee _ arguments, _, .call alike _ alikeAll => by
      simp only [form, callee.form_eq_of_alike _ alike,
        Expr.formAll_eq_of_alike arguments _ alikeAll]
  | .get object _, _, .get alike names => by
      simp only [form, object.form_eq_of_alike _ alike, (Prod.mk.inj names).2]
  | .set object _ value, _, .set alikeObject names alikeValue => by
      simp only [form, object.form_eq_of_alike _ alikeObject,
        value.form_eq_of_alike _ alikeValue, (Prod.mk.inj names).2]
  | .thisRef _ _, _, .thisRef _ _ => rfl
  | .superRef _ _ _, _, .superRef _ _ methods => by
      simp only [form, (Prod.mk.inj methods).2]

/-- Expressions that are alike one by one have the same forms. -/
theorem Expr.formAll_eq_of_alike :
    (values others :
      List Expr) → List.Forall₂ (Expr.Alike .ofContents) values others →
      Expr.formAll values = Expr.formAll others
  | [], _, .nil => rfl
  | value :: values, _, .cons alike alikeAll => by
      simp only [formAll, value.form_eq_of_alike _ alike,
        Expr.formAll_eq_of_alike values _ alikeAll]

end

end Reading

/-- Printed expressions are unambiguous: for two expressions that stand in
sources and whose numbers are finite, the same is printed exactly if they are
one tree, up to the identities of the nodes and the lines of the tokens. -/
theorem Expr.printed_forms_are_unambiguous
    {value other : Expr}
    {source sourceOther : ByteArray}
    (stands : value.StandsIn source)
    (standsOther : other.StandsIn sourceOther)
    (finite : value.HasFiniteNumbers)
    (finiteOther : other.HasFiniteNumbers) :
    value.printed = other.printed ↔ Expr.Alike .ofContents value other := by
  have legible : value.Legible := ⟨stands.genuine.1, stands.genuine.2, finite⟩
  have legibleOther : other.Legible :=
    ⟨standsOther.genuine.1, standsOther.genuine.2, finiteOther⟩
  constructor
  · intro same
    exact value.alike_of_form_eq other legible legibleOther
      (Expr.form_eq_of_printed_eq legible legibleOther same)
  · intro alike
    refine String.toList_inj.mp ?_
    rw [value.toList_printed, other.toList_printed,
      value.form_eq_of_alike other alike]

/-- The method `f` of `a` called with a number and a text, with a minus in
front.  The identity of the reference and the line of the closing parenthesis
are not shown. -/
def negatedCall (number : Float) (id : NodeId) (line : Int) : Expr :=
  .unary ⟨.symbol .minus, "-", 1⟩
    (.call (.get (.reference id ⟨.identifier "a", "a", 1⟩)
      ⟨.identifier "f", "f", 1⟩)
      ⟨.symbol .rightParen, ")", line⟩
        [.literal (.number number), .literal (.string "x\n")])

/-- The call has finite numbers if its argument is finite. -/
theorem hasFiniteNumbers_negatedCall
    {number : Float}
    (isFinite : number.isFinite = true)
    (id : NodeId)
    (line : Int) :
    (negatedCall number id line).HasFiniteNumbers := by
  refine .ofChildren nofun fun call isCall => ?_
  cases List.mem_singleton.mp isCall
  refine .ofChildren nofun fun inner member => ?_
  simp only [Expr.children, List.mem_cons, List.not_mem_nil, or_false] at member
  rcases member with rfl | rfl | rfl
  · refine .ofChildren nofun fun object isObject => ?_
    cases List.mem_singleton.mp isObject
    exact .ofChildren nofun nofun
  · intro other holds
    rcases holds.cases_children with same | ⟨_, member, _⟩
    · cases same
      exact isFinite
    · cases member
  · exact .ofChildren nofun nofun

/-- The call is printed with its argument, and with neither the identity nor the
line. -/
theorem printed_negatedCall
    {number : Float}
    (isWritten : Decimal.write number = "1.5")
    (id : NodeId)
    (line : Int) :
    (negatedCall number id line).printed =
      "(- (call (get a f) 1.5 \"x\\n\"))" := by
  simp only [negatedCall, Expr.printed, Expr.printedAll, Literal.printed,
    Literal.text, isWritten]
  decide +kernel

/-- A source with the call on two lines, and with more digits than it takes. -/
def spacious : String :=
  "print -a . f(1.50, 'x\n');"

/-- A source with the call as the value of an assignment, and with a line break
by its escape. -/
def tight : String :=
  "\x7bc=-a.f(1.5,\"x\\n\");\x7d"

/-- The same call from two sources is printed once. -/
theorem Expr.printed_forms_are_unambiguous_across_layouts :
    ∃ number numberOther : Float,
      (negatedCall number 0 2).StandsIn spacious.toUTF8 ∧
      (negatedCall numberOther 1 1).StandsIn tight.toUTF8 ∧
      (negatedCall number 0 2).HasFiniteNumbers ∧
      (negatedCall numberOther 1 1).HasFiniteNumbers ∧
      (negatedCall number 0 2).printed = "(- (call (get a f) 1.5 \"x\\n\"))" ∧
      (negatedCall numberOther 1 1).printed =
        "(- (call (get a f) 1.5 \"x\\n\"))" ∧
      Expr.Alike .ofContents (negatedCall number 0 2)
        (negatedCall numberOther 1 1) := by
  have stands : (negatedCall (Decimal.read ['1'] ['5', '0']) 0 2).StandsIn
      spacious.toUTF8 := by
    have scanned : Program.tokens spacious.toUTF8 =
        .ok [⟨.keyword .printWord, "print", 1⟩, ⟨.symbol .minus, "-", 1⟩,
          ⟨.identifier "a", "a", 1⟩, ⟨.symbol .dot, ".", 1⟩,
          ⟨.identifier "f", "f", 1⟩, ⟨.symbol .leftParen, "(", 1⟩,
          ⟨.number (Decimal.read ['1'] ['5', '0']), "1.50", 1⟩,
          ⟨.symbol .comma, ",", 1⟩, ⟨.string "x\n", "'x\n'", 2⟩,
          ⟨.symbol .rightParen, ")", 2⟩, ⟨.symbol .semicolon, ";", 2⟩,
          ⟨.endOfInput, "", 2⟩] :=
      rfl
    generalize Decimal.read ['1'] ['5', '0'] = number at scanned ⊢
    exact ⟨_, 0, [.print (negatedCall number 0 2)], 1, scanned,
      by cbv, _, List.mem_cons_self, .here⟩
  have standsOther : (negatedCall (Decimal.read ['1'] ['5']) 1 1).StandsIn
      tight.toUTF8 := by
    have scanned : Program.tokens tight.toUTF8 =
        .ok [⟨.symbol .leftBrace, "\x7b", 1⟩, ⟨.identifier "c", "c", 1⟩,
          ⟨.symbol .equal, "=", 1⟩, ⟨.symbol .minus, "-", 1⟩,
          ⟨.identifier "a", "a", 1⟩, ⟨.symbol .dot, ".", 1⟩,
          ⟨.identifier "f", "f", 1⟩, ⟨.symbol .leftParen, "(", 1⟩,
          ⟨.number (Decimal.read ['1'] ['5']), "1.5", 1⟩,
          ⟨.symbol .comma, ",", 1⟩, ⟨.string "x\n", "\"x\\n\"", 1⟩,
          ⟨.symbol .rightParen, ")", 1⟩, ⟨.symbol .semicolon, ";", 1⟩,
          ⟨.symbol .rightBrace, "\x7d", 1⟩, ⟨.endOfInput, "", 1⟩] :=
      rfl
    generalize Decimal.read ['1'] ['5'] = number at scanned ⊢
    let assignment : Expr :=
      .assign 2 ⟨.identifier "c", "c", 1⟩ (negatedCall number 1 1)
    exact ⟨_, 0, [.block [.expression assignment]], 3, scanned,
      by cbv, _, List.mem_cons_self, .child .here List.mem_cons_self⟩
  have finite := hasFiniteNumbers_negatedCall
    (show (Decimal.read ['1'] ['5', '0']).isFinite = true by decide) 0 2
  have finiteOther := hasFiniteNumbers_negatedCall
    (show (Decimal.read ['1'] ['5']).isFinite = true by decide) 1 1
  have printed := printed_negatedCall
    (show Decimal.write (Decimal.read ['1'] ['5', '0']) =
      "1.5" by decide +kernel) 0 2
  have printedOther := printed_negatedCall
    (show Decimal.write (Decimal.read ['1'] ['5']) = "1.5" by decide +kernel)
    1 1
  exact ⟨_, _, stands, standsOther, finite, finiteOther, printed, printedOther,
    (Expr.printed_forms_are_unambiguous stands standsOther finite
      finiteOther).mp (printed.trans printedOther.symm)⟩

end LoxScript
