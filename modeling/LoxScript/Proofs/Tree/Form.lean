import LoxScript.Tree.Printer
import LoxScript.Proofs.Text.Quoting
import LoxScript.Proofs.Token.Lexemes

namespace LoxScript

/-!
# Forms in parentheses

The printed form of an expression is a word, a text in quotes, or a head in
parentheses with its parts behind it.  However many parts there are, and
although words have no marks of their own, a form and what stands behind it are
known from the text: every part ends with a blank or with the parenthesis of the
form that it is a part of.
-/

/-- What is printed for an expression, before it is text. -/
inductive Form where
  | word (letters : List Char)
  | quoted (text : List Char)
  | list (head : List Char) (parts : List Form)

namespace Form

mutual

/-- The text of a form. -/
def text : Form → List Char
  | .word letters => letters
  | .quoted text => '"' :: (Text.Quoted.body text ++ ['"'])
  | .list head parts => '(' :: head ++ textAll parts ++ [')']

/-- The texts of several forms, each behind a blank. -/
def textAll : List Form → List Char
  | [] => []
  | first :: rest => ' ' :: first.text ++ textAll rest

end

/-- Whether the character can stand in a word. -/
def isLetter (c : Char) : Bool :=
  c != ' ' && c != ')'

/-- The characters are a word that cannot be taken for another form. -/
structure IsWord (letters : List Char) : Prop where
  nonempty : letters ≠ []
  areLetters : ∀ c ∈ letters, isLetter c = true
  opens : ∀ c ∈ letters.head?, c ≠ '(' ∧ c ≠ '"'

mutual

/-- The words and heads of the form can be told from what stands behind them. -/
def Sound : Form → Prop
  | .word letters => IsWord letters
  | .quoted _ => True
  | .list head parts => (∀ c ∈ head, isLetter c = true) ∧ SoundAll parts

/-- All forms are sound. -/
def SoundAll : List Form → Prop
  | [] => True
  | first :: rest => first.Sound ∧ SoundAll rest

end

/-- A form can end in front of these characters. -/
def Ends (rest : List Char) : Prop :=
  ∀ c ∈ rest.head?, isLetter c = false

section Ending

variable {parts : List Form} {rest restOther letters others inner : List Char}

theorem ends_blank : Ends (' ' :: rest) := by
  simp [Ends, isLetter]

theorem ends_close : Ends (')' :: rest) := by
  simp [Ends, isLetter]

/-- A form can end in front of the parts that follow in its list. -/
theorem ends_textAll
    (parts : List Form) :
    Ends (textAll parts ++ ')' :: rest) := by
  cases parts with
  | nil => exact ends_close
  | cons first further => exact ends_blank

/-- A word does not begin as a text in quotes or a list does. -/
theorem IsWord.ne_cons
    (isWord : IsWord letters)
    {c : Char}
    (opens : c = '(' ∨ c = '"') :
    letters ++ rest ≠ c :: inner := by
  intro same
  obtain ⟨nonempty, -, begins⟩ := isWord
  cases letters with
  | nil => exact nonempty rfl
  | cons first further =>
      cases same
      have different := begins c rfl
      rcases opens with rfl | rfl
      · exact different.1 rfl
      · exact different.2 rfl

/-- Words end where the first character stands that is no letter. -/
theorem letters_unique
    (same : letters ++ rest = others ++ restOther)
    (areLetters : ∀ c ∈ letters, isLetter c = true)
    (areOthers : ∀ c ∈ others, isLetter c = true)
    (ends : Ends rest)
    (endsOther : Ends restOther) :
    letters = others ∧ rest = restOther :=
  span_unique same areLetters areOthers ends endsOther

end Ending

mutual

/-- A form and what stands behind it are known from the text. -/
theorem text_append_inj :
    (form other :
      Form) → form.Sound → other.Sound → {rest restOther : List Char} →
      Ends rest → Ends restOther → form.text ++ rest = other.text ++ restOther →
      form = other ∧ rest = restOther
  | .word letters, .word others, isWord, isOther, rest, restOther, ends,
    endsOther, same => by
      obtain ⟨rfl, sameRest⟩ :=
        letters_unique same isWord.areLetters isOther.areLetters ends endsOther
      exact ⟨rfl, sameRest⟩
  | .word _, .quoted _, isWord, _, _, _, _, _, same =>
      absurd same (isWord.ne_cons (.inr rfl))
  | .word _, .list _ _, isWord, _, _, _, _, _, same =>
      absurd same (isWord.ne_cons (.inl rfl))
  | .quoted _, .word _, _, isWord, _, _, _, _, same =>
      absurd same.symm (isWord.ne_cons (.inr rfl))
  | .quoted text, .quoted other, _, _, rest, restOther, _, _, same => by
      simp only [Form.text, List.cons_append, List.append_assoc,
        List.nil_append, List.cons.injEq, true_and] at same
      obtain ⟨rfl, sameRest⟩ := Text.Quoted.body_append_inj same
      exact ⟨rfl, sameRest⟩
  | .quoted _, .list _ _, _, _, _, _, _, _, same => by cases same
  | .list _ _, .word _, _, isWord, _, _, _, _, same =>
      absurd same.symm (isWord.ne_cons (.inl rfl))
  | .list _ _, .quoted _, _, _, _, _, _, _, same => by cases same
  | .list head parts, .list headOther others, sound, soundOther, rest,
    restOther, _, _, same => by
      simp only [Form.text, List.cons_append, List.append_assoc,
        List.nil_append, List.cons.injEq, true_and] at same
      obtain ⟨rfl, sameParts⟩ :=
        letters_unique same sound.1 soundOther.1 (ends_textAll parts)
          (ends_textAll others)
      obtain ⟨rfl, sameRest⟩ :=
        textAll_append_inj parts others sound.2 soundOther.2 sameParts
      exact ⟨rfl, sameRest⟩

/-- The parts of a list and what stands behind the list are known from the
text. -/
theorem textAll_append_inj :
    (parts others : List Form) → SoundAll parts → SoundAll others →
      {rest restOther : List Char} →
      textAll parts ++ ')' :: rest = textAll others ++ ')' :: restOther →
      parts = others ∧ rest = restOther
  | [], [], _, _, _, _, same => ⟨rfl, (List.cons.inj same).2⟩
  | [], _ :: _, _, _, _, _, same => by cases same
  | _ :: _, [], _, _, _, _, same => by cases same
  | first :: parts, firstOther :: others, sound, soundOther, rest, restOther,
    same => by
      simp only [textAll, List.cons_append, List.append_assoc, List.cons.injEq,
        true_and] at same
      obtain ⟨rfl, sameParts⟩ :=
        text_append_inj first firstOther sound.1 soundOther.1
        (ends_textAll parts) (ends_textAll others) same
      obtain ⟨rfl, sameRest⟩ :=
        textAll_append_inj parts others sound.2 soundOther.2 sameParts
      exact ⟨rfl, sameRest⟩

end

/-- Sound forms of one text are the same. -/
theorem text_injective
    {form other : Form}
    (sound : form.Sound)
    (soundOther : other.Sound)
    (same : form.text = other.text) :
    form = other := by
  have ends : Ends [] := nofun
  exact (text_append_inj form other sound soundOther ends ends (by rw [same])).1

end Form

end LoxScript
