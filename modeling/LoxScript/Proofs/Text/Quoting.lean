import Mathlib.Tactic.SplitIfs
import LoxScript.Text.Quoted

namespace LoxScript.Text.Quoted

/-!
# Quoted text can be read back

Every character is written so that one can tell where its escape ends, and no
quote is left unescaped.  So the text between two quotes is known from what is
written, whatever follows.
-/

/-- The number that hexadecimal digits spell. -/
def ofHexDigits (digits : List Char) : Nat :=
  digits.foldl (fun number digit =>
    16 * number +
      if digit.isDigit then digit.toNat - 48 else digit.toNat - 87) 0

/-- Digits spell the number that they are the digits of. -/
theorem ofHexDigits_toDigits
    (number : Nat) :
    ofHexDigits (Nat.toDigits 16 number) = number := by
  induction number using Nat.strongRecOn with
  | ind number inductionHypothesis =>
      have lastDigit : ∀ digit < 16,
          (if (Nat.digitChar digit).isDigit then
            (Nat.digitChar digit).toNat - 48
          else (Nat.digitChar digit).toNat - 87) = digit := by
        decide
      rw [Nat.toDigits_eq_if (by decide)]
      split
      next small => simpa [ofHexDigits] using lastDigit number small
      next large =>
          have known := inductionHypothesis (number / 16) (by omega)
          have last := lastDigit (number % 16) (Nat.mod_lt _ (by decide))
          rw [ofHexDigits] at known ⊢
          rw [List.foldl_append, known, List.foldl_cons, List.foldl_nil, last]
          exact Nat.div_add_mod number 16

/-- No digit closes a brace. -/
theorem ne_brace_of_mem_toDigits
    {number : Nat}
    {c : Char}
    (member : c ∈ Nat.toDigits 16 number) :
    c ≠ '\x7d' := by
  induction number using Nat.strongRecOn with
  | ind number inductionHypothesis =>
      have isNone : ∀ digit < 16, Nat.digitChar digit ≠ '\x7d' := by
        decide
      rw [Nat.toDigits_eq_if (by decide)] at member
      split at member
      next small =>
          cases List.mem_singleton.mp member
          exact isNone number small
      next large =>
          rcases List.mem_append.mp member with earlier | last
          · exact inductionHypothesis (number / 16) (by omega) earlier
          · cases List.mem_singleton.mp last
            exact isNone _ (Nat.mod_lt _ (by decide))

/-- The first character that is written, and what is written after it; a quote
ends the text. -/
def first? : List Char → Option (Char × List Char)
  | '\\' :: '0' :: rest => some ('\x00', rest)
  | '\\' :: 't' :: rest => some ('\t', rest)
  | '\\' :: 'r' :: rest => some ('\r', rest)
  | '\\' :: 'n' :: rest => some ('\n', rest)
  | '\\' :: 'u' :: '\x7b' :: rest =>
      let digits := rest.takeWhile (· != '\x7d')
      some (Char.ofNat (ofHexDigits digits), (rest.drop digits.length).tail)
  | '\\' :: c :: rest => some (c, rest)
  | '"' :: _ => none
  | c :: rest => some (c, rest)
  | [] => none

/-- What is written for a character is read as that character. -/
theorem first?_escape
    (c : Char)
    (rest : List Char) :
    first? (escape c ++ rest) = some (c, rest) := by
  unfold escape
  split_ifs with isNull isTab isReturn isBreak isBackslash isQuote isPrintable
  · rw [isNull]; rfl
  · rw [isTab]; rfl
  · rw [isReturn]; rfl
  · rw [isBreak]; rfl
  · rw [isBackslash]; rfl
  · rw [isQuote]; rfl
  · simp [first?, isBackslash]
  · have digits : (Nat.toDigits 16 c.toNat ++ '\x7d' :: rest).takeWhile
        (· != '\x7d') =
        Nat.toDigits 16 c.toNat := by
      rw [List.takeWhile_append_of_pos fun digit member => by
        simpa using ne_brace_of_mem_toDigits member]
      simp
    simp [escapeNumber, first?, digits, ofHexDigits_toDigits, Char.ofNat_toNat]

/-- A text and what stands behind its closing quote are known from what is
written. -/
theorem body_append_inj
    {text other rest restOther : List Char}
    (same : body text ++ '"' :: rest = body other ++ '"' :: restOther) :
    text = other ∧ rest = restOther := by
  induction text generalizing other with
  | nil =>
      cases other with
      | nil => exact ⟨rfl, (List.cons.inj same).2⟩
      | cons c further =>
          have reads := congrArg first? same
          rw [body, body, List.flatMap_cons, List.append_assoc,
            first?_escape] at reads
          cases reads
  | cons c further inductionHypothesis =>
      have reads := congrArg first? same
      rw [body, List.flatMap_cons, List.append_assoc, first?_escape] at reads
      cases other with
      | nil => cases reads
      | cons d furtherOther =>
          rw [body, List.flatMap_cons, List.append_assoc,
            first?_escape] at reads
          obtain ⟨rfl, sameFurther⟩ := Prod.mk.inj (Option.some.inj reads)
          obtain ⟨rfl, sameRest⟩ := inductionHypothesis sameFurther
          exact ⟨rfl, sameRest⟩

end LoxScript.Text.Quoted
