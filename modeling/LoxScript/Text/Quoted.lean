import LoxScript.Text.Printable

namespace LoxScript.Text

/-!
# Quoted text

Text is shown in double quotes when it has to stand apart from what surrounds
it.  A quote and a backslash inside are escaped, a few control characters have
letters of their own, and what is not printable is spelled by its number.
-/

namespace Quoted

/-- The number of a character between braces, in lower-case hexadecimal. -/
def escapeNumber (c : Char) : List Char :=
  '\\' :: 'u' :: '\x7b' :: (Nat.toDigits 16 c.toNat ++ ['\x7d'])

/-- How one character is written inside double quotes. -/
def escape (c : Char) : List Char :=
  if c = '\x00' then ['\\', '0']
  else if c = '\t' then ['\\', 't']
  else if c = '\r' then ['\\', 'r']
  else if c = '\n' then ['\\', 'n']
  else if c = '\\' then ['\\', '\\']
  else if c = '"' then ['\\', '"']
  else if isPrintable c then [c]
  else escapeNumber c

/-- The characters of a text between its quotes. -/
def body (text : List Char) : List Char :=
  text.flatMap escape

end Quoted

/-- The text in double quotes, with everything escaped that could be misread. -/
def quoted (text : String) : String :=
  String.ofList ('"' :: (Quoted.body text.toList ++ ['"']))

/-- A list of texts, each quoted, between brackets. -/
def quotedList (texts : List String) : String :=
  "[" ++ String.intercalate ", " (texts.map quoted) ++ "]"

end LoxScript.Text
