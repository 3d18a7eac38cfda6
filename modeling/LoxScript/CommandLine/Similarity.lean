namespace LoxScript.Similarity

/-!
# How alike two words are

The likeness of two words is a fraction between zero and one.  It counts the
letters they share at nearly the same place and how many of those are out of
order, and it rises with the length of the beginning they have in common.
-/

/-- The first place from `index` on, within the bounds, where the letter stands
unused. -/
def findLetter (letter : Char) (low high : Nat) :
    Nat → List (Char × Bool) → Option Nat
  | _, [] => none
  | index, (candidate, used) :: rest =>
      if low ≤ index && index ≤ high && candidate = letter && !used then
        some index
      else findLetter letter low high (index + 1) rest

/-- What comparing the letters of one word with another has found so far. -/
structure Tally where
  /-- The letters of the other word, and whether each is used up. -/
  letters : List (Char × Bool)
  shared : Nat := 0
  /-- Shared letters that stand before the one found last. -/
  backward : Nat := 0
  last : Nat := 0

/-- Looks for one letter of a word at nearly the same place in the other. -/
def Tally.step (range : Nat) (tally : Tally) (place : Char × Nat) : Tally :=
  let low := place.2 - range
  let high := min (tally.letters.length - 1) (place.2 + range)
  match findLetter place.1 low high 0 tally.letters with
  | some found =>
      { letters := tally.letters.modify found fun entry => (entry.1, true)
        shared := tally.shared + 1
        backward :=
          if found < tally.last then tally.backward + 1 else tally.backward
        last := found }
  | none => tally

/-- The length of the beginning that two words have in common. -/
def commonStart : List Char → List Char → Nat
  | first :: rest, other :: others =>
      if first = other then commonStart rest others + 1 else 0
  | _, _ => 0

/-- A likeness as a fraction, before the common beginning counts. -/
def base (left right : List Char) : Nat × Nat :=
  if left = right then (1, 1)
  else if left.isEmpty || right.isEmpty then (0, 1)
  else if left.length = 1 && right.length = 1 then (0, 1)
  else
    let range := max left.length right.length / 2 - 1
    let tally :=
      left.zipIdx.foldl (Tally.step range) { letters := right.map (·, false) }
    if tally.shared = 0 then (0, 1)
    else
      let shared := tally.shared
      let ordered := shared - tally.backward
      (shared * right.length * shared + shared * left.length * shared
          + ordered * left.length * right.length,
        3 * left.length * right.length * shared)

/-- The likeness of two words as a fraction. -/
def likeness (left right : String) : Nat × Nat :=
  let (numerator, denominator) := base left.toList right.toList
  let start := commonStart left.toList right.toList
  let raised := 10 * numerator + start * (denominator - numerator)
  if 10 * denominator < raised then (1, 1) else (raised, 10 * denominator)

/-- Whether one fraction is greater than another. -/
def exceeds (left right : Nat × Nat) : Bool :=
  right.1 * left.2 < left.1 * right.2

/-- Of the candidates that are more than four fifths like the word, the first
most alike. -/
def closest? (word : String) (candidates : List String) : Option String :=
  let best := candidates.foldl
    (fun (best : Option (String × (Nat × Nat))) candidate =>
      let found := likeness word candidate
      let threshold := match best with
        | some held => held.2
        | none => (8, 10)
      if exceeds found threshold then some (candidate, found) else best)
    none
  best.map Prod.fst

end LoxScript.Similarity
