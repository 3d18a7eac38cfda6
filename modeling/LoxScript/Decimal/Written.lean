import LoxScript.Decimal.Shortest

namespace LoxScript.Decimal

/-!
# Numbers as text

Numbers are written with the fewest digits that read back, always in positional
notation: never with an exponent, and with a point only in front of digits.
They are read from digits with an optional fraction; hosts may also write a
sign, an exponent and the names of the special values.
-/

/-- A decimal in positional notation. -/
def Digits.positional (digits : Digits) : List Char :=
  let written := Nat.toDigits 10 digits.coefficient
  let places := (-digits.exponent).toNat
  if places = 0 then written ++ List.replicate digits.exponent.toNat '0'
  else if places < written.length then
    let whole := written.length - places
    written.take whole ++ '.' :: written.drop whole
  else '0' :: '.' :: (List.replicate (places - written.length) '0' ++ written)

/-- A sign in front of the text of a negative number. -/
def signed (negative : Bool) (text : List Char) : String :=
  String.ofList (if negative then '-' :: text else text)

/-- The text of a number. -/
def write (number : Float) : String :=
  match Shape.ofFloat number with
  | .undefined => "NaN"
  | .infinite negative => signed negative "inf".toList
  | .finite binary =>
      if binary.mantissa = 0 then signed binary.negative ['0']
      else signed binary.negative (shortest binary).positional

/-- The value of a digit. -/
def digitValue (c : Char) : Nat :=
  c.toNat - '0'.toNat

/-- The natural number that a row of digits spells. -/
def natOfDigits (digits : List Char) : Nat :=
  digits.foldl (fun total digit => total * 10 + digitValue digit) 0

/-- The number that digits with a fraction spell, rounded to the nearest
double. -/
def read (whole fraction : List Char) : Float :=
  nearest (natOfDigits (whole ++ fraction)) (powerOfTen fraction.length)

/-- The number that digits with a fraction and a power of ten spell. -/
def readScaled (whole fraction : List Char) (power : Int) : Float :=
  let digits := natOfDigits (whole ++ fraction)
  let exponent := power - fraction.length
  if digits = 0 then 0.0
  else if 400 < exponent + digitCount digits then nearest (powerOfTen 400) 1
  else if exponent + digitCount digits < -400 then 0.0
  else
    nearest (digits * powerOfTen exponent.toNat)
      (powerOfTen (-exponent).toNat)

/-- The power of ten after an exponent mark, or zero when there is none. -/
def readPower? : List Char → Option Int
  | [] => some 0
  | mark :: rest =>
      if mark = 'e' || mark = 'E' then
        let digits := match rest with
          | '-' :: digits => digits
          | '+' :: digits => digits
          | digits => digits
        if digits.isEmpty || !digits.all Char.isDigit then none
        else if rest.head? = some '-' then some (-(natOfDigits digits : Int))
        else some (natOfDigits digits)
      else none

/-- The number that an unsigned text spells. -/
def readUnsigned? (text : List Char) : Option Float :=
  let name := (String.ofList text).toLower
  if name = "inf" || name = "infinity" then some (1.0 / 0.0)
  else if name = "nan" then some (0.0 / 0.0)
  else
    let whole := text.takeWhile Char.isDigit
    let afterWhole := text.dropWhile Char.isDigit
    let fraction := match afterWhole with
      | '.' :: rest => rest.takeWhile Char.isDigit
      | _ => []
    let afterFraction := match afterWhole with
      | '.' :: rest => rest.dropWhile Char.isDigit
      | rest => rest
    if whole.isEmpty && fraction.isEmpty then none
    else (readPower? afterFraction).map fun power =>
      readScaled whole fraction power

/-- The number that a text spells: digits with an optional fraction, exponent
and sign, or a special value by name. -/
def parse? (text : String) : Option Float :=
  match text.toList with
  | '-' :: rest => (readUnsigned? rest).map fun number => -number
  | '+' :: rest => readUnsigned? rest
  | rest => readUnsigned? rest

end LoxScript.Decimal
