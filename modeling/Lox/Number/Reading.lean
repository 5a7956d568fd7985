import Lox.Number.Shortest

/-!
# Reading numbers

Decimal text stands for the number nearest to it.  `ofDigits` reads what a number
token can hold, digits with an optional fraction.  `readNumber?` reads the wider
form with a sign, an exponent and the words for infinity and for what is not a
number, in letters of either case.
-/

namespace Lox

namespace Decimal

/-- Digits before and after a point as a decimal. -/
def ofDigits (whole fraction : List Char) : Decimal :=
  ⟨Nat.ofDigitChars 10 (whole ++ fraction) 0, -(fraction.length : Int)⟩

/-- The number nearest to a decimal.  Exponents far outside the range of finite
numbers are answered without writing out the power of ten. -/
def toFloat (d : Decimal) : Float :=
  let leading := (Nat.toDigits 10 d.significand).length + d.exponent
  if d.significand = 0 || leading < -400 then Binary64.toFloat 0
  else if 400 < leading then Binary64.toFloat Binary64.infinity
  else Binary64.toFloat d.magnitude

end Decimal

/-- A whole number with an optional sign, all of whose other characters are
digits. -/
def readExponent? : List Char → Option Int
  | '-' :: digits => (readDigits? digits).map fun n => -(n : Int)
  | '+' :: digits => (readDigits? digits).map fun n => (n : Int)
  | digits => (readDigits? digits).map fun n => (n : Int)
where
  /-- A non-empty list of digits. -/
  readDigits? (digits : List Char) : Option Nat :=
    if digits.isEmpty || !digits.all Char.isDigit then none
    else some (Nat.ofDigitChars 10 digits 0)

/-- Digits with an optional fraction and an optional exponent; a digit must stand
before or after the point. -/
def readUnsigned? (text : List Char) : Option Float :=
  let whole := text.takeWhile Char.isDigit
  let rest := text.dropWhile Char.isDigit
  let (fraction, rest) := match rest with
    | '.' :: rest => (rest.takeWhile Char.isDigit, rest.dropWhile Char.isDigit)
    | _ => ([], rest)
  let exponent? := match rest with
    | [] => some 0
    | c :: rest => if c = 'e' || c = 'E' then readExponent? rest else none
  match exponent? with
  | none => none
  | some exponent =>
    if whole.isEmpty && fraction.isEmpty then none
    else
      let d := Decimal.ofDigits whole fraction
      some (Decimal.toFloat ⟨d.significand, d.exponent + exponent⟩)

/-- A number without sign, or one of the words `inf`, `infinity` and `nan`. -/
def readMagnitude? (text : List Char) : Option Float :=
  let word := text.map Char.toLower
  if word = "inf".toList || word = "infinity".toList then
    some (Binary64.toFloat Binary64.infinity)
  else if word = "nan".toList then some (0.0 / 0.0)
  else readUnsigned? text

/-- A number with an optional sign. -/
def readNumber? : List Char → Option Float
  | '-' :: text => (readMagnitude? text).map fun x => -x
  | '+' :: text => readMagnitude? text
  | text => readMagnitude? text

end Lox
