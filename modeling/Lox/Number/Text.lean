import Lox.Number.Shortest

/-!
# Numbers as text

A number is written with the digits of its shortest decimal.  What else is
written is the decision of a *style*: whether an exponent may stand in the text,
whether a whole number keeps a point, how the exponent's sign is written and what
stands for the values that are no finite numbers.

**Three styles.** `NumberStyle.plain` never uses an exponent and writes whole numbers
without a point; `NumberStyle.literal` shows the value of a number token; `NumberStyle.json`
is used in JSON documents.
-/

namespace Lox

/-- Decisions of a number format. -/
structure NumberStyle where
  /-- Choice between two equally close shortest decimals. -/
  tie : Decimal.Tie
  /-- Least and greatest power of ten of the first digit for which no exponent is
  written; none stands for all powers. -/
  positional : Option (Int × Int)
  /-- A whole number ends in a point and a zero. -/
  keepsPoint : Bool
  /-- An exponent above zero has a plus sign. -/
  plusSign : Bool
  /-- Text of positive infinity. -/
  infinity : String
  /-- Text of negative infinity. -/
  negativeInfinity : String
  /-- Text of what is not a number. -/
  nan : String

namespace NumberStyle

/-- Plain decimals without exponent; whole numbers have no point. -/
def plain : NumberStyle where
  tie := .up
  positional := none
  keepsPoint := false
  plusSign := false
  infinity := "inf"
  negativeInfinity := "-inf"
  nan := "NaN"

/-- Always a point or an exponent; exponents from 16 upward and below -4. -/
def literal : NumberStyle where
  tie := .up
  positional := some (-4, 15)
  keepsPoint := true
  plusSign := false
  infinity := "inf"
  negativeInfinity := "-inf"
  nan := "NaN"

/-- Always a point or an exponent with a sign; exponents from 16 upward and below
-5.  What is no finite number is written as the null value. -/
def json : NumberStyle where
  tie := .even
  positional := some (-5, 15)
  keepsPoint := true
  plusSign := true
  infinity := "null"
  negativeInfinity := "null"
  nan := "null"

/-- A decimal is written without exponent. -/
def isPositional (style : NumberStyle) (leading : Int) : Bool :=
  match style.positional with
  | none => true
  | some (least, greatest) => least ≤ leading && leading ≤ greatest

/-- The end of a whole number. -/
def wholeEnd (style : NumberStyle) : List Char :=
  if style.keepsPoint then ['.', '0'] else []

/-- Digits with the point in place. -/
def layPositional (style : NumberStyle) (digits : List Char) (exponent : Int) : List Char :=
  if 0 ≤ exponent then
    digits ++ List.replicate exponent.toNat '0' ++ style.wholeEnd
  else
    let fraction := (-exponent).toNat
    if fraction < digits.length then
      digits.take (digits.length - fraction) ++ '.' ::
        digits.drop (digits.length - fraction)
    else
      '0' :: '.' :: List.replicate (fraction - digits.length) '0' ++ digits

/-- Digits with a point after the first one, and an exponent. -/
def layScientific (style : NumberStyle) (digits : List Char) (leading : Int) : List Char :=
  let mantissa := match digits with
    | [] => []
    | [d] => [d]
    | d :: ds => d :: '.' :: ds
  let sign := if leading < 0 then ['-'] else if style.plusSign then ['+'] else []
  mantissa ++ 'e' :: sign ++ Nat.toDigits 10 leading.natAbs

/-- A decimal above zero as text. -/
def lay (style : NumberStyle) (d : Decimal) : List Char :=
  let digits := Nat.toDigits 10 d.significand
  let leading := d.exponent + digits.length - 1
  if style.isPositional leading then style.layPositional digits d.exponent
  else style.layScientific digits leading

/-- A finite magnitude as text. -/
def layMagnitude (style : NumberStyle) (magnitude : Nat) : List Char :=
  if magnitude = 0 then '0' :: style.wholeEnd
  else style.lay (Decimal.shortest style.tie magnitude)

/-- A number as text. -/
def format (style : NumberStyle) (x : Float) : String :=
  let magnitude := Binary64.magnitude x
  if Binary64.infinity < magnitude then style.nan
  else if magnitude = Binary64.infinity then
    if Binary64.isNegative x then style.negativeInfinity else style.infinity
  else
    let text := style.layMagnitude magnitude
    String.ofList (if Binary64.isNegative x then '-' :: text else text)

end NumberStyle

/-- A magnitude that is a whole number below ten to the power 15, as that number.
Its shortest decimal, padded with zeros, has the same digits. -/
def wholeMagnitude? (magnitude : Nat) : Option Nat :=
  let units := Binary64.units magnitude
  let whole := units / twoPow Binary64.places
  if units % twoPow Binary64.places = 0 && whole < tenPow 15 then some whole else none

/-- The text of a number as a value of the language: plain decimals, with a short
way for whole numbers. -/
def showNumber (x : Float) : String :=
  if Binary64.magnitude x < Binary64.infinity then
    match wholeMagnitude? (Binary64.magnitude x) with
    | some whole =>
      let digits := Nat.toDigits 10 whole
      String.ofList (if Binary64.isNegative x then '-' :: digits else digits)
    | none => NumberStyle.plain.format x
  else NumberStyle.plain.format x

end Lox
