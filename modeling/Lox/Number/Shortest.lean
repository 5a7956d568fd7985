import Lox.Number.Binary64

/-!
# Shortest decimals

A decimal *reads back* to a finite non-zero number if it lies in that number's
rounding interval: the decimals that are nearer to it than to any other number,
with both ends if its magnitude is even.  `shortest` is the decimal that reads
back and has the fewest significant digits; of two with equally many digits, the
one closer to the number, and of two equally close ones the one that the `Tie`
asks for.

**Search.** On the grid of decimals with a given number of digits only the two
neighbours of the number can be in the interval if any grid point is, so these two
are tried for one digit, two digits, and so on.  Seventeen digits always suffice;
should the search end without an answer, the number's exact expansion stands in.
-/

namespace Lox

/-- The decimal `significand` times ten to the power `exponent`. -/
structure Decimal where
  /-- Whole number made of the digits. -/
  significand : Nat
  /-- Power of ten. -/
  exponent : Int
  deriving DecidableEq, Repr

namespace Decimal

/-- Numerator of the decimal as a fraction. -/
def num (d : Decimal) : Nat := d.significand * tenPow d.exponent.toNat

/-- Denominator of the decimal as a fraction. -/
def den (d : Decimal) : Nat := tenPow (-d.exponent).toNat

/-- The magnitude nearest to the decimal. -/
def magnitude (d : Decimal) : Nat := Binary64.nearest d.num d.den

/-- What to do with a number halfway between two shortest decimals. -/
inductive Tie where
  /-- Take the larger decimal. -/
  | up
  /-- Take the decimal with the even last digit. -/
  | even
  deriving DecidableEq, Repr

/-- The numbers nearer to a magnitude than to any other, in half units of 2 to the
power `-Binary64.places`. -/
structure Interval where
  /-- The lower end. -/
  low : Nat
  /-- The upper end. -/
  high : Nat
  /-- The ends belong to the interval. -/
  closed : Bool

/-- The rounding interval of a finite magnitude above zero. -/
def Interval.around (magnitude : Nat) : Interval :=
  let exact := Binary64.units magnitude
  ⟨Binary64.units (magnitude - 1) + exact, exact + Binary64.units (magnitude + 1),
    magnitude % 2 = 0⟩

/-- A decimal lies in an interval. -/
def Interval.contains (interval : Interval) (d : Decimal) : Bool :=
  let den := d.den
  let low := interval.low * den
  let high := interval.high * den
  let twice := d.num * twoPow (Binary64.places + 1)
  if interval.closed then low ≤ twice && twice ≤ high else low < twice && twice < high

/-- The decimal lies in the rounding interval of a finite magnitude above zero. -/
def readsBack (d : Decimal) (magnitude : Nat) : Bool :=
  (Interval.around magnitude).contains d

/-- Zeros between the point and the first significant digit, plus one, of a
number of units below one. -/
def leadingPlaces (units : Nat) : Nat → Nat → Nat
  | 0, j => j
  | fuel + 1, j =>
    if twoPow Binary64.places ≤ units * tenPow j then j
    else leadingPlaces units fuel (j + 1)

/-- Power of ten of the first significant digit of a number of units. -/
def leadingExponent (units : Nat) : Int :=
  let whole := units / twoPow Binary64.places
  if whole = 0 then -(leadingPlaces units 330 1 : Int)
  else ((Nat.toDigits 10 whole).length : Int) - 1

/-- The decimal above `d` on the grid of `digits` digits. -/
def above (d : Decimal) (digits : Nat) : Decimal :=
  if d.significand + 1 = tenPow digits then ⟨1, d.exponent + digits⟩
  else ⟨d.significand + 1, d.exponent⟩

/-- The decimal of the given number of digits that lies in an interval around a
number of units and is closest to it. -/
def withDigits? (tie : Tie) (interval : Interval) (units : Nat) (leading : Int)
    (digits : Nat) : Option Decimal :=
  let exponent := leading - digits + 1
  let scaled := units * tenPow (-exponent).toNat
  let unit := twoPow Binary64.places * tenPow exponent.toNat
  let below : Decimal := ⟨scaled / unit, exponent⟩
  let above := below.above digits
  let twice := 2 * (scaled % unit)
  match interval.contains below, interval.contains above with
  | false, false => none
  | true, false => some below
  | false, true => some above
  | true, true =>
    if twice < unit then some below
    else if unit < twice then some above
    else match tie with
      | .up => some above
      | .even => if below.significand % 2 = 0 then some below else some above

/-- The exact decimal expansion of a finite magnitude. -/
def exact (magnitude : Nat) : Decimal :=
  ⟨Binary64.units magnitude * Nat.pow 5 Binary64.places, -(Binary64.places : Int)⟩

/-- The shortest decimal that reads back to a finite magnitude above zero. -/
def shortest (tie : Tie) (magnitude : Nat) : Decimal :=
  let units := Binary64.units magnitude
  let interval := Interval.around magnitude
  let leading := leadingExponent units
  ((List.range 17).findSome? fun n =>
    withDigits? tie interval units leading (n + 1)).getD (exact magnitude)

end Decimal

end Lox
