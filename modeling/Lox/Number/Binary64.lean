import Lox.Number.Power

/-!
# Double-precision numbers on a decimal scale

A non-negative double-precision number is fixed by its *magnitude*: its bit
pattern without the sign, read as a natural number.  Magnitudes grow with the
numbers they stand for, and `units` measures each finite one exactly, in units of
2 to the power -1074.

**Nearest.** `nearest num den` is the magnitude closest to the quotient of `num`
and `den`; a quotient halfway between two magnitudes goes to the even one, and one
that is too large goes to infinity.
-/

namespace Lox

namespace Binary64

/-- Binary places of the unit in which magnitudes are measured. -/
def places : Nat := 1074

/-- The magnitude of infinity; all smaller ones are finite, all larger ones are
not numbers. -/
def infinity : Nat := 0x7FF0000000000000

/-- Doublings of the unit that the last bit of a magnitude is worth. -/
def binade (magnitude : Nat) : Nat := magnitude / twoPow 52 - 1

/-- Size of a magnitude in units of 2 to the power `-places`. -/
def units (magnitude : Nat) : Nat :=
  (magnitude - binade magnitude * twoPow 52) * twoPow (binade magnitude)

/-- The quotient rounded to a whole number; a half goes to the even neighbour. -/
def roundHalfEven (num den : Nat) : Nat :=
  let quotient := num / den
  let twice := 2 * (num % den)
  if den < twice ∨ (twice = den ∧ quotient % 2 = 1) then quotient + 1 else quotient

/-- The magnitude nearest to the quotient of `num` and `den`. -/
def nearest (num den : Nat) : Nat :=
  let scaled := num * twoPow places
  let doublings := (scaled / den).log2 - 52
  min infinity (doublings * twoPow 52 + roundHalfEven scaled (den * twoPow doublings))

/-- The number of a magnitude. -/
def toFloat (magnitude : Nat) : Float :=
  Float.ofBits (UInt64.ofNat magnitude)

/-- The bit pattern of a number. -/
def bits (x : Float) : Nat := x.toBits.toNat

/-- The bit pattern without the sign. -/
def magnitude (x : Float) : Nat := bits x % twoPow 63

/-- The sign bit is set. -/
def isNegative (x : Float) : Bool := decide (twoPow 63 ≤ bits x)

/-- The number nearest to the quotient of two natural numbers. -/
def ofQuotient (num den : Nat) : Float := toFloat (nearest num den)

/-- The number nearest to a whole number. -/
def ofInt : Int → Float
  | .ofNat n => ofQuotient n 1
  | .negSucc n => -ofQuotient (n + 1) 1

end Binary64

end Lox
