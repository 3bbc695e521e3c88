/-!
# Finite doubles

A finite double is a sign and the place of its magnitude among all magnitudes
in ascending order, zero first.  The place is also the magnitude's bit pattern,
so comparing magnitudes is comparing places.  All arithmetic is exact on
natural numbers and rounds once, ties to the even neighbour.
-/

namespace Workflow

/-- The number of fractions between two neighbouring powers of two. -/
def Double.fractions : Nat := Nat.pow 2 52

/-- The number of finite magnitudes. -/
def Double.magnitudes : Nat := 2047 * Double.fractions

/-- The least positive magnitude is one part in `Double.resolution`. -/
def Double.resolution : Nat := Nat.pow 2 1074

/-- A finite binary floating-point number of 64 bits. -/
structure Double where
  /-- The sign; zero has one too. -/
  negative : Bool
  /-- The place of the magnitude among all magnitudes, from zero upwards. -/
  place : Nat
  /-- There are only finitely many magnitudes. -/
  finite : place < Double.magnitudes
  deriving DecidableEq

namespace Double

/-- Zero with either sign. -/
def zero (negative : Bool) : Double :=
  ⟨negative, 0, by decide⟩

instance : Inhabited Double := ⟨zero false⟩

/-- Whether the number is one of the two zeros. -/
def isZero (d : Double) : Bool :=
  d.place == 0

/-- The significand of the magnitude, at most 53 bits long. -/
def significand (d : Double) : Nat :=
  if d.place < fractions then d.place else fractions + d.place % fractions

/-- How often the significand is doubled to give the magnitude in units of
the resolution. -/
def doublings (d : Double) : Nat :=
  d.place / fractions - 1

/-- The magnitude in units of the resolution. -/
def units (d : Double) : Nat :=
  d.significand * Nat.pow 2 d.doublings

/-- The nearest whole number to a quotient; a tie goes to the even one. -/
def roundQuotient (numerator denominator : Nat) : Nat :=
  let quotient := numerator / denominator
  let excess := 2 * (numerator % denominator)
  if excess < denominator then quotient
  else if denominator < excess then quotient + 1
  else quotient + quotient % 2

/-- The place of the magnitude nearest to a quotient.  The place after the
last one stands for every quotient beyond the finite range. -/
def nearestPlace (numerator denominator : Nat) : Nat :=
  let scaled := numerator * resolution
  let doublings := Nat.log2 (scaled / denominator) - 52
  doublings * fractions + roundQuotient scaled (denominator * Nat.pow 2 doublings)

/-- The double nearest to a quotient with a sign, or nothing when the
quotient lies beyond the finite range. -/
def ofQuotient? (negative : Bool) (numerator denominator : Nat) : Option Double :=
  let place := nearestPlace numerator denominator
  if finite : place < magnitudes then some ⟨negative, place, finite⟩ else none

/-- The double nearest to a whole number. -/
def ofInt? (value : Int) : Option Double :=
  ofQuotient? (value < 0) value.natAbs 1

/-- The product of two doubles, rounded. -/
def mul? (a b : Double) : Option Double :=
  ofQuotient? (a.negative != b.negative) (a.units * b.units) (resolution * resolution)

/-- The quotient of two doubles, rounded; the divisor is not zero. -/
def div? (a b : Double) : Option Double :=
  ofQuotient? (a.negative != b.negative) a.units b.units

/-- The double nearest to a power of ten. -/
def powerOfTen? (exponent : Nat) : Option Double :=
  ofQuotient? false (Nat.pow 10 exponent) 1

/-- The greatest power of ten that a double can be near to. -/
def greatestPower : Nat := 308

/-- A whole significand times a power of ten in double arithmetic: the
significand is rounded, then multiplied or divided by rounded powers of ten.
A result beyond the finite range is refused, one below the least magnitude
is zero. -/
def scaled? (negative : Bool) (significand : Nat) (exponent : Int) : Option Double := do
  let base ← ofQuotient? negative significand 1
  if base.isZero then
    some base
  else if 0 ≤ exponent then
    if exponent.toNat ≤ greatestPower then
      base.mul? (← powerOfTen? exponent.toNat)
    else
      none
  else
    let divisions := exponent.natAbs
    if divisions ≤ greatestPower then
      base.div? (← powerOfTen? divisions)
    else if divisions ≤ 2 * greatestPower then
      let reduced ← base.div? (← powerOfTen? greatestPower)
      reduced.div? (← powerOfTen? (divisions - greatestPower))
    else
      some (zero negative)

/-- The place with its sign; the two zeros fall together. -/
def signedPlace (d : Double) : Int :=
  if d.negative then -(d.place : Int) else d.place

/-- Equality of values: unlike `=`, it does not tell the two zeros apart. -/
def same (a b : Double) : Bool :=
  a.signedPlace == b.signedPlace

/-- The order of values. -/
def less (a b : Double) : Bool :=
  a.signedPlace < b.signedPlace

/-- Whether the number has no fractional part. -/
def isWhole (d : Double) : Bool :=
  d.units % resolution == 0

end Double

end Workflow
