import Workflow.Double.Basic

/-!
# Shortest decimal texts of doubles

A double is written with the fewest decimal digits that read back as the same
double, and of those the nearest.  `Layout` holds what remains to be chosen:
when the point is written in place, what follows a whole number, and which of
two equally near digits is taken.
-/

namespace Workflow.Double

/-- What happens when two decimals of the fewest digits are equally near. -/
inductive Tie where
  | toEven
  | upward
  deriving DecidableEq

/-- The choices of a decimal text that the digits leave open. -/
structure Layout where
  /-- Whether a number with this scientific exponent has its point written
  in place rather than an exponent. -/
  inPlace : Int → Bool
  /-- What follows the digits of a whole number written in place. -/
  wholeEnding : String
  /-- Which of two equally near decimals is written. -/
  tie : Tie

/-- A positive decimal: its digits and the number of them that stand before
the point, which is negative when zeros follow the point first. -/
structure Decimal where
  digits : List Char
  point : Int
  deriving DecidableEq

/-- The interval of magnitudes that round to a double, in quarters of the
resolution; its ends belong to it when the significand is even. -/
structure Interval where
  low : Nat
  middle : Nat
  high : Nat
  closed : Bool

/-- The interval around a double.  Below a power of two the spacing halves. -/
def interval (d : Double) : Interval :=
  let spacing := Nat.pow 2 d.doublings
  let below := if d.significand = fractions ∧ 0 < d.doublings then spacing else 2 * spacing
  { low := 4 * d.units - below
    middle := 4 * d.units
    high := 4 * d.units + 2 * spacing
    closed := d.significand % 2 == 0 }

/-- Whether a quotient of quarters lies in the interval. -/
def Interval.contains (i : Interval) (numerator denominator : Nat) : Bool :=
  if i.closed then
    i.low * denominator ≤ numerator && numerator ≤ i.high * denominator
  else
    i.low * denominator < numerator && numerator < i.high * denominator

/-- The multiple of a decimal step nearest to the middle of an interval among
those inside it, where the step is a quotient of quarters. -/
def Interval.nearest? (i : Interval) (tie : Tie) (numerator denominator : Nat) : Option Nat :=
  let count := i.middle * denominator / numerator
  let below := i.contains (count * numerator) denominator
  let above := i.contains ((count + 1) * numerator) denominator
  let distance := 2 * (i.middle * denominator - count * numerator)
  match below, above with
  | false, false => none
  | true, false => some count
  | false, true => some (count + 1)
  | true, true =>
      if distance < numerator then some count
      else if numerator < distance then some (count + 1)
      else match tie with
        | .toEven => some (count + count % 2)
        | .upward => some (count + 1)

/-- A decimal unit `10 ^ exponent` as a quotient of quarters. -/
def decimalStep (exponent : Int) : Nat × Nat :=
  if 0 ≤ exponent then
    (4 * resolution * Nat.pow 10 exponent.toNat, 1)
  else
    (4 * resolution, Nat.pow 10 exponent.natAbs)

/-- How many digits of a positive double stand before the point. -/
def pointPlace (d : Double) : Int :=
  ((Nat.toDigits 10 (d.units * Nat.pow 10 400 / resolution)).length : Int) - 400

/-- The first decimal inside the interval when the number of digits grows
from `count`; the search tries `tries` counts. -/
def searchDigits (i : Interval) (tie : Tie) (point : Int) : Nat → Nat → Option (Nat × Int)
  | 0, _ => none
  | tries + 1, count =>
      let exponent := point - count
      let step := decimalStep exponent
      match i.nearest? tie step.1 step.2 with
      | some value => some (value, exponent)
      | none => searchDigits i tie point tries (count + 1)

/-- The fewest digits that name a positive double, without zeros at the end.
Seventeen digits always suffice. -/
def shortest (tie : Tie) (d : Double) : Decimal :=
  match searchDigits d.interval tie d.pointPlace 17 1 with
  | none => ⟨['0'], 1⟩
  | some (value, exponent) =>
      let digits := Nat.toDigits 10 value
      let significant := (digits.reverse.dropWhile (· == '0')).reverse
      ⟨significant, exponent + digits.length⟩

/-- The digits with the point written in place. -/
def Decimal.inPlaceText (ending : String) (decimal : Decimal) : List Char :=
  if decimal.point ≤ 0 then
    '0' :: '.' :: (List.replicate decimal.point.natAbs '0' ++ decimal.digits)
  else
    let before := decimal.point.toNat
    let whole := decimal.digits.take before
    let fraction := decimal.digits.drop before
    let padding := List.replicate (before - decimal.digits.length) '0'
    if fraction.isEmpty then
      whole ++ padding ++ ending.toList
    else
      whole ++ '.' :: fraction

/-- The digits with the point after the first one and a signed exponent. -/
def Decimal.scientificText (decimal : Decimal) : List Char :=
  let exponent := decimal.point - 1
  let sign := if exponent < 0 then '-' else '+'
  let tail := 'e' :: sign :: Nat.toDigits 10 exponent.natAbs
  match decimal.digits with
  | [] => tail
  | [digit] => digit :: tail
  | digit :: fraction => digit :: '.' :: (fraction ++ tail)

/-- The text of a magnitude. -/
def Layout.magnitudeText (layout : Layout) (d : Double) : List Char :=
  if d.isZero then
    '0' :: layout.wholeEnding.toList
  else
    let decimal := d.shortest layout.tie
    if layout.inPlace (decimal.point - 1) then
      decimal.inPlaceText layout.wholeEnding
    else
      decimal.scientificText

/-- The text of a double. -/
def Layout.text (layout : Layout) (d : Double) : List Char :=
  if d.negative then '-' :: layout.magnitudeText d else layout.magnitudeText d

end Workflow.Double
