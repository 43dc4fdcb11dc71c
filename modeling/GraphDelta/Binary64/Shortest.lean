/-
**The shortest decimal text of a binary64 number.**

The reals that round to a given number form an interval around it, ends included exactly when the
significand is even.  Of the decimal grids with one, two, three, … significant digits at the number's
order of magnitude, the first that has a point in that interval fixes the number of digits, and of the
two grid points beside the number the nearer one is taken, on a tie the even one.  Seventeen digits
always suffice.

Main definitions:

* `Binary64.shortestDigits` — the digits and the exponent of the leading one;
* `Binary64.text` — the number as it is written in a document.
-/
import GraphDelta.Binary64

set_option autoImplicit false

namespace GraphDelta.Binary64

/-! ### Orders of magnitude -/

def digitCount (n : Nat) : Nat := (Nat.toDigits 10 n).length

/-- The exponent `k` with `10 ^ k ≤ num / den < 10 ^ (k + 1)`, for a positive quotient. -/
def decimalExponent (num den : Nat) : Int :=
  if den ≤ num then Int.ofNat (digitCount (num / den)) - 1
  else - Int.ofNat (digitCount ((den + num - 1) / num - 1))

/-! ### Rounding interval -/

/-- The interval of the reals that round to a positive number: `low / den` to `high / den` around
`mid / den`, with the ends included where `closed` is set. -/
structure Interval where
  low : Nat
  mid : Nat
  high : Nat
  den : Nat
  /-- Whether the ends belong to the interval. -/
  closed : Bool

/-- The rounding interval of a positive number.  Below a power of two the gap is half as wide. -/
def interval (x : Binary64) : Interval :=
  let m := x.significand
  let unit := 1 <<< x.raisedExponent
  let below := if m = leadingOne ∧ 0 < x.raisedExponent then 1 else 2
  { low := (4 * m - below) * unit, mid := 4 * m * unit, high := (4 * m + 2) * unit,
    den := 4 <<< 1074, closed := m % 2 == 0 }

/-- Whether the point `p / q` lies in the interval. -/
def Interval.contains (i : Interval) (p q : Nat) : Bool :=
  if i.closed then i.low * q ≤ p * i.den && p * i.den ≤ i.high * q
  else i.low * q < p * i.den && p * i.den < i.high * q

/-- The point of the grid of step `10 ^ step` that stands for the number, if one of the two grid points
beside it lies in the interval. -/
def Interval.gridPoint? (i : Interval) (step : Int) : Option Nat :=
  -- the grid point `k` is the quotient `k * up / down`
  let up := Nat.pow 10 step.toNat
  let down := Nat.pow 10 (-step).toNat
  let k := i.mid * down / (i.den * up)
  let twice := 2 * (i.mid * down % (i.den * up))
  let inside (k : Nat) : Bool := i.contains (k * up) down
  let lowerFirst := twice < i.den * up || (twice == i.den * up && k % 2 == 0)
  match inside k, inside (k + 1) with
  | true, true => some (if lowerFirst then k else k + 1)
  | true, false => some k
  | false, true => some (k + 1)
  | false, false => none

/-! ### The digits -/

/-- The first grid point found with `count`, `count + 1`, … digits, and its grid's step. -/
def firstGridPoint (i : Interval) (leading : Int) : Nat → Nat → Nat × Int
  | 0, count => (0, leading - count)
  | tries + 1, count =>
    let step := leading - count + 1
    match i.gridPoint? step with
    | some k => (k, step)
    | none => firstGridPoint i leading tries (count + 1)

/-- The digits of the shortest decimal that reads back as the number, without trailing zeros, and the
exponent of the first digit. -/
def shortestDigits (x : Binary64) : List Char × Int :=
  let i := x.interval
  let (k, step) := firstGridPoint i (decimalExponent i.mid i.den) 17 1
  let digits := Nat.toDigits 10 k
  ((digits.reverse.dropWhile (· == '0')).reverse, step + digits.length - 1)

/-! ### Written form -/

/-- Which decimal exponents of the leading digit are written positionally: from one hundred-thousandth
up to below ten to the sixteenth. -/
def isPositional (exponent : Int) : Bool := -5 ≤ exponent && exponent < 16

/-- Digits around a point, with at least one on each side. -/
def positional (digits : List Char) (exponent : Int) : List Char :=
  if exponent < 0 then
    ['0', '.'] ++ List.replicate (-exponent - 1).toNat '0' ++ digits
  else
    let whole := digits.take (exponent.toNat + 1)
    let fraction := digits.drop (exponent.toNat + 1)
    whole ++ List.replicate (exponent.toNat + 1 - whole.length) '0' ++ ['.'] ++
      (if fraction.isEmpty then ['0'] else fraction)

/-- One digit before the point, no point before an empty fraction, and an exponent that always has a
sign. -/
def scientific (digits : List Char) (exponent : Int) : List Char :=
  let fraction := digits.drop 1
  digits.take 1 ++ (if fraction.isEmpty then [] else '.' :: fraction) ++
    ['e', if exponent < 0 then '-' else '+'] ++ Nat.toDigits 10 exponent.natAbs

/-- The number as it is written in a document; both zeros keep their sign. -/
def text (x : Binary64) : List Char :=
  let body :=
    if x.isZero then ['0', '.', '0']
    else
      let (digits, exponent) := x.shortestDigits
      if isPositional exponent then positional digits exponent else scientific digits exponent
  if x.negative then '-' :: body else body

end GraphDelta.Binary64
