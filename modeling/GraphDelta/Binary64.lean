/-
**Finite binary64 numbers, in exact arithmetic.**

A finite binary64 number is a sign and a magnitude pattern below the pattern of infinity.  The
pattern of a positive number counts the positive numbers up to it, so patterns are ordered as the
numbers they stand for.  Every operation here computes the exact quotient of two natural numbers
and rounds it once, to the nearest number and on a tie to the even pattern; `none` stands for a
result too large to be finite.

Main definitions:

* `Binary64` — a finite number;
* `Binary64.significand`, `Binary64.exponent` — the number is `significand * 2 ^ exponent`, up to
  its sign;
* `Binary64.ratio` — its magnitude as a quotient;
* `Binary64.roundRatio` — the number nearest a quotient;
* `Binary64.same` — equality of numbers, which takes the two zeros for one.
-/

set_option autoImplicit false

namespace GraphDelta

namespace Binary64

/-- The weight of the leading one of a significand that has one: `2 ^ 52`. -/
def leadingOne : Nat := 0x10000000000000

/-- The pattern of infinity: eleven ones above the significand. -/
def infinity : Nat := 0x7ff0000000000000

end Binary64

/-- A finite binary64 number. -/
structure Binary64 where
  negative : Bool
  /-- Exponent and fraction fields, read as one natural number. -/
  magnitude : Nat
  finite : magnitude < Binary64.infinity
deriving DecidableEq

namespace Binary64

/-! ### Reading the pattern -/

def zero (negative : Bool) : Binary64 := ⟨negative, 0, by decide⟩

def isZero (x : Binary64) : Bool := x.magnitude == 0

/-- The integer significand: below `2 ^ 52` the number is subnormal and has no leading one. -/
def significand (x : Binary64) : Nat :=
  if x.magnitude < leadingOne then x.magnitude else leadingOne + x.magnitude % leadingOne

/-- The power of two that the significand counts, raised by 1074 so that it is a natural number. -/
def raisedExponent (x : Binary64) : Nat := x.magnitude / leadingOne - 1

/-- The magnitude as numerator and denominator. -/
def ratio (x : Binary64) : Nat × Nat := (x.significand <<< x.raisedExponent, 1 <<< 1074)

/-- Equality of the numbers: the two zeros are one number. -/
def same (x y : Binary64) : Bool :=
  x.magnitude == y.magnitude && (x.negative == y.negative || x.magnitude == 0)

theorem same_refl (x : Binary64) : x.same x = true := by simp [same]

theorem same_symm {x y : Binary64} (h : x.same y = true) : y.same x = true := by
  simp only [same, Bool.and_eq_true, Bool.or_eq_true, beq_iff_eq] at h ⊢
  exact ⟨h.1.symm, h.2.imp Eq.symm fun h' => h.1 ▸ h'⟩

theorem same_trans {x y z : Binary64} (h₁ : x.same y = true) (h₂ : y.same z = true) :
    x.same z = true := by
  simp only [same, Bool.and_eq_true, Bool.or_eq_true, beq_iff_eq] at h₁ h₂ ⊢
  refine ⟨h₁.1.trans h₂.1, ?_⟩
  rcases h₁.2 with h | h
  · exact h₂.2.imp h.trans fun h' => h₁.1.trans h'
  · exact .inr h

/-! ### Rounding -/

/-- The quotient rounded to the nearest natural number, a half to the even one. -/
def roundHalfEven (num den : Nat) : Nat :=
  let q := num / den
  let twice := 2 * (num % den)
  if twice < den then q else if den < twice then q + 1 else q + q % 2

/-- The exponent, raised by 1074, of the binade that holds the quotient; the subnormal numbers share
the lowest one. -/
def raisedBinade (num den : Nat) : Nat :=
  -- `2 ^ 52 ≤ num * 2 ^ 1074 / (den * 2 ^ e) < 2 ^ 53` for the exponent `e` that is sought
  (num <<< 1074 / den).log2 - 52

/-- The number nearest `num / den`; `none` where that is no finite number. -/
def roundRatio (negative : Bool) (num den : Nat) : Option Binary64 :=
  let e := raisedBinade num den
  let m := roundHalfEven (num <<< 1074) (den <<< e)
  let magnitude := e * leadingOne + m
  if h : magnitude < infinity then some ⟨negative, magnitude, h⟩ else none

def ofNat? (negative : Bool) (n : Nat) : Option Binary64 := roundRatio negative n 1

/-- The product, with the sign of the first factor. -/
def scaleUp? (x y : Binary64) : Option Binary64 :=
  let (a, b) := x.ratio
  let (c, d) := y.ratio
  roundRatio x.negative (a * c) (b * d)

/-- The quotient, with the sign of the first number; the second is not zero. -/
def scaleDown? (x y : Binary64) : Option Binary64 :=
  let (a, b) := x.ratio
  let (c, d) := y.ratio
  roundRatio x.negative (a * d) (b * c)

def powerOfTen? (k : Nat) : Option Binary64 := roundRatio false (Nat.pow 10 k) 1

end Binary64

end GraphDelta
