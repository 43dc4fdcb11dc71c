/-
**The numbers of a JSON document.**

A number is an integer of 64 bits, signed or unsigned, or else a finite binary64 number; an integer
never equals a floating-point number.  A literal is read as an integer when it has neither fraction nor
exponent and is in range; `-0` is the floating-point zero.

Every other literal is scaled: its leading digits are collected in an unsigned 64-bit significand for as
long as they fit, the digits after that only count towards the exponent (in the whole part) or not at
all (in the fraction), and the significand is then multiplied or divided by a power of ten.  Each of
these steps rounds on its own, so the result can differ from the nearest number in its last bits.

Main definitions:

* `Json.Literal` — a number as it is spelled;
* `Json.Number` — a number;
* `Json.Number.ofLiteral?` — the number that a literal stands for, unless it is too large;
* `Json.Number.same` — equality of numbers;
* `Json.Number.text` — the written form.
-/
import GraphDelta.Binary64.Shortest

set_option autoImplicit false

namespace GraphDelta.Json

/-- A number literal: an optional minus sign, the whole part, and the optional fraction and exponent.
The digits are kept as numbers below ten. -/
structure Literal where
  negative : Bool
  whole : List Nat
  fraction : Option (List Nat)
  /-- Whether the exponent is negative, and its digits. -/
  exponent : Option (Bool × List Nat)
deriving DecidableEq

/-- A number: an integer of 64 bits, signed or unsigned, or a finite floating-point number. -/
inductive Number where
  /-- An integer between `-2 ^ 63` and `2 ^ 64 - 1`. -/
  | integer (value : Int) (inRange : -0x8000000000000000 ≤ value ∧ value < 0x10000000000000000)
  | float (value : Binary64)
deriving DecidableEq

namespace Number

/-! ### Equality -/

/-- Equality of numbers: integers and floating-point numbers are never equal, and the two
floating-point zeros are. -/
def same : Number → Number → Bool
  | .integer a _, .integer b _ => a == b
  | .float x, .float y => x.same y
  | _, _ => false

theorem same_refl (a : Number) : a.same a = true := by
  cases a <;> simp [same, Binary64.same_refl]

theorem same_symm {a b : Number} (h : a.same b = true) : b.same a = true := by
  cases a <;> cases b <;> simp_all [same]
  exact Binary64.same_symm h

theorem same_trans {a b c : Number} (h₁ : a.same b = true) (h₂ : b.same c = true) :
    a.same c = true := by
  cases a <;> cases b <;> cases c <;> simp_all [same]
  exact Binary64.same_trans h₁ h₂

/-! ### Written form -/

def text : Number → List Char
  | .integer (.ofNat n) _ => Nat.toDigits 10 n
  | .integer (.negSucc n) _ => '-' :: Nat.toDigits 10 (n + 1)
  | .float x => x.text

/-! ### Reading a literal -/

/-- Collects digits into a significand below `2 ^ 64` for as long as they fit, and counts them. -/
def collect (significand : Nat) : List Nat → Nat × Nat
  | [] => (significand, 0)
  | d :: ds =>
    if significand * 10 + d < 0x10000000000000000 then
      let (s, n) := collect (significand * 10 + d) ds
      (s, n + 1)
    else (significand, 0)

/-- Divides by a power of ten, at most `10 ^ 308` at a time, until nothing is left to divide by or the
number is zero.  The first argument bounds the number of divisions. -/
def divideByPower : Nat → Binary64 → Nat → Option Binary64
  | 0, x, _ => some x
  | tries + 1, x, k =>
    if k ≤ 308 then do x.scaleDown? (← Binary64.powerOfTen? k)
    else if x.isZero then some x
    else do
      divideByPower tries (← x.scaleDown? (← Binary64.powerOfTen? 308)) (k - 308)

/-- The significand times `10 ^ exponent`; `none` where that is too large. -/
def scale? (negative : Bool) (significand : Nat) (exponent : Int) : Option Binary64 := do
  let x ← Binary64.ofNat? negative significand
  match exponent with
  | .ofNat k =>
    if k ≤ 308 then x.scaleUp? (← Binary64.powerOfTen? k)
    else if x.isZero then some x else none
  | .negSucc k => divideByPower (k + 1) x (k + 1)

def ofDigits (ds : List Nat) : Nat := ds.foldl (fun n d => n * 10 + d) 0

/-- Reads an exponent, added to the one that the digits give.  Exponents that do not fit 31 bits make
a number other than zero vanish or grow too large. -/
def scaleBy? (negative : Bool) (significand : Nat) (start : Int) :
    Option (Bool × List Nat) → Option Binary64
  | none => scale? negative significand start
  | some (down, ds) =>
    let e := ofDigits ds
    if e < 0x80000000 then scale? negative significand (if down then start - e else start + e)
    else if significand ≠ 0 ∧ !down then none
    else some (.zero negative)

/-- The number that a literal stands for; `none` where it is too large for a finite number. -/
def ofLiteral? (l : Literal) : Option Number :=
  let (s, n) := collect 0 l.whole
  let surplus := l.whole.length - n
  match l.fraction, l.exponent with
  | none, none =>
    if 0 < surplus then (scale? l.negative s surplus).map .float
    else if l.negative then
      if h : 0 < s ∧ s ≤ 0x8000000000000000 then some (.integer (-s) (by omega))
      else (Binary64.ofNat? true s).map .float
    else if h : s < 0x10000000000000000 then some (.integer s (by omega))
    else none
  | none, some e => (scaleBy? l.negative s surplus (some e)).map .float
  | some ds, e =>
    let (s', n') := collect s ds
    (scaleBy? l.negative s' (surplus - n' : Int) e).map .float

end Number

end GraphDelta.Json
