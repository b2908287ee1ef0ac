/-!
# Double-precision numbers

The finite numbers of IEEE 754 binary64, as whole numbers of the smallest step `2 ^ -1074`.  A
number is a sign, a significand below `2 ^ 53` and the number of places by which it is shifted;
`canonical` says that the significand is as long as the shift allows, so no magnitude has two
representations and equality of records is equality of bit patterns.

* `scaled` is the exact value in steps; `a.scaled = b.scaled` is numeric equality, under which
  the two zeros agree.
* `ofSteps?` rounds an exact quotient of steps to the nearest double, a half going to the even
  significand, and has no answer where the result would be infinite.  Decimals, integers,
  products and quotients are all rounded by it, once.
-/

namespace JsonShape

/-- The significand and shift of a finite double: below the smallest normal number the shift is
zero, and above it the significand has exactly 53 bits. -/
abbrev Double.Canonical (significand shift : Nat) : Prop :=
  significand < Nat.pow 2 53 ∧ shift ≤ 2045 ∧ (shift ≠ 0 → Nat.pow 2 52 ≤ significand)

/-- A finite double: a sign and `significand * 2 ^ shift` steps of `2 ^ -1074`. -/
structure Double where
  negative : Bool
  significand : Nat
  shift : Nat
  canonical : Double.Canonical significand shift
  deriving DecidableEq

namespace Double

/-- Zero, of either sign. -/
def zero (negative : Bool) : Double := ⟨negative, 0, 0, by decide⟩

/-- The number of steps in one. -/
def one : Nat := Nat.pow 2 1074

/-- The distance from zero, in steps. -/
def magnitude (d : Double) : Nat := d.significand * Nat.pow 2 d.shift

/-- The value, in steps. -/
def scaled (d : Double) : Int := if d.negative then -(d.magnitude : Int) else d.magnitude

/-- The number with the other sign if asked for. -/
def withSign (d : Double) (negative : Bool) : Double := { d with negative := negative }

/-- The double of a significand and a shift, where they are one's. -/
def ofParts? (negative : Bool) (significand shift : Nat) : Option Double :=
  if h : Canonical significand shift then some ⟨negative, significand, shift, h⟩ else none

/-- Division to the nearest whole number, a half going to the even neighbour. -/
def divideNearest (n d : Nat) : Nat :=
  let quotient := n / d
  let rest := n % d
  if 2 * rest < d then quotient
  else if d < 2 * rest then quotient + 1
  else if quotient % 2 = 0 then quotient else quotient + 1

/-- The places that a quotient has beyond 53 bits. -/
def excessBits (n d : Nat) : Nat := (n / d).log2 + 1 - 53

/-- The significand and shift of a quotient of steps, rounded to 53 bits. -/
def roundSteps (n d : Nat) : Nat × Nat :=
  let shift := excessBits n d
  let significand := divideNearest n (d * Nat.pow 2 shift)
  if significand = Nat.pow 2 53 then (Nat.pow 2 52, shift + 1) else (significand, shift)

/-- The double nearest to `n / d` steps. -/
def ofSteps? (negative : Bool) (n d : Nat) : Option Double :=
  ofParts? negative (roundSteps n d).1 (roundSteps n d).2

/-- The double nearest to a fraction. -/
def ofFraction? (negative : Bool) (n d : Nat) : Option Double := ofSteps? negative (n * one) d

/-- The number of decimal digits of a natural number. -/
def decimalLength (n : Nat) : Nat := (Nat.toDigits 10 n).length

/-- The double nearest to `digits * 10 ^ exponent`.  Beyond `10 ^ 310` and below `10 ^ -330` the
answer is plain without the power, which a short text may make as large as it likes. -/
def ofDecimal? (negative : Bool) (digits : Nat) (exponent : Int) : Option Double :=
  if digits = 0 then some (zero negative)
  else if 310 < decimalLength digits + exponent then none
  else if decimalLength digits + exponent < -330 then some (zero negative)
  else if 0 ≤ exponent then ofFraction? negative (digits * Nat.pow 10 exponent.toNat) 1
  else ofFraction? negative digits (Nat.pow 10 (-exponent).toNat)

/-- The exact value of the double nearest to an integer, in steps. -/
def scaledOfInt (n : Int) : Int :=
  let rounded := roundSteps (n.natAbs * one) 1
  let steps := rounded.1 * Nat.pow 2 rounded.2
  if n < 0 then -(steps : Int) else steps

/-- The product of two magnitudes, rounded. -/
def mulMagnitude? (a b : Double) : Option Double :=
  ofSteps? false (a.magnitude * b.magnitude) one

/-- The quotient of two magnitudes, rounded. -/
def divMagnitude? (a b : Double) : Option Double :=
  ofSteps? false (a.magnitude * one) b.magnitude

end Double

end JsonShape
