import JsonShape.Number.Numeral

/-!
# Readings of numerals

A numeral is read in two ways.

* `Numeral.nearest?` is the reading of definitions: integers are exact or refused, all other
  numerals become the nearest double, and one beyond every double is refused.
* `Numeral.stepwise?` is the reading of documents.  It collects digits while they fit in 64 bits
  and then multiplies or divides by powers of ten, rounding at every step, so its double may
  differ from the nearest one; an integer beyond 64 bits becomes a double.
-/

namespace JsonShape

namespace Numeral

/-- A numeral without fraction and exponent. -/
def isInteger (n : Numeral) : Bool := n.fraction.isEmpty && n.exponent.isNone

/-- Whether a numeral stops right before a point or an exponent that lacks its digits. -/
def isCutShort (n : Numeral) (rest : List Char) : Bool :=
  (n.isInteger && rest.head? == some '.')
    || (n.exponent.isNone && (rest.head? == some 'e' || rest.head? == some 'E'))

/-- The number of a numeral in a definition. -/
def nearest? (n : Numeral) : Option Number :=
  if n.isInteger then Number.ofInt? (signedValue n.negative n.whole)
  else
    (Double.ofDecimal? n.negative (digitsValue (n.whole ++ n.fraction))
      (n.exponent.getD 0 - n.fraction.length)).map .double

/-- Digits appended to a significand while it stays below `2 ^ 64`, and the digits left over. -/
def collect (significand : Nat) : List Char → Nat × List Char
  | [] => (significand, [])
  | c :: rest =>
    let next := 10 * significand + digitValue c
    if next < Nat.pow 2 64 then collect next rest else (significand, c :: rest)

/-- The double nearest to a power of ten; there is one up to `10 ^ 308`. -/
def powerOfTen (power : Nat) : Double :=
  (Double.ofFraction? false (Nat.pow 10 power) 1).getD (Double.zero false)

/-- A magnitude times a power of ten, where the product is finite. -/
def scaleUp? (d : Double) (power : Nat) : Option Double :=
  if power ≤ 308 then Double.mulMagnitude? d (powerOfTen power)
  else if d.significand = 0 then some d
  else none

/-- A magnitude divided by a power of ten, in steps of at most `10 ^ 308`. -/
def scaleDown? (d : Double) (power : Nat) : Option Double :=
  if power ≤ 308 then Double.divMagnitude? d (powerOfTen power)
  else if d.significand = 0 then some d
  else (Double.divMagnitude? d (powerOfTen 308)).bind fun smaller =>
    scaleDown? smaller (power - 308)
termination_by power
decreasing_by omega

/-- The double of a 64-bit significand and a power of ten, rounded at every step. -/
def fromParts? (negative : Bool) (significand : Nat) (exponent : Int) : Option Double :=
  (Double.ofFraction? false significand 1).bind fun d =>
    ((if 0 ≤ exponent then scaleUp? d exponent.toNat else scaleDown? d (-exponent).toNat).map
      (·.withSign negative))

/-- The number of a numeral in a document. -/
def stepwise? (n : Numeral) : Option Number :=
  let whole := collect 0 n.whole
  if n.isInteger ∧ whole.2 = [] ∧ ¬(n.negative ∧ (whole.1 = 0 ∨ Nat.pow 2 63 < whole.1)) then
    Number.ofInt? (if n.negative then -(whole.1 : Int) else whole.1)
  else
    let both := collect whole.1 n.fraction
    let kept : Int := (n.fraction.length : Int) - both.2.length
    (fromParts? n.negative both.1 (n.exponent.getD 0 + whole.2.length - kept)).map .double

end Numeral

end JsonShape
