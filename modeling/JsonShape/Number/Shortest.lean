import JsonShape.Number.Double

/-!
# Shortest decimals

The decimal with the fewest digits that reads back as a given double, and of those the one
nearest to it; a tie goes to the even digit.

The numbers that read back as a double form an interval around it, ends included when its
significand is even.  `pick` looks for a multiple of one power of ten inside: only the two
neighbours of the value can be the nearest.  `search` tries the powers from the largest that can
matter down to `10 ^ -324`, which is finer than every interval.
-/

namespace JsonShape

/-- A decimal: `digits * 10 ^ exponent`. -/
structure Decimal where
  digits : Nat
  exponent : Int
  deriving DecidableEq, Repr

namespace Shortest

/-- A value between two bounds, all counted in one unit. -/
structure Interval where
  lower : Nat
  value : Nat
  upper : Nat
  closed : Bool
  deriving DecidableEq, Repr

/-- Membership; the ends count in a closed interval. -/
def Interval.contains (interval : Interval) (x : Nat) : Bool :=
  if interval.closed then decide (interval.lower ≤ x ∧ x ≤ interval.upper)
  else decide (interval.lower < x ∧ x < interval.upper)

/-- The multiple of `grid` in an interval that is nearest to its value, as a multiplier. -/
def Interval.pick (interval : Interval) (grid : Nat) : Option Nat :=
  let below := interval.value / grid
  let above := below + 1
  if interval.contains (below * grid) then
    if interval.contains (above * grid) then
      let down := interval.value - below * grid
      let up := above * grid - interval.value
      some (if down < up ∨ down = up ∧ below % 2 = 0 then below else above)
    else some below
  else if interval.contains (above * grid) then some above
  else none

/-- The first power of ten, from `10 ^ power` units downwards, with a multiple inside. -/
def search (interval : Interval) (unit : Nat) : Nat → Nat × Nat
  | 0 => ((interval.pick unit).getD (interval.value / unit), 0)
  | power + 1 =>
    match interval.pick (Nat.pow 10 (power + 1) * unit) with
    | some multiplier => (multiplier, power + 1)
    | none => search interval unit power

/-- The finest power of ten that is tried is `10 ^ -324`. -/
def finest : Nat := 324

/-- A quarter of a step in units of `10 ^ -324` quarters: the interval of a double has its ends
at halves of a step, or at a quarter below a power of two. -/
def unit : Nat := 4 * Double.one

/-- The numbers that are nearer to a double than to its neighbours. -/
def intervalOf (d : Double) : Interval :=
  let step := Nat.pow 2 d.shift
  let below := if d.significand = Nat.pow 2 52 ∧ d.shift ≠ 0 then step else 2 * step
  { lower := (4 * d.magnitude - below) * Nat.pow 10 finest
    value := 4 * d.magnitude * Nat.pow 10 finest
    upper := (4 * d.magnitude + 2 * step) * Nat.pow 10 finest
    closed := d.significand % 2 = 0 }

end Shortest

/-- The shortest decimal that reads back as a double's magnitude, nearest of its length. -/
def Double.shortest (d : Double) : Decimal :=
  if d.significand = 0 then ⟨0, 0⟩
  else
    let interval := Shortest.intervalOf d
    let found := Shortest.search interval Shortest.unit
      (Double.decimalLength (interval.value / Shortest.unit))
    ⟨found.1, (found.2 : Int) - Shortest.finest⟩

end JsonShape
