import JsonShape.Proofs.Number.Numeral
import JsonShape.Proofs.Number.Rounding

/-!
# Shortest decimals read back

The decimal of a double is rounded to that double again.

* `Shortest.Interval.pick_contains` and `Shortest.search_contains`: what is found lies inside.
* `Shortest.exists_pick_unit`: the finest grid has a point in every interval, so something is
  found.
* `Shortest.rounds_of_contains`: the interval of a double holds only what is rounded to it.
* `Double.ofDecimal?_shortest` is the read-back.
-/

namespace JsonShape

namespace Shortest

/-! ## Points of a grid -/

theorem Interval.contains_iff {interval : Interval} {x : Nat} :
    interval.contains x = true ↔ interval.lower ≤ x ∧ x ≤ interval.upper
      ∧ (interval.lower = x ∨ x = interval.upper → interval.closed = true) := by
  unfold Interval.contains
  cases interval.closed
  · simp
    omega
  · simp

theorem Interval.pick_contains {interval : Interval} {grid multiplier : Nat}
    (picked : interval.pick grid = some multiplier) :
    interval.contains (multiplier * grid) = true := by
  unfold Interval.pick at picked
  dsimp only at picked
  split at picked
  · rename_i below
    split at picked
    · rename_i above
      cases picked
      split
      · exact below
      · exact above
    · cases picked
      exact below
  · split at picked
    · rename_i above
      cases picked
      exact above
    · cases picked

theorem search_contains {interval : Interval} {unit : Nat}
    (found : ∃ multiplier, interval.pick unit = some multiplier) (power : Nat) :
    interval.contains ((search interval unit power).1
      * (10 ^ (search interval unit power).2 * unit)) = true := by
  induction power with
  | zero =>
    obtain ⟨multiplier, picked⟩ := found
    simp only [search, picked, Option.getD_some, Nat.pow_zero, Nat.one_mul]
    exact Interval.pick_contains picked
  | succ power ih =>
    unfold search
    split
    · rename_i multiplier picked
      exact Interval.pick_contains picked
    · exact ih

/-! ## The interval of a double -/

theorem intervalOf_lower (d : Double) :
    (intervalOf d).lower = (4 * d.magnitude - d.lowerGap) * Nat.pow 10 finest := rfl

theorem intervalOf_value (d : Double) :
    (intervalOf d).value = 4 * d.magnitude * Nat.pow 10 finest := rfl

theorem intervalOf_upper (d : Double) :
    (intervalOf d).upper = (4 * d.magnitude + 2 * 2 ^ d.shift) * Nat.pow 10 finest := rfl

theorem intervalOf_closed (d : Double) :
    (intervalOf d).closed = true ↔ d.significand % 2 = 0 := by
  simp only [intervalOf, decide_eq_true_eq]

theorem scale_pos : 0 < Nat.pow 10 finest := by decide +kernel

/-- The finest grid is finer than the distance from every double to the halves around it. -/
theorem unit_lt : unit < Nat.pow 10 finest := by decide +kernel

/-- A fraction of steps at a point of the interval is rounded to the double. -/
theorem rounds_of_contains {d : Double} {n m x : Nat}
    (inside : (intervalOf d).contains x = true) (value : x * m = 4 * n * Nat.pow 10 finest)
    (positive : 0 < m) : Double.Rounds d n m := by
  obtain ⟨lower, upper, tie⟩ := Interval.contains_iff.1 inside
  rw [intervalOf_closed] at tie
  rw [intervalOf_lower] at lower tie
  rw [intervalOf_upper] at upper tie
  have scale := scale_pos
  generalize Nat.pow 10 finest = size at *
  refine ⟨?_, ?_, fun half => tie ?_⟩
  · refine Nat.le_of_mul_le_mul_right ?_ scale
    calc (4 * d.magnitude - d.lowerGap) * m * size
        = (4 * d.magnitude - d.lowerGap) * size * m := Nat.mul_right_comm _ _ _
      _ ≤ x * m := Nat.mul_le_mul_right m lower
      _ = 4 * n * size := value
  · refine Nat.le_of_mul_le_mul_right ?_ scale
    calc 4 * n * size = x * m := value.symm
      _ ≤ (4 * d.magnitude + 2 * 2 ^ d.shift) * size * m := Nat.mul_le_mul_right m upper
      _ = (4 * d.magnitude + 2 * 2 ^ d.shift) * m * size := Nat.mul_right_comm _ _ _
  · rcases half with half | half
    · refine .inl (Nat.eq_of_mul_eq_mul_right positive ?_)
      rw [value, ← half, Nat.mul_right_comm]
    · refine .inr (Nat.eq_of_mul_eq_mul_right positive ?_)
      rw [value, half, Nat.mul_right_comm]

/-- A double other than zero is farther from zero than from the half below it. -/
theorem lowerGap_lt {d : Double} (nonzero : d.significand ≠ 0) :
    0 < d.lowerGap ∧ d.lowerGap < 4 * d.magnitude := by
  have step : 0 < 2 ^ d.shift := Nat.two_pow_pos _
  have least : 1 * 2 ^ d.shift ≤ d.significand * 2 ^ d.shift := Nat.mul_le_mul_right _ (by omega)
  simp only [Double.lowerGap, Double.magnitude, Nat.pow_eq]
  split <;> omega

/-- The multiple of the finest power of ten below a double is inside its interval. -/
theorem contains_below {d : Double} (nonzero : d.significand ≠ 0) :
    (intervalOf d).contains ((intervalOf d).value / unit * unit) = true := by
  obtain ⟨gap, room⟩ := lowerGap_lt nonzero
  have fine := unit_lt
  have split : (intervalOf d).value = (intervalOf d).value / unit * unit
      + (intervalOf d).value % unit := by rw [Nat.div_add_mod']
  have rest : (intervalOf d).value % unit < unit := Nat.mod_lt _ (by decide +kernel)
  generalize (intervalOf d).value / unit * unit = below at *
  generalize (intervalOf d).value % unit = rest at *
  rw [intervalOf_value] at split
  have above : (4 * d.magnitude - d.lowerGap) * Nat.pow 10 finest + Nat.pow 10 finest
      ≤ 4 * d.magnitude * Nat.pow 10 finest := by
    rw [← Nat.succ_mul]
    exact Nat.mul_le_mul_right _ (by omega)
  have under : 4 * d.magnitude * Nat.pow 10 finest
      < (4 * d.magnitude + 2 * 2 ^ d.shift) * Nat.pow 10 finest := by
    refine Nat.mul_lt_mul_of_pos_right ?_ scale_pos
    have step := Nat.two_pow_pos d.shift
    omega
  rw [Interval.contains_iff, intervalOf_lower, intervalOf_upper]
  generalize Nat.pow 10 finest = size at *
  generalize unit = grid at *
  refine ⟨by omega, by omega, fun ends => ?_⟩
  omega

theorem exists_pick_unit {d : Double} (nonzero : d.significand ≠ 0) :
    ∃ multiplier, (intervalOf d).pick unit = some multiplier := by
  have inside := contains_below nonzero
  unfold Interval.pick
  dsimp only
  rw [if_pos inside]
  split
  · exact ⟨_, rfl⟩
  · exact ⟨_, rfl⟩

theorem pos_of_contains {d : Double} {multiplier grid : Nat} (nonzero : d.significand ≠ 0)
    (inside : (intervalOf d).contains (multiplier * grid) = true) : 0 < multiplier := by
  obtain ⟨gap, room⟩ := lowerGap_lt nonzero
  have lower := (Interval.contains_iff.1 inside).1
  rw [intervalOf_lower] at lower
  have positive : 0 < (4 * d.magnitude - d.lowerGap) * Nat.pow 10 finest :=
    Nat.mul_pos (by omega) scale_pos
  refine Nat.pos_of_ne_zero fun zero => ?_
  rw [zero, Nat.zero_mul] at lower
  exact absurd lower (Nat.not_le.2 positive)

end Shortest

namespace Double

open Shortest

/-! ## Reading back -/

theorem decimalLength_le {n total : Nat} (some : 0 < n) (below : n < 10 ^ total) :
    decimalLength n ≤ total := by
  rcases Nat.eq_zero_or_pos total with none | positive
  · rw [none, Nat.pow_zero] at below
    omega
  · exact (Nat.length_toDigits_le_iff (by decide) positive).2 below

theorem decimalLength_add_le {n power total : Nat} (some : 0 < n)
    (below : n * 10 ^ power < Nat.pow 10 total) : decimalLength n + power ≤ total := by
  rw [Nat.pow_eq] at below
  rcases Nat.lt_or_ge total power with less | more
  · have step : 10 ^ total ≤ 10 ^ power := Nat.pow_le_pow_right (by decide) less.le
    have large : 10 ^ power ≤ n * 10 ^ power := Nat.le_mul_of_pos_left _ some
    omega
  · have short : n < 10 ^ (total - power) := by
      refine Nat.lt_of_mul_lt_mul_right (a := 10 ^ power) ?_
      rw [← Nat.pow_add, Nat.sub_add_cancel more]
      exact below
    have := decimalLength_le some short
    omega

/-- The greatest shift of a double. -/
def greatestShift : Nat := 2045

/-- The number of steps in `2 ^ 1024`, the first power of two beyond all doubles. -/
def ceiling : Nat := Nat.pow 2 53 * Nat.pow 2 greatestShift

theorem mul_pow_le {s p e q : Nat} (significand : s ≤ p) (shift : e ≤ q) :
    s * Nat.pow 2 e ≤ p * Nat.pow 2 q :=
  Nat.mul_le_mul significand (Nat.pow_le_pow_right Nat.two_pos shift)

theorem upper_le (d : Double) : 4 * d.magnitude + 2 * 2 ^ d.shift ≤ 4 * ceiling := by
  have product : (d.significand + 1) * Nat.pow 2 d.shift ≤ ceiling :=
    mul_pow_le d.canonical.1 d.canonical.2.1
  rw [Nat.add_mul, Nat.pow_eq] at product
  rw [magnitude, Nat.pow_eq]
  omega

/-- No interval reaches `10 ^ 310`. -/
theorem decimalLength_le_of_contains {d : Double} {digits power : Nat} (some : 0 < digits)
    (inside : (intervalOf d).contains (digits * (10 ^ power * unit)) = true) :
    decimalLength digits + power ≤ 310 + finest := by
  have upper := (Interval.contains_iff.1 inside).2.1
  rw [intervalOf_upper, ← Nat.mul_assoc] at upper
  refine decimalLength_add_le some (Nat.lt_of_mul_lt_mul_right (a := unit) ?_)
  calc digits * 10 ^ power * unit
      ≤ (4 * d.magnitude + 2 * 2 ^ d.shift) * Nat.pow 10 finest := upper
    _ ≤ 4 * ceiling * Nat.pow 10 finest := Nat.mul_le_mul_right _ d.upper_le
    _ < Nat.pow 10 (310 + finest) * unit := by decide +kernel

/-- A decimal in the interval of a double is read as that double. -/
theorem ofDecimal?_of_contains {d : Double} {digits power : Nat} (some : 0 < digits)
    (inside : (intervalOf d).contains (digits * (10 ^ power * unit)) = true) (negative : Bool) :
    ofDecimal? negative digits (power - finest) = .some (d.withSign negative) := by
  have short := decimalLength_le_of_contains some inside
  have nonempty : 0 < decimalLength digits := Nat.length_toDigits_pos
  have quarters : unit = 4 * one := rfl
  have small : finest = 324 := rfl
  rw [ofDecimal?, if_neg (by omega), if_neg (by omega), if_neg (by omega)]
  split
  · rename_i large
    have scaled : digits * (10 ^ power * unit) * 1
        = 4 * (digits * Nat.pow 10 ((power : Int) - finest).toNat * one) * Nat.pow 10 finest := by
      obtain ⟨more, sum⟩ := Nat.exists_eq_add_of_le (show finest ≤ power by omega)
      have exponent : ((power : Int) - finest).toNat = more := by omega
      rw [exponent, sum, quarters, Nat.pow_add, Nat.pow_eq, Nat.pow_eq]
      ring
    exact (rounds_of_contains inside scaled (by decide)).ofSteps?_eq (by decide) negative
  · rename_i fine
    have positive : 0 < Nat.pow 10 (-((power : Int) - finest)).toNat := Nat.pow_pos (by decide)
    have scaled : digits * (10 ^ power * unit) * Nat.pow 10 (-((power : Int) - finest)).toNat
        = 4 * (digits * one) * Nat.pow 10 finest := by
      obtain ⟨less, sum⟩ := Nat.exists_eq_add_of_le (show power ≤ finest by omega)
      have exponent : (-((power : Int) - finest)).toNat = less := by omega
      rw [exponent, sum, quarters, Nat.pow_eq, Nat.pow_eq, Nat.pow_add]
      ring
    exact (rounds_of_contains inside scaled positive).ofSteps?_eq positive negative

theorem shortest_zero {d : Double} (none : d.significand = 0) : d.shortest = ⟨0, 0⟩ := if_pos none

theorem shortest_of_ne_zero {d : Double} (nonzero : d.significand ≠ 0) :
    ∃ digits power : Nat, d.shortest = ⟨digits, power - finest⟩ ∧ 0 < digits
      ∧ (intervalOf d).contains (digits * (10 ^ power * unit)) = true := by
  have inside := search_contains (exists_pick_unit nonzero)
    (decimalLength ((intervalOf d).value / unit))
  have found : d.shortest = _ := if_neg nonzero
  dsimp only at found
  generalize search (intervalOf d) unit (decimalLength ((intervalOf d).value / unit)) = pair at *
  exact ⟨pair.1, pair.2, found, pos_of_contains nonzero inside, inside⟩

theorem eq_zero_of_significand {d : Double} (none : d.significand = 0) : d = zero d.negative := by
  obtain ⟨negative, significand, shift, canonical⟩ := d
  cases none
  have unshifted : shift = 0 := by
    by_contra shifted
    exact absurd (canonical.2.2 shifted) (by decide)
  cases unshifted
  rfl

/-- The shortest decimal of a double is read as that double, also with zeros behind its digits, up
to the first one behind the point. -/
theorem ofDecimal?_shortest (d : Double) {zeros : Nat}
    (few : (zeros : Int) ≤ max 0 (d.shortest.exponent + 1)) :
    ofDecimal? d.negative (d.shortest.digits * 10 ^ zeros) (d.shortest.exponent - zeros)
      = some d := by
  rcases Nat.eq_zero_or_pos d.significand with none | positive
  · rw [shortest_zero none, ofDecimal?, if_pos (Nat.zero_mul _), ← eq_zero_of_significand none]
  · obtain ⟨digits, power, found, positive, inside⟩ := shortest_of_ne_zero (Nat.ne_of_gt positive)
    have small : finest = 324 := rfl
    rw [found] at few ⊢
    dsimp only at few ⊢
    obtain ⟨less, sum⟩ := Nat.exists_eq_add_of_le (show zeros ≤ power by omega)
    have exponent : (power : Int) - finest - zeros = less - finest := by omega
    have same : digits * (10 ^ power * unit) = digits * 10 ^ zeros * (10 ^ less * unit) := by
      rw [sum, Nat.pow_add]
      ring
    rw [same] at inside
    rw [exponent]
    exact ofDecimal?_of_contains (Nat.mul_pos positive (Nat.pow_pos (by decide))) inside d.negative

end Double

end JsonShape
