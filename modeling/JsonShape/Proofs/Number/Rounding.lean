import JsonShape.Number.Double
import Mathlib.Tactic.Linarith
import Mathlib.Tactic.Ring

/-!
# Rounding

The double that a fraction of steps is rounded to.

* `Double.divideNearest_eq`: division to the nearest whole number, from bounds on the fraction.
* `Double.Rounds d n m` says that `n / m` steps lie between the halves to the neighbours of `d`,
  ends included where the significand is even; below a power of two the lower neighbour is nearer.
* `Double.ofSteps?_eq`: then `n / m` is rounded to `d`.
-/

namespace JsonShape.Double

/-! ## To whole numbers -/

/-- `k` is a whole number nearest to `n / m`, and the even one of two. -/
structure Nearest (k n m : Nat) : Prop where
  lower : 2 * (k * m) ≤ 2 * n + m
  upper : 2 * n ≤ 2 * (k * m) + m
  tieLower : 2 * (k * m) = 2 * n + m → k % 2 = 0
  tieUpper : 2 * n = 2 * (k * m) + m → k % 2 = 0

theorem divideNearest_eq {k n m : Nat} (positive : 0 < m) (nearest : Nearest k n m) :
    divideNearest n m = k := by
  obtain ⟨lower, upper, tieLower, tieUpper⟩ := nearest
  have split : n = n / m * m + n % m := by rw [Nat.div_add_mod' n m]
  have small : n % m < m := Nat.mod_lt n positive
  simp only [divideNearest]
  generalize n / m = q at *
  generalize n % m = r at *
  have notAbove : k ≤ q + 1 := by
    by_contra above
    have big : (q + 2) * m ≤ k * m := Nat.mul_le_mul_right m (by omega)
    rw [Nat.add_mul] at big
    omega
  have notBelow : q ≤ k := by
    by_contra below
    have big : (k + 1) * m ≤ q * m := Nat.mul_le_mul_right m (by omega)
    rw [Nat.add_mul] at big
    omega
  rcases Nat.lt_or_ge q k with more | same
  · have next : k = q + 1 := by omega
    subst next
    rw [Nat.add_mul] at lower upper tieLower tieUpper
    split
    · omega
    · split
      · rfl
      · split
        · have even := tieLower (by omega)
          omega
        · rfl
  · have equal : k = q := by omega
    subst equal
    split
    · rfl
    · split
      · omega
      · have even := tieUpper (by omega)
        rw [if_pos even]

/-! ## To 53 bits -/

theorem excessBits_eq_zero {n m : Nat} (positive : 0 < m) (short : n < 2 ^ 53 * m) :
    excessBits n m = 0 := by
  have quotient : n / m < 2 ^ 53 := (Nat.div_lt_iff_lt_mul positive).2 short
  rcases Nat.eq_zero_or_pos (n / m) with none | some
  · rw [excessBits, none]
    rfl
  · have bits : (n / m).log2 < 53 := (Nat.log2_lt (by omega)).2 quotient
    unfold excessBits
    omega

theorem excessBits_eq {n m e : Nat} (positive : 0 < m) (long : 2 ^ 52 * (m * 2 ^ e) ≤ n)
    (short : n < 2 ^ 53 * (m * 2 ^ e)) : excessBits n m = e := by
  have least : 2 ^ (e + 52) ≤ n / m := by
    refine (Nat.le_div_iff_mul_le positive).2 ?_
    calc 2 ^ (e + 52) * m = 2 ^ 52 * (m * 2 ^ e) := by ring
      _ ≤ n := long
  have most : n / m < 2 ^ (e + 52 + 1) := by
    refine (Nat.div_lt_iff_lt_mul positive).2 ?_
    calc n < 2 ^ 53 * (m * 2 ^ e) := short
      _ = 2 ^ (e + 52 + 1) * m := by ring
  have some : n / m ≠ 0 := by
    have := Nat.two_pow_pos (e + 52)
    omega
  have bits : (n / m).log2 = e + 52 := (Nat.log2_eq_iff some).2 ⟨least, most⟩
  unfold excessBits
  omega

theorem roundSteps_eq {n m e s : Nat} (positive : 0 < m) (excess : excessBits n m = e)
    (small : s < 2 ^ 53) (nearest : Nearest s n (m * 2 ^ e)) : roundSteps n m = (s, e) := by
  have rounded := divideNearest_eq (Nat.mul_pos positive (Nat.two_pow_pos e)) nearest
  simp only [roundSteps, excess, Nat.pow_eq, rounded]
  rw [if_neg (by omega)]

/-- A significand that is rounded up to 54 bits is a power of two, one place further up. -/
theorem roundSteps_carry {n m e : Nat} (positive : 0 < m) (excess : excessBits n m = e)
    (nearest : Nearest (2 ^ 53) n (m * 2 ^ e)) : roundSteps n m = (2 ^ 52, e + 1) := by
  have rounded := divideNearest_eq (Nat.mul_pos positive (Nat.two_pow_pos e)) nearest
  simp only [roundSteps, excess, Nat.pow_eq, rounded]
  rw [if_true]

/-! ## To a double -/

/-- The distance down to the half to the lower neighbour, in quarters of a step. -/
def lowerGap (d : Double) : Nat :=
  if d.significand = Nat.pow 2 52 ∧ d.shift ≠ 0 then Nat.pow 2 d.shift else 2 * Nat.pow 2 d.shift

/-- The half to the upper neighbour, in quarters of a step. -/
theorem upper_eq (d : Double) (m : Nat) :
    (4 * d.magnitude + 2 * 2 ^ d.shift) * m
      = 4 * (d.significand * (m * 2 ^ d.shift)) + 2 * (m * 2 ^ d.shift) := by
  simp only [magnitude, Nat.pow_eq]
  ring

/-- The half to the lower neighbour, in quarters of a step, above the lowest significand. -/
theorem lower_eq {d : Double} (plain : ¬(d.significand = 2 ^ 52 ∧ d.shift ≠ 0)) (m : Nat) :
    (4 * d.magnitude - d.lowerGap) * m
      = 4 * (d.significand * (m * 2 ^ d.shift)) - 2 * (m * 2 ^ d.shift) := by
  simp only [lowerGap, magnitude, Nat.pow_eq, if_neg plain]
  rw [Nat.sub_mul]
  ring_nf

/-- The half to the lower neighbour of a shifted power of two, in quarters of a step. -/
theorem lower_eq_of_lowest {d : Double} {e : Nat} (lowest : d.significand = 2 ^ 52)
    (next : d.shift = e + 1) (m : Nat) :
    (4 * d.magnitude - d.lowerGap) * m = 4 * (2 ^ 53 * (m * 2 ^ e)) - 2 * (m * 2 ^ e) := by
  have shifted : d.significand = Nat.pow 2 52 ∧ d.shift ≠ 0 := ⟨lowest, by omega⟩
  rw [lowerGap, if_pos shifted, magnitude, lowest, next, Nat.pow_eq, Nat.sub_mul, Nat.pow_succ]
  ring_nf

/-- `n / m` steps are between the halves to the neighbours of `d`; on a half only if the
significand is even. -/
structure Rounds (d : Double) (n m : Nat) : Prop where
  lower : (4 * d.magnitude - d.lowerGap) * m ≤ 4 * n
  upper : 4 * n ≤ (4 * d.magnitude + 2 * 2 ^ d.shift) * m
  tie : (4 * d.magnitude - d.lowerGap) * m = 4 * n ∨
    4 * n = (4 * d.magnitude + 2 * 2 ^ d.shift) * m → d.significand % 2 = 0

/-- A shifted double at or above its significand's power of two. -/
theorem roundSteps_shifted {d : Double} {n m : Nat} (positive : 0 < m)
    (above : 2 ^ 52 * (m * 2 ^ d.shift) ≤ n) (near : Nearest d.significand n (m * 2 ^ d.shift)) :
    roundSteps n m = (d.significand, d.shift) := by
  have fits : d.significand < 2 ^ 53 := d.canonical.1
  have width : 0 < m * 2 ^ d.shift := Nat.mul_pos positive (Nat.two_pow_pos _)
  refine roundSteps_eq positive (excessBits_eq positive above ?_) fits near
  have upper := near.upper
  have step : (d.significand + 1) * (m * 2 ^ d.shift) ≤ 2 ^ 53 * (m * 2 ^ d.shift) :=
    Nat.mul_le_mul_right _ fits
  rw [Nat.add_mul] at step
  omega

namespace Rounds

variable {d : Double} {n m : Nat}

/-- Above the lowest significand both halves are half a step of the significand away. -/
theorem nearest (rounds : Rounds d n m) (plain : ¬(d.significand = 2 ^ 52 ∧ d.shift ≠ 0)) :
    Nearest d.significand n (m * 2 ^ d.shift) := by
  obtain ⟨lower, upper, tie⟩ := rounds
  rw [lower_eq plain, upper_eq] at tie
  rw [lower_eq plain] at lower
  rw [upper_eq] at upper
  exact ⟨by omega, by omega, fun half => tie (by omega), fun half => tie (by omega)⟩

/-- From the lowest significand upwards the upper half is half a step away. -/
theorem nearest_above (rounds : Rounds d n m) (above : d.significand * (m * 2 ^ d.shift) ≤ n) :
    Nearest d.significand n (m * 2 ^ d.shift) := by
  obtain ⟨lower, upper, tie⟩ := rounds
  rw [upper_eq] at upper tie
  refine ⟨by omega, by omega, fun half => ?_, fun half => tie (by omega)⟩
  have noWidth : m * 2 ^ d.shift = 0 := by omega
  exact tie (.inr (by omega))

/-- Below a power of two the next half is a quarter away, a half step of the shift below. -/
theorem nearest_below {e : Nat} (rounds : Rounds d n m) (lowest : d.significand = 2 ^ 52)
    (next : d.shift = e + 1) (below : n < 2 ^ 53 * (m * 2 ^ e)) :
    Nearest (2 ^ 53) n (m * 2 ^ e) := by
  have lower := rounds.lower
  rw [lower_eq_of_lowest lowest next] at lower
  exact ⟨by omega, by omega, fun _ => rfl, fun _ => rfl⟩

/-- Below `2 ^ 53` steps the quotient keeps all its bits. -/
theorem roundSteps_unshifted (positive : 0 < m) (rounds : Rounds d n m) (whole : d.shift = 0) :
    roundSteps n m = (d.significand, d.shift) := by
  have near := rounds.nearest fun ⟨_, shifted⟩ => shifted whole
  have fits : d.significand < 2 ^ 53 := d.canonical.1
  rw [whole] at near ⊢
  refine Double.roundSteps_eq positive (excessBits_eq_zero positive ?_) fits near
  have upper := near.upper
  rw [Nat.pow_zero, Nat.mul_one] at upper
  have step : (d.significand + 1) * m ≤ 2 ^ 53 * m := Nat.mul_le_mul_right m fits
  rw [Nat.add_mul] at step
  omega

theorem roundSteps_eq (positive : 0 < m) (rounds : Rounds d n m) :
    roundSteps n m = (d.significand, d.shift) := by
  rcases Nat.eq_zero_or_pos d.shift with whole | shifted
  · exact rounds.roundSteps_unshifted positive whole
  have normal : 2 ^ 52 ≤ d.significand := d.canonical.2.2 (by omega)
  rcases Nat.eq_or_lt_of_le normal with lowest | higher
  · rcases Nat.lt_or_ge n (2 ^ 52 * (m * 2 ^ d.shift)) with below | above
    · obtain ⟨e, next⟩ := Nat.exists_eq_add_of_lt shifted
      rw [Nat.zero_add] at next
      have halved : n < 2 ^ 53 * (m * 2 ^ e) := by
        rw [next] at below
        calc n < 2 ^ 52 * (m * 2 ^ (e + 1)) := below
          _ = 2 ^ 53 * (m * 2 ^ e) := by ring
      have near := rounds.nearest_below lowest.symm next halved
      have lower := near.lower
      have excess := excessBits_eq positive (by omega) halved
      rw [roundSteps_carry positive excess near, next, ← lowest]
    · have near := rounds.nearest_above (by rw [← lowest]; exact above)
      exact roundSteps_shifted positive above near
  · have near := rounds.nearest fun ⟨lowest, _⟩ => by omega
    refine roundSteps_shifted positive ?_ near
    have lower := near.lower
    have step : (2 ^ 52 + 1) * (m * 2 ^ d.shift) ≤ d.significand * (m * 2 ^ d.shift) :=
      Nat.mul_le_mul_right _ higher
    rw [Nat.add_mul] at step
    omega

/-- A fraction of steps between the halves around a double is rounded to it. -/
theorem ofSteps?_eq (positive : 0 < m) (rounds : Rounds d n m) (negative : Bool) :
    ofSteps? negative n m = some (d.withSign negative) := by
  rw [ofSteps?, rounds.roundSteps_eq positive, ofParts?, dif_pos d.canonical]
  rfl

end Rounds

end JsonShape.Double
