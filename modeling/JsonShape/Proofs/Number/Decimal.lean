import JsonShape.Proofs.Number.Nearest

/-!
# Decimals as doubles

A decimal is read as the double that is nearest to its exact value.

* `Double.rounds_of_ofDecimal?`: a decimal other than zero lies between the halves to the neighbours
  of its double, also where the reader does not compute its power.
* `Double.isNearest_decimal_iff`: so the doubles that are nearest to the exact value of a decimal
  are those that have the value of its double.
-/

namespace JsonShape.Double

/-- A number with a sign. -/
def signed (negative : Bool) (n : Nat) : Int := if negative then -(n : Int) else n

theorem signed_natAbs (negative : Bool) (n : Nat) : (signed negative n).natAbs = n := by
  unfold signed
  split
  · rw [Int.natAbs_neg, Int.natAbs_natCast]
  · exact Int.natAbs_natCast n

theorem decide_signed_lt_zero (negative : Bool) {n : Nat} (some : n ≠ 0) :
    decide (signed negative n < 0) = negative := by
  have positive : 0 < (n : Int) := Int.natCast_pos.mpr (Nat.pos_of_ne_zero some)
  cases negative with
  | true => exact decide_eq_true (Int.neg_neg_of_pos positive)
  | false => exact decide_eq_false (Int.not_lt.mpr positive.le)

theorem signed_mul (negative : Bool) (n m : Nat) :
    signed negative (n * m) = signed negative n * m := by
  unfold signed
  split
  · rw [Int.natCast_mul, Int.neg_mul]
  · exact Int.natCast_mul n m

/-! ## Rounding -/

theorem value_zero {v : Int} (nothing : v = 0) (negative : Bool) : (zero negative).value = v := by
  rw [value_eq_intCast_iff, nothing, Int.zero_mul]
  cases negative <;> rfl

section

variable {d : Double} {negative : Bool} {n m : Nat}

theorem rounds_of_ofSteps? (positive : 0 < m) (rounded : ofSteps? negative n m = some d) :
    d.negative = negative ∧ Rounds d n m := by
  unfold ofSteps? ofParts? at rounded
  split at rounded
  · cases rounded
    exact ⟨rfl, rounds_of_roundSteps positive rfl⟩
  · cases rounded

/-- Less than half a step is rounded to zero. -/
theorem rounds_zero (small : 2 * n ≤ m) : Rounds (zero negative) n m where
  lower := by
    have none : (zero negative).magnitude = 0 := Nat.zero_mul _
    rw [none, Nat.mul_zero, Nat.zero_sub, Nat.zero_mul]
    exact Nat.zero_le _
  upper := by
    have none : (zero negative).magnitude = 0 := Nat.zero_mul _
    have unshifted : (zero negative).shift = 0 := rfl
    rw [none, unshifted]
    omega
  tie _ := rfl

end

/-! ## Decimals -/

theorem lt_ten_pow_decimalLength (n : Nat) : n < 10 ^ decimalLength n :=
  (Nat.length_toDigits_le_iff (by decide) Nat.length_toDigits_pos).mp (Nat.le_refl _)

/-- Below `10 ^ -330` a decimal is less than half a step. -/
theorem two_mul_digits_mul_one_le {digits places : Nat}
    (small : decimalLength digits + 330 < places) : 2 * (digits * one) ≤ 10 ^ places := by
  have fine : 2 * one ≤ 10 ^ 330 := by decide +kernel
  calc 2 * (digits * one) = digits * (2 * one) := by ring
    _ ≤ 10 ^ decimalLength digits * 10 ^ 330 :=
      Nat.mul_le_mul (lt_ten_pow_decimalLength digits).le fine
    _ = 10 ^ (decimalLength digits + 330) := by rw [Nat.pow_add]
    _ ≤ 10 ^ places := Nat.pow_le_pow_right (by decide) small.le

section

variable {d : Double} {negative : Bool} {digits : Nat} {exponent : Int}

/-- A decimal other than zero, as a fraction of steps, is rounded to its double. -/
theorem rounds_of_ofDecimal? (nonzero : digits ≠ 0)
    (found : ofDecimal? negative digits exponent = some d) :
    d.negative = negative ∧
      Rounds d (digits * 10 ^ exponent.toNat * one) (10 ^ (-exponent).toNat) := by
  have scale : 0 < 10 ^ (-exponent).toNat := Nat.pow_pos (by decide)
  rw [ofDecimal?, if_neg nonzero] at found
  split at found
  · cases found
  · split at found
    · next small =>
      cases found
      have whole : exponent.toNat = 0 := by omega
      refine ⟨rfl, rounds_zero ?_⟩
      rw [whole, Nat.pow_zero, Nat.mul_one]
      exact two_mul_digits_mul_one_le (by omega)
    · split at found
      · next large =>
        have whole : (-exponent).toNat = 0 := by omega
        rw [whole, Nat.pow_zero]
        exact rounds_of_ofSteps? Nat.one_pos found
      · next fine =>
        have whole : exponent.toNat = 0 := by omega
        rw [whole, Nat.pow_zero, Nat.mul_one]
        exact rounds_of_ofSteps? scale found

theorem ten_zpow_eq (exponent : Int) :
    (10 : ℚ) ^ exponent = (10 ^ exponent.toNat : Nat) / (10 ^ (-exponent).toNat : Nat) := by
  obtain ⟨k, rfl | rfl⟩ := Int.eq_nat_or_neg exponent
  · simp
  · simp

/-- The doubles that are nearest to the exact value of a decimal are those that have the value of
the double that it is read as. -/
theorem isNearest_decimal_iff (found : ofDecimal? negative digits exponent = some d) (e : Double) :
    e.IsNearest (signed negative digits * 10 ^ exponent) ↔ e.value = d.value := by
  rcases eq_or_ne digits 0 with rfl | nonzero
  · cases found
    have exact := value_zero rfl negative
    have nothing : (signed negative 0 : ℚ) * 10 ^ exponent = ((0 : Int) : ℚ) := by
      cases negative <;> simp [signed]
    rw [nothing, isNearest_iff_of_exact exact, exact]
  · obtain ⟨sign, rounds⟩ := rounds_of_ofDecimal? nonzero found
    have scale : 0 < 10 ^ (-exponent).toNat := Nat.pow_pos (by decide)
    have power : 10 ^ exponent.toNat ≠ 0 := (Nat.pow_pos (by decide)).ne'
    have some : digits * 10 ^ exponent.toNat * one ≠ 0 :=
      Nat.mul_ne_zero (Nat.mul_ne_zero nonzero power) one_pos.ne'
    have step : (one : ℚ) ≠ 0 := Nat.cast_ne_zero.mpr one_pos.ne'
    have value : (signed negative digits : ℚ) * 10 ^ exponent =
        (signed negative (digits * 10 ^ exponent.toNat * one) : ℚ) /
          ((10 ^ (-exponent).toNat : Nat) * one) := by
      rw [signed_mul, signed_mul, ten_zpow_eq, Int.cast_mul, Int.cast_mul, Int.cast_natCast,
        Int.cast_natCast, mul_div_mul_right _ _ step, mul_div_assoc]
    rw [← signed_natAbs negative (digits * 10 ^ exponent.toNat * one)] at rounds
    rw [← decide_signed_lt_zero negative some] at sign
    rw [value]
    exact rounds.isNearest_iff scale sign e

end

end JsonShape.Double
