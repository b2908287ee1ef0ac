import JsonShape.Number.Reading
import JsonShape.Proofs.Number.Agreement
import JsonShape.Proofs.Number.Decimal
import JsonShape.Proofs.Number.Shortest

/-!
# The two readings of a numeral

A definition takes a numeral for the double that is nearest to it; a document goes there in steps
and rounds at each of them.

* `Numeral.exists_stepwise?_of_integer`: an integer that a definition takes is read as an equal
  number.
* `Numeral.agrees_stepwise?_iff`: another numeral agrees with itself exactly if the steps lead to a
  double that is nearest to it.
* `Numeral.stepwise?_of_roundedOnce`: they do if at most one of them rounds.
-/

namespace JsonShape

namespace Double

/-! ## Exact steps -/

theorem Rounds.scale {d : Double} {n m c : Nat} (positive : 0 < c) (rounds : Rounds d n m) :
    Rounds d (n * c) (m * c) := by
  obtain ⟨lower, upper, tie⟩ := rounds
  refine ⟨?_, ?_, fun half => tie ?_⟩
  · rw [← Nat.mul_assoc, ← Nat.mul_assoc]
    exact Nat.mul_le_mul_right c lower
  · rw [← Nat.mul_assoc, ← Nat.mul_assoc]
    exact Nat.mul_le_mul_right c upper
  · rw [← Nat.mul_assoc, ← Nat.mul_assoc, ← Nat.mul_assoc] at half
    exact half.imp (Nat.eq_of_mul_eq_mul_right positive) (Nat.eq_of_mul_eq_mul_right positive)

/-- A double lies between the halves to its own neighbours. -/
theorem rounds_self (d : Double) : Rounds d d.magnitude 1 := by
  have step := Nat.two_pow_pos d.shift
  refine ⟨by omega, by omega, fun half => ?_⟩
  by_contra odd
  have nonzero : d.significand ≠ 0 := by
    intro zero
    rw [zero] at odd
    exact odd rfl
  obtain ⟨gap, room⟩ := Shortest.lowerGap_lt nonzero
  omega

theorem ofSteps?_zero (negative : Bool) (m : Nat) :
    ofSteps? negative 0 m = some (zero negative) := by
  have rounded : roundSteps 0 m = (0, 0) := by
    simp [roundSteps, excessBits, divideNearest]
  unfold ofSteps? ofParts?
  rw [rounded]
  rfl

/-- The whole numbers up to `2 ^ 53` are magnitudes. -/
theorem exists_magnitude_of_le {k : Nat} (small : k ≤ 2 ^ 53) :
    ∃ d : Double, d.magnitude = k * one := by
  obtain ⟨d, value⟩ := exists_value_of_le (n := (k : Int)) small
  refine ⟨d, ?_⟩
  rw [← scaled_natAbs, value_eq_intCast_iff.mp value, Int.natAbs_mul, Int.natAbs_natCast,
    Int.natAbs_natCast]

end Double

namespace Numeral

open Double

/-- The powers of ten up to `10 ^ 22` are doubles. -/
theorem magnitude_powerOfTen {power : Nat} (few : power ≤ 22) :
    (powerOfTen power).magnitude = 10 ^ power * one := by
  have all : ∀ p ≤ 22, (powerOfTen p).magnitude = 10 ^ p * one := by decide +kernel
  exact all power few

section

variable {a d : Double} {power : Nat}

theorem scaleUp?_eq (few : power ≤ 22) (rounds : Rounds d (a.magnitude * 10 ^ power) 1) :
    scaleUp? a power = some (d.withSign false) := by
  have scaled := rounds.scale Double.one_pos
  rw [Nat.mul_assoc, Nat.one_mul] at scaled
  rw [scaleUp?, if_pos (few.trans (by decide)), mulMagnitude?, magnitude_powerOfTen few]
  exact scaled.ofSteps?_eq Double.one_pos false

theorem scaleDown?_eq (few : power ≤ 22) (rounds : Rounds d a.magnitude (10 ^ power)) :
    scaleDown? a power = some (d.withSign false) := by
  have scale : 0 < 10 ^ power * one := Nat.mul_pos (Nat.pow_pos (by decide)) Double.one_pos
  rw [scaleDown?, if_pos (few.trans (by decide)), divMagnitude?, magnitude_powerOfTen few]
  exact (rounds.scale Double.one_pos).ofSteps?_eq scale false

/-- Where the significand is read as a double, a double that is nearest to that one times the power
of ten is what the steps lead to. -/
theorem fromParts?_eq {significand : Nat} {exponent : Int}
    (read : ofFraction? false significand 1 = some a) (few : exponent.natAbs ≤ 22)
    (rounds : Rounds d (a.magnitude * 10 ^ exponent.toNat) (10 ^ (-exponent).toNat)) :
    fromParts? d.negative significand exponent = some d := by
  rw [fromParts?, read, Option.bind_some]
  by_cases up : 0 ≤ exponent
  · have whole : (-exponent).toNat = 0 := by omega
    rw [whole, Nat.pow_zero] at rounds
    rw [if_pos up, scaleUp?_eq (by omega) rounds]
    rfl
  · have whole : exponent.toNat = 0 := by omega
    rw [whole, Nat.pow_zero, Nat.mul_one] at rounds
    rw [if_neg up, scaleDown?_eq (by omega) rounds]
    rfl

end

theorem scaleUp?_zero (power : Nat) : scaleUp? (zero false) power = some (zero false) := by
  unfold scaleUp?
  split
  · rw [mulMagnitude?, show (zero false).magnitude = 0 from rfl, Nat.zero_mul, ofSteps?_zero]
  · exact if_pos rfl

theorem scaleDown?_zero (power : Nat) : scaleDown? (zero false) power = some (zero false) := by
  unfold scaleDown?
  split
  · rw [divMagnitude?, show (zero false).magnitude = 0 from rfl, Nat.zero_mul, ofSteps?_zero]
  · exact if_pos rfl

/-- Zero stays zero, whatever its power of ten. -/
theorem fromParts?_zero (negative : Bool) (exponent : Int) :
    fromParts? negative 0 exponent = some (zero negative) := by
  rw [fromParts?, ofFraction?, Nat.zero_mul, ofSteps?_zero, Option.bind_some]
  split
  · rw [scaleUp?_zero]
    rfl
  · rw [scaleDown?_zero]
    rfl

/-! ## Values -/

/-- All digits of a numeral. -/
def digits (n : Numeral) : Nat := digitsValue (n.whole ++ n.fraction)

/-- The power of ten of a numeral's last digit. -/
def power (n : Numeral) : Int := n.exponent.getD 0 - n.fraction.length

/-- The number that a numeral denotes. -/
def value (n : Numeral) : ℚ := signed n.negative n.digits * 10 ^ n.power

/-- At most one step of the reading rounds: there are no digits but zeros, or no power is left, or
both the digits and the power are doubles. -/
def RoundedOnce (n : Numeral) : Prop :=
  n.digits = 0 ∨ (n.digits < 2 ^ 64 ∧ n.power = 0) ∨ (n.digits ≤ 2 ^ 53 ∧ n.power.natAbs ≤ 22)

theorem isInteger_iff {n : Numeral} : n.isInteger = true ↔ n.fraction = [] ∧ n.exponent = none := by
  simp [isInteger]

/-- In a definition, a numeral with a fraction or an exponent is read as a double. -/
theorem nearest?_eq_some_iff {n : Numeral} (marked : n.isInteger = false) {a : Number} :
    n.nearest? = some a ↔
      ∃ d, ofDecimal? n.negative n.digits n.power = some d ∧ Number.double d = a := by
  rw [nearest?, marked, if_neg Bool.false_ne_true, Option.map_eq_some_iff]
  rfl

/-! ## Collecting digits -/

theorem le_ofDigitChars (digits : List Char) (n : Nat) : n ≤ Nat.ofDigitChars 10 digits n := by
  rw [Nat.ofDigitChars_eq_ofDigitChars_zero]
  have large : n ≤ 10 ^ digits.length * n := Nat.le_mul_of_pos_left n (Nat.pow_pos (by decide))
  omega

/-- Digits of which the value fits in 64 bits are all collected. -/
theorem collect_eq {digits : List Char} {n : Nat} (fits : Nat.ofDigitChars 10 digits n < 2 ^ 64) :
    collect n digits = (Nat.ofDigitChars 10 digits n, []) := by
  induction digits generalizing n with
  | nil => rfl
  | cons c rest ih =>
    have next : 10 * n + digitValue c < Nat.pow 2 64 := (le_ofDigitChars rest _).trans_lt fits
    rw [collect, if_pos next]
    exact ih fits

section

variable {n : Numeral}

theorem collect_whole (fits : n.digits < 2 ^ 64) :
    collect 0 n.whole = (digitsValue n.whole, []) := by
  apply collect_eq
  refine (le_ofDigitChars n.fraction _).trans_lt ?_
  rw [← Nat.ofDigitChars_append]
  exact fits

theorem collect_fraction (fits : n.digits < 2 ^ 64) :
    collect (digitsValue n.whole) n.fraction = (n.digits, []) := by
  have both : Nat.ofDigitChars 10 n.fraction (digitsValue n.whole) = n.digits :=
    (Nat.ofDigitChars_append 0).symm
  rw [collect_eq (by rw [both]; exact fits), both]

/-- A numeral with a fraction or an exponent, of which the digits fit in 64 bits. -/
theorem stepwise?_eq (marked : n.isInteger = false) (fits : n.digits < 2 ^ 64) :
    n.stepwise? = (fromParts? n.negative n.digits n.power).map .double := by
  rw [stepwise?, collect_whole fits, marked]
  simp [collect_fraction fits, power]

end

/-! ## Integers -/

section

variable {negative : Bool} {whole : List Char}

theorem digitsValue_of_integral (fits : Integral (signedValue negative whole)) :
    digitsValue whole < 2 ^ 64 ∧ (negative = true → digitsValue whole ≤ 2 ^ 63) := by
  unfold Integral signedValue at fits
  cases negative with
  | true =>
    rw [if_pos rfl] at fits
    exact ⟨by omega, fun _ => by omega⟩
  | false =>
    rw [if_neg Bool.false_ne_true] at fits
    exact ⟨by omega, nofun⟩

theorem stepwise?_integer (fits : Integral (signedValue negative whole))
    (plain : ¬(negative = true ∧ digitsValue whole = 0)) :
    stepwise? ⟨negative, whole, [], none⟩ = some (.integer (signedValue negative whole) fits) := by
  obtain ⟨short, low⟩ := digitsValue_of_integral fits
  have collected : collect 0 whole = (digitsValue whole, []) := collect_eq short
  have kept : ¬(negative = true ∧
      (digitsValue whole = 0 ∨ Nat.pow 2 63 < digitsValue whole)) := by
    intro ⟨sign, off⟩
    rcases off with zeros | large
    · exact plain ⟨sign, zeros⟩
    · exact Nat.not_lt_of_le (low sign) large
  rw [stepwise?, collected]
  dsimp only
  rw [if_pos ⟨rfl, rfl, kept⟩]
  exact dif_pos fits

/-- Minus zero is a double. -/
theorem stepwise?_minusZero (zeros : digitsValue whole = 0) :
    stepwise? ⟨true, whole, [], none⟩ = some (.double (zero true)) := by
  have collected : collect 0 whole = (0, []) := by
    have all : collect 0 whole = (digitsValue whole, []) := by
      apply collect_eq
      change digitsValue whole < 2 ^ 64
      rw [zeros]
      exact Nat.two_pow_pos 64
    rw [all, zeros]
  rw [stepwise?, collected]
  simp [isInteger, collect, fromParts?_zero]

end

/-! ## Agreement -/

section

variable {n : Numeral} {a : Number}

theorem lt_of_roundedOnce (once : n.RoundedOnce) : n.digits < 2 ^ 64 := by
  rcases once with zeros | ⟨fits, _⟩ | ⟨small, _⟩
  · rw [zeros]
    exact Nat.two_pow_pos 64
  · exact fits
  · exact small.trans_lt (by decide)

/-- The steps lead to the double that is nearest to the numeral if at most one of them rounds. -/
theorem fromParts?_of_roundedOnce (once : n.RoundedOnce) {d : Double}
    (found : ofDecimal? n.negative n.digits n.power = some d) :
    fromParts? n.negative n.digits n.power = some d := by
  by_cases zeros : n.digits = 0
  · rw [zeros] at found ⊢
    cases found
    exact fromParts?_zero n.negative n.power
  obtain ⟨sign, rounds⟩ := rounds_of_ofDecimal? zeros found
  rw [← sign]
  rcases once with none | ⟨_, whole⟩ | ⟨small, few⟩
  · exact absurd none zeros
  · rw [whole] at rounds ⊢
    have read : ofFraction? false n.digits 1 = some (d.withSign false) := by
      rw [Int.toNat_zero, Nat.pow_zero, Nat.mul_one] at rounds
      exact rounds.ofSteps?_eq Nat.one_pos false
    refine fromParts?_eq read (by decide) ?_
    rw [Int.toNat_zero, Nat.pow_zero, Nat.mul_one]
    exact d.rounds_self
  · obtain ⟨b, exact⟩ := exists_magnitude_of_le small
    have read : ofFraction? false n.digits 1 = some (b.withSign false) := by
      rw [ofFraction?, ← exact]
      exact b.rounds_self.ofSteps?_eq Nat.one_pos false
    refine fromParts?_eq read few ?_
    have same : (b.withSign false).magnitude = n.digits * one := exact
    rw [same, Nat.mul_right_comm]
    exact rounds

theorem stepwise?_of_roundedOnce (marked : n.isInteger = false) (once : n.RoundedOnce)
    (read : n.nearest? = some a) : n.stepwise? = some a := by
  obtain ⟨d, found, rfl⟩ := (nearest?_eq_some_iff marked).mp read
  rw [stepwise?_eq marked (lt_of_roundedOnce once), fromParts?_of_roundedOnce once found]
  rfl

/-- In a document, a numeral with a fraction or an exponent is read as a double if it has a value. -/
theorem exists_double_of_stepwise? (marked : n.isInteger = false) {b : Number}
    (read : n.stepwise? = some b) : ∃ d, b = .double d := by
  rw [stepwise?, marked] at read
  simp only [Bool.false_eq_true, false_and, if_false, Option.map_eq_some_iff] at read
  obtain ⟨d, _, same⟩ := read
  exact ⟨d, same.symm⟩

/-- A number with a fraction or an exponent agrees with itself in a definition exactly if its double
in a document is nearest to it. -/
theorem agrees_stepwise?_iff (marked : n.isInteger = false) (read : n.nearest? = some a) :
    (∃ b, n.stepwise? = some b ∧ b.agrees a = true) ↔
      ∃ d, n.stepwise? = some (.double d) ∧ d.IsNearest n.value := by
  obtain ⟨d, found, rfl⟩ := (nearest?_eq_some_iff marked).mp read
  have nearest (e : Double) :
      (Number.double e).agrees (.double d) = true ↔ e.IsNearest n.value := by
    rw [value, isNearest_decimal_iff found, value_eq_iff]
    exact beq_iff_eq
  constructor
  · intro ⟨b, stepwise, agrees⟩
    obtain ⟨e, rfl⟩ := exists_double_of_stepwise? marked stepwise
    exact ⟨e, stepwise, (nearest e).mp agrees⟩
  · intro ⟨e, stepwise, isNearest⟩
    exact ⟨_, stepwise, (nearest e).mpr isNearest⟩

/-- An integer of a definition is read as an equal number, which is a double if it is minus
zero. -/
theorem exists_stepwise?_of_integer (integer : n.isInteger = true) (read : n.nearest? = some a) :
    ∃ b, n.stepwise? = some b ∧ b.agrees a = true := by
  obtain ⟨negative, whole, fraction, exponent⟩ := n
  obtain ⟨rfl, rfl⟩ := isInteger_iff.mp integer
  rw [nearest?, integer, if_pos rfl, Number.ofInt?] at read
  split at read
  · next fits =>
    cases read
    by_cases minusZero : negative = true ∧ digitsValue whole = 0
    · obtain ⟨rfl, zeros⟩ := minusZero
      refine ⟨_, stepwise?_minusZero zeros, (Number.agrees_iff _ _).mpr (.inl ?_)⟩
      apply value_zero
      simp [signedValue, zeros]
    · exact ⟨_, stepwise?_integer fits minusZero, (Number.agrees_iff _ _).mpr (.inl rfl)⟩
  · cases read

end

end Numeral

end JsonShape
