import JsonShape.Proofs.Number.ReadBack
import JsonShape.Proofs.Number.Stepwise

/-!
# Numbers read again

A double that is written and read in steps is a double again, though not always itself: no step of
the reading leads beyond all doubles.

* `Double.Rounds.magnitude_le_of_le`: rounding keeps the order.
* `Double.exists_ofSteps?`: a quotient is rounded to a double up to half a step above the greatest.
* `Numeral.exists_stepwise?` puts this together for numerals that are nearer to another double than
  to the greatest.  A neighbour of the digits of the greatest may be read as infinite, so the
  greatest has to be read on its own.
* `Number.exists_stepwise?_numeral` states it for numbers, and `Number.Steady` are those that are
  read as themselves: integers, and doubles of which the reading rounds once at most.
-/

namespace JsonShape

namespace Double

/-! ## The order of rounded numbers -/

section

variable {a b : Double} {n m k : Nat}

/-- Of two quotients the smaller is not rounded to the greater double. -/
theorem Rounds.magnitude_le_of_le (positive : 0 < m) (left : Rounds a n m) (right : Rounds b k m)
    (atMost : n ≤ k) : a.magnitude ≤ b.magnitude := by
  by_contra more
  have less : b.magnitude < a.magnitude := Nat.lt_of_not_le more
  have above := magnitude_add_le less
  have below := magnitude_add_lowerGap_le less
  -- The upper half of `b` ends at or below the lower half of `a`, so both end at the quotient.
  have ordered : (4 * a.magnitude - a.lowerGap) * m ≤
      (4 * b.magnitude + 2 * 2 ^ b.shift) * m :=
    left.lower.trans ((Nat.mul_le_mul_left 4 atMost).trans right.upper)
  have halves := Nat.le_of_mul_le_mul_right ordered positive
  have meet : 4 * a.magnitude - a.lowerGap = 4 * b.magnitude + 2 * 2 ^ b.shift := by omega
  have next : b.magnitude + 2 ^ b.shift = a.magnitude := by omega
  have lower := left.lower
  have upper := right.upper
  rw [meet] at lower
  have evenBelow := right.tie (.inr (by omega))
  have evenAbove := left.tie (.inl (by rw [meet]; omega))
  have odd := odd_above next evenBelow
  omega

end

/-! ## Finite results -/

/-- Twice the number of steps from which on numbers are rounded to infinity. -/
def limit : Nat := (2 ^ 54 - 1) * Nat.pow 2 greatestShift

section

variable {n m : Nat}

theorem limit_mul (m : Nat) : limit * m = (2 ^ 54 - 1) * (m * 2 ^ greatestShift) := by
  rw [limit, Nat.pow_eq, Nat.mul_assoc, Nat.mul_comm _ m]

/-- In the last binade a quotient below the limit is not rounded up to the next power of two. -/
theorem roundSteps_canonical_of_greatest (positive : 0 < m) (below : 2 * n < limit * m)
    (greatest : excessBits n m = greatestShift) :
    Canonical (roundSteps n m).1 (roundSteps n m).2 := by
  have width : 0 < m * 2 ^ greatestShift := Nat.mul_pos positive (Nat.two_pow_pos _)
  have normal := (excessBits_bounds positive).2 (by rw [greatest]; decide)
  obtain ⟨lower, upper, _, _⟩ := nearest_divideNearest (n := n) width
  rw [limit_mul] at below
  rw [greatest] at normal
  simp only [roundSteps, greatest, Nat.pow_eq]
  generalize m * 2 ^ greatestShift = w at *
  have most : divideNearest n w < 2 ^ 53 := by
    by_contra more
    have above : 2 ^ 53 * w ≤ divideNearest n w * w :=
      Nat.mul_le_mul_right w (Nat.le_of_not_lt more)
    omega
  rw [if_neg (Nat.ne_of_lt most)]
  refine ⟨most, Nat.le_refl _, fun _ => ?_⟩
  by_contra less
  have under : (divideNearest n w + 1) * w ≤ 2 ^ 52 * w :=
    Nat.mul_le_mul_right w (Nat.lt_of_not_le less)
  rw [Nat.add_mul] at under
  omega

/-- A quotient below the limit is rounded to a double. -/
theorem exists_ofSteps? (positive : 0 < m) (below : 2 * n < limit * m) (negative : Bool) :
    ∃ d, ofSteps? negative n m = some d ∧ Rounds d n m := by
  have few : excessBits n m ≤ greatestShift := by
    refine excessBits_le positive ?_
    rw [limit_mul] at below
    rw [mul_pow_succ]
    omega
  have canonical : Canonical (roundSteps n m).1 (roundSteps n m).2 := by
    rcases Nat.lt_or_eq_of_le few with small | greatest
    · exact roundSteps_canonical positive small
    · exact roundSteps_canonical_of_greatest positive below greatest
  refine ⟨⟨negative, _, _, canonical⟩, ?_, rounds_of_roundSteps positive rfl⟩
  rw [ofSteps?, ofParts?, dif_pos canonical]

theorem two_mul_magnitude_lt (d : Double) : 2 * d.magnitude < limit := by
  have most : d.magnitude ≤ (2 ^ 53 - 1) * 2 ^ greatestShift := magnitude_le d.canonical.2.1
  have some := Nat.two_pow_pos greatestShift
  rw [limit, Nat.pow_eq]
  generalize 2 ^ greatestShift = w at most some ⊢
  omega

end

end Double

namespace Numeral

open Double

/-! ## Bounds -/

/-- The greatest power of ten below `2 ^ 1024`. -/
def greatestPower : Nat := 308

/-- Up to this number, all numbers are nearer to another double than to the greatest. -/
def cap : Nat := (2 ^ 54 - 3) * Nat.pow 2 970

/-- The greatest significand of 64 bits that stays below the cap with a power of ten. -/
def greatestPart (power : Nat) : Nat := min (cap / Nat.pow 10 power) (2 ^ 64 - 1)

/-- Up to this power of ten, all significands of 64 bits stay below the cap. -/
def freePower : Nat := 288

/-- How the bounds compare.  The greatest significand that stays below the cap with a power of ten
does not go beyond the limit when both are rounded. -/
theorem bounds_compare :
    2 * (10 ^ greatestPower * one) < limit * 1 ∧ 2 * (2 ^ 64 * one) < limit * 1 ∧
      4 * (cap * one) = (2 ^ 55 - 6) * 2 ^ greatestShift ∧ cap < 10 ^ (greatestPower + 1) ∧
      greatestPart freePower = 2 ^ 64 - 1 ∧
      ∀ k ≤ 20, ((ofFraction? false (greatestPart (freePower + k)) 1).any fun t =>
        2 * (t.magnitude * (powerOfTen (freePower + k)).magnitude) < limit * one) = true := by
  decide +kernel

/-! ## The steps -/

theorem rounds_powerOfTen {power : Nat} (few : power ≤ greatestPower) :
    Rounds (powerOfTen power) (10 ^ power * one) 1 := by
  obtain ⟨most, _⟩ := bounds_compare
  have least : 10 ^ power ≤ 10 ^ greatestPower := Nat.pow_le_pow_right (by decide) few
  have below : 2 * (10 ^ power * one) < limit * 1 :=
    (Nat.mul_le_mul_left 2 (Nat.mul_le_mul_right one least)).trans_lt most
  obtain ⟨d, found, rounds⟩ := exists_ofSteps? Nat.one_pos below false
  have same : powerOfTen power = d := by
    rw [powerOfTen, ofFraction?, Nat.pow_eq, found, Option.getD_some]
  exact same ▸ rounds

theorem magnitude_powerOfTen_le {power greater : Nat} (fewer : power ≤ greater)
    (few : greater ≤ greatestPower) :
    (powerOfTen power).magnitude ≤ (powerOfTen greater).magnitude := by
  refine (rounds_powerOfTen (fewer.trans few)).magnitude_le_of_le Nat.one_pos
    (rounds_powerOfTen few) ?_
  exact Nat.mul_le_mul_right one (Nat.pow_le_pow_right (by decide) fewer)

theorem one_le_magnitude_powerOfTen {power : Nat} (few : power ≤ greatestPower) :
    one ≤ (powerOfTen power).magnitude := by
  have least := magnitude_powerOfTen_le (Nat.zero_le power) few
  simpa only [magnitude_powerOfTen (Nat.zero_le 22), Nat.pow_zero, Nat.one_mul] using least

/-- Division by a power of ten stays finite. -/
theorem exists_scaleDown? (a : Double) (power : Nat) : ∃ d, scaleDown? a power = some d := by
  induction power using Nat.strong_induction_on generalizing a with
  | _ power ih =>
    have step {p : Nat} (few : p ≤ greatestPower) : ∃ d, divMagnitude? a (powerOfTen p) = some d := by
      have large := one_le_magnitude_powerOfTen few
      have below : 2 * (a.magnitude * one) < limit * (powerOfTen p).magnitude :=
        calc 2 * (a.magnitude * one) = 2 * a.magnitude * one := (Nat.mul_assoc _ _ _).symm
          _ < limit * one := Nat.mul_lt_mul_of_pos_right a.two_mul_magnitude_lt Double.one_pos
          _ ≤ limit * (powerOfTen p).magnitude := Nat.mul_le_mul_left limit large
      obtain ⟨d, found, _⟩ := exists_ofSteps? (Double.one_pos.trans_le large) below false
      exact ⟨d, found⟩
    rw [scaleDown?]
    split
    · next few => exact step few
    · split
      · exact ⟨a, rfl⟩
      · obtain ⟨d, found⟩ := step (show 308 ≤ greatestPower from Nat.le_refl _)
        rw [found, Option.bind_some]
        exact ih (power - 308) (by omega) d

/-- The greatest significand that stays below the cap does so with both factors rounded. -/
theorem two_mul_greatestPart_lt {power : Nat} (many : freePower ≤ power)
    (few : power ≤ greatestPower) :
    ∃ t, ofFraction? false (greatestPart power) 1 = some t ∧
      2 * (t.magnitude * (powerOfTen power).magnitude) < limit * one := by
  obtain ⟨_, _, _, _, _, all⟩ := bounds_compare
  obtain ⟨k, rfl⟩ := Nat.exists_eq_add_of_le many
  obtain ⟨t, found, below⟩ :=
    (Option.any_eq_true _ _).mp (all k (Nat.le_of_add_le_add_left few))
  exact ⟨t, found, of_decide_eq_true below⟩

/-- Multiplication by a power of ten stays finite below the cap. -/
theorem exists_scaleUp? {a : Double} {significand power : Nat} (fits : significand < 2 ^ 64)
    (read : ofFraction? false significand 1 = some a) (below : significand * 10 ^ power ≤ cap) :
    ∃ d, scaleUp? a power = some d := by
  rcases Nat.lt_or_ge greatestPower power with many | few
  · have none : significand = 0 := by
      by_contra some
      obtain ⟨_, _, _, large, _⟩ := bounds_compare
      have more : 10 ^ (greatestPower + 1) ≤ 10 ^ power := Nat.pow_le_pow_right (by decide) many
      have product := Nat.le_mul_of_pos_left (10 ^ power) (Nat.pos_of_ne_zero some)
      exact absurd (large.trans_le (more.trans (product.trans below))) (Nat.lt_irrefl _)
    rw [none, ofFraction?, Nat.zero_mul, ofSteps?_zero] at read
    cases read
    exact ⟨_, scaleUp?_zero power⟩
  · obtain ⟨top, atMost, reaches, last⟩ : ∃ top, power ≤ top ∧
        significand ≤ greatestPart top ∧ freePower ≤ top ∧ top ≤ greatestPower := by
      rcases Nat.le_total freePower power with large | small
      · refine ⟨power, Nat.le_refl _, Nat.le_min.mpr ⟨?_, Nat.le_sub_one_of_lt fits⟩, large, few⟩
        exact (Nat.le_div_iff_mul_le (Nat.pow_pos (by decide))).mpr below
      · refine ⟨freePower, small, ?_, Nat.le_refl _, by decide⟩
        obtain ⟨_, _, _, _, all, _⟩ := bounds_compare
        exact all ▸ Nat.le_sub_one_of_lt fits
    obtain ⟨t, greatest, bound⟩ := two_mul_greatestPart_lt last.1 last.2
    have first : a.magnitude ≤ t.magnitude := by
      have left := (rounds_of_ofSteps? Nat.one_pos read).2
      have right := (rounds_of_ofSteps? Nat.one_pos greatest).2
      exact left.magnitude_le_of_le Nat.one_pos right (Nat.mul_le_mul_right one reaches)
    have second := magnitude_powerOfTen_le atMost last.2
    have product : 2 * (a.magnitude * (powerOfTen power).magnitude) < limit * one :=
      (Nat.mul_le_mul_left 2 (Nat.mul_le_mul first second)).trans_lt bound
    obtain ⟨d, found, _⟩ := exists_ofSteps? Double.one_pos product false
    exact ⟨d, by rw [scaleUp?, if_pos (show power ≤ 308 from few)]; exact found⟩

/-- A significand of 64 bits and a power of ten that stay below the cap are read as a double. -/
theorem exists_fromParts? {significand : Nat} {exponent : Int} (fits : significand < 2 ^ 64)
    (below : 0 ≤ exponent → significand * 10 ^ exponent.toNat ≤ cap) (negative : Bool) :
    ∃ d, fromParts? negative significand exponent = some d := by
  obtain ⟨_, room, _⟩ := bounds_compare
  have short : 2 * (significand * one) < limit * 1 :=
    (Nat.mul_le_mul_left 2 (Nat.mul_le_mul_right one fits.le)).trans_lt room
  obtain ⟨a, read, _⟩ := exists_ofSteps? Nat.one_pos short false
  obtain ⟨d, scaled⟩ : ∃ d, (if 0 ≤ exponent then scaleUp? a exponent.toNat
      else scaleDown? a (-exponent).toNat) = some d := by
    split
    · next up => exact exists_scaleUp? fits read (below up)
    · exact exists_scaleDown? a _
  refine ⟨d.withSign negative, ?_⟩
  rw [fromParts?, ofFraction?, read, Option.bind_some, scaled]
  rfl

/-! ## Numerals -/

/-- What is collected of some digits, with zeros for the digits left over, is at most their value. -/
theorem collect_le (digits : List Char) {n : Nat} (fits : n < 2 ^ 64) :
    (collect n digits).1 < 2 ^ 64 ∧
      (collect n digits).1 * 10 ^ (collect n digits).2.length ≤ Nat.ofDigitChars 10 digits n := by
  induction digits generalizing n with
  | nil => exact ⟨fits, by simp [collect]⟩
  | cons c rest ih =>
    rw [collect]
    split
    · next more => exact ih more
    · refine ⟨fits, ?_⟩
      rw [Nat.ofDigitChars_eq_ofDigitChars_zero, Nat.mul_comm n]
      exact Nat.le_add_right _ _

/-- A double other than the greatest lies below the cap, with half of its own step. -/
theorem upper_le_cap {d : Double}
    (other : ¬(d.significand + 1 = 2 ^ 53 ∧ d.shift = greatestShift)) :
    4 * d.magnitude + 2 * 2 ^ d.shift ≤ 4 * (cap * one) := by
  obtain ⟨_, _, room, _⟩ := bounds_compare
  have some := Nat.two_pow_pos greatestShift
  have within : d.shift ≤ greatestShift := d.canonical.2.1
  refine le_of_le_of_eq ?_ room.symm
  clear room
  rcases Nat.lt_or_eq_of_le within with finer | last
  · have below := magnitude_lt finer
    have step : 2 ^ (d.shift + 1) ≤ 2 ^ greatestShift := Nat.pow_le_pow_right Nat.two_pos finer
    rw [Nat.pow_succ] at step
    generalize 2 ^ greatestShift = w at *
    omega
  · have less : d.significand + 1 ≤ 2 ^ 53 - 1 := by
      have short : d.significand < 2 ^ 53 := d.canonical.1
      have notLast : d.significand + 1 ≠ 2 ^ 53 := fun same => other ⟨same, last⟩
      omega
    have product : (d.significand + 1) * 2 ^ greatestShift ≤ (2 ^ 53 - 1) * 2 ^ greatestShift :=
      Nat.mul_le_mul_right _ less
    rw [Nat.add_mul] at product
    rw [magnitude, last, Nat.pow_eq]
    generalize 2 ^ greatestShift = w at *
    omega

section

variable {n : Numeral} {d : Double}

/-- A numeral that is nearest to another double than the greatest denotes at most the cap. -/
theorem digits_mul_le_cap (found : ofDecimal? n.negative n.digits n.power = some d)
    (other : ¬(d.significand + 1 = 2 ^ 53 ∧ d.shift = greatestShift)) :
    n.digits * 10 ^ n.power.toNat ≤ cap * 10 ^ (-n.power).toNat := by
  by_cases zeros : n.digits = 0
  · rw [zeros, Nat.zero_mul]
    exact Nat.zero_le _
  · obtain ⟨_, rounds⟩ := rounds_of_ofDecimal? zeros found
    refine Nat.le_of_mul_le_mul_right ?_ (Nat.mul_pos (show 0 < 4 by decide) Double.one_pos)
    calc n.digits * 10 ^ n.power.toNat * (4 * one)
        = 4 * (n.digits * 10 ^ n.power.toNat * one) := Nat.mul_left_comm _ _ _
      _ ≤ (4 * d.magnitude + 2 * 2 ^ d.shift) * 10 ^ (-n.power).toNat := rounds.upper
      _ ≤ 4 * (cap * one) * 10 ^ (-n.power).toNat := Nat.mul_le_mul_right _ (upper_le_cap other)
      _ = cap * 10 ^ (-n.power).toNat * (4 * one) := by
        rw [Nat.mul_left_comm 4 cap one, Nat.mul_right_comm]

/-- What is kept of some digits stays below a bound with the power of ten that makes up for the
digits left over. -/
theorem mul_pow_le_bound {kept left digits bound : Nat} {power : Int} (part : kept * 10 ^ left ≤ digits)
    (below : digits * 10 ^ power.toNat ≤ bound * 10 ^ (-power).toNat) (up : 0 ≤ power + left) :
    kept * 10 ^ (power + left).toNat ≤ bound := by
  rcases Int.le_total 0 power with large | small
  · have sum : (power + left).toNat = left + power.toNat := by omega
    have none : (-power).toNat = 0 := by omega
    calc kept * 10 ^ (power + left).toNat = kept * 10 ^ left * 10 ^ power.toNat := by
          rw [sum, Nat.pow_add, Nat.mul_assoc]
      _ ≤ digits * 10 ^ power.toNat := Nat.mul_le_mul_right _ part
      _ ≤ bound := by rwa [none, Nat.pow_zero, Nat.mul_one] at below
  · have sum : left = (power + left).toNat + (-power).toNat := by omega
    have none : power.toNat = 0 := by omega
    rw [none, Nat.pow_zero, Nat.mul_one] at below
    have scale : 0 < 10 ^ (-power).toNat := Nat.pow_pos (by decide)
    refine Nat.le_of_mul_le_mul_right ?_ scale
    calc kept * 10 ^ (power + left).toNat * 10 ^ (-power).toNat = kept * 10 ^ left := by
          rw [Nat.mul_assoc, ← Nat.pow_add, ← sum]
      _ ≤ bound * 10 ^ (-power).toNat := part.trans below

/-- A numeral with an integer part of 64 bits that is nearest to another double than the greatest is
read in steps as a double. -/
theorem exists_stepwise? (marked : n.isInteger = false) (short : digitsValue n.whole < 2 ^ 64)
    (read : n.nearest? = some (.double d))
    (other : ¬(d.significand + 1 = 2 ^ 53 ∧ d.shift = greatestShift)) :
    ∃ b, n.stepwise? = some b := by
  obtain ⟨nearest, found, same⟩ := (nearest?_eq_some_iff marked).mp read
  cases same
  have collected : collect 0 n.whole = (digitsValue n.whole, []) := collect_eq short
  obtain ⟨fits, atMost⟩ := collect_le n.fraction short
  have all : Nat.ofDigitChars 10 n.fraction (digitsValue n.whole) = n.digits :=
    (Nat.ofDigitChars_append 0).symm
  rw [all] at atMost
  have below := digits_mul_le_cap found other
  rw [stepwise?, collected, marked]
  simp only [Bool.false_eq_true, false_and, if_false]
  generalize collect (digitsValue n.whole) n.fraction = kept at fits atMost ⊢
  have exponent : n.exponent.getD 0 + ((([] : List Char).length : Nat) : Int) -
      ((n.fraction.length : Int) - kept.2.length) = n.power + kept.2.length := by
    rw [power, List.length_nil]
    omega
  rw [exponent]
  obtain ⟨double, scaled⟩ := exists_fromParts? fits (fun up => mul_pow_le_bound atMost below up)
    n.negative
  exact ⟨.double double, by rw [scaled]; rfl⟩

end

end Numeral

/-! ## Numbers that are written -/

theorem digitsValue_lt {digits : List Char} (all : AllDigits digits) :
    digitsValue digits < 10 ^ digits.length := by
  induction digits using List.reverseRecOn with
  | nil => exact Nat.one_pos
  | append_singleton digits c ih =>
    have before := ih fun d listed => all d (List.mem_append_left _ listed)
    have digit : digitValue c < 10 := by
      have bounds : 48 ≤ c.toNat ∧ c.toNat ≤ 57 := Char.isDigit_iff_toNat.mp (all c (by simp))
      have zero : '0'.toNat = 48 := rfl
      rw [digitValue, zero]
      omega
    rw [digitsValue, List.foldl_append, List.length_append, List.length_singleton, Nat.pow_succ]
    change 10 * digitsValue digits + digitValue c < _
    omega

/-- A double is written with sixteen digits before the point at most. -/
theorem NumberLayout.length_whole_standard (negative : Bool) (d : Decimal) :
    (standard.numeral negative d).whole.length ≤ 16 := by
  have greatest : standard.greatest = 15 := rfl
  unfold numeral
  dsimp only
  split
  · rw [Numeral.scientific, List.length_take]
    omega
  · split
    · rw [Numeral.pointed, List.length_append, List.length_take, List.length_replicate]
      omega
    · exact (by decide : 1 ≤ 16)

namespace Number

/-- A number that stays what it is when its text is read in steps. -/
def Steady (n : Number) : Prop := n.numeral.stepwise? = some n

theorem steady_integer (n : Int) (fits : Integral n) : Steady (integer n fits) := by
  have value := signedValue_toDigits n
  have plain : ¬(decide (n < 0) = true ∧ digitsValue (Nat.toDigits 10 n.natAbs) = 0) := by
    rw [digitsValue_toDigits, decide_eq_true_eq]
    omega
  have read := Numeral.stepwise?_integer (value.symm ▸ fits) plain
  simp only [value] at read
  exact read

/-- A double is steady if reading its digits and scaling them rounds once at most. -/
theorem steady_of_roundedOnce {d : Double} (once : (numeral (.double d)).RoundedOnce) :
    Steady (.double d) := by
  have spells := NumberLayout.standard.numeral_spells d.negative d.shortest
  exact Numeral.stepwise?_of_roundedOnce spells.notInteger once (nearest?_numeral _)

theorem steady_greatest (negative : Bool) :
    Steady (.double ⟨negative, 2 ^ 53 - 1, Double.greatestShift, by decide⟩) := by
  unfold Steady
  cases negative <;> decide +kernel

/-- Every number that is written is read in steps as a number. -/
theorem exists_stepwise?_numeral (n : Number) : ∃ a, n.numeral.stepwise? = some a := by
  cases n with
  | integer n fits => exact ⟨_, steady_integer n fits⟩
  | double d =>
    by_cases last : d.significand + 1 = 2 ^ 53 ∧ d.shift = Double.greatestShift
    · obtain ⟨negative, significand, shift, canonical⟩ := d
      obtain ⟨longest, rfl⟩ := last
      cases Nat.succ.inj longest
      exact ⟨_, steady_greatest negative⟩
    · have spells := NumberLayout.standard.numeral_spells d.negative d.shortest
      refine Numeral.exists_stepwise? spells.notInteger ?_ (nearest?_numeral (.double d)) last
      have few := NumberLayout.length_whole_standard d.negative d.shortest
      calc digitsValue (NumberLayout.standard.numeral d.negative d.shortest).whole
          < 10 ^ (NumberLayout.standard.numeral d.negative d.shortest).whole.length :=
            digitsValue_lt spells.wholeDigits
        _ ≤ 10 ^ 16 := Nat.pow_le_pow_right (by decide) few
        _ < 2 ^ 64 := by decide

/-- The number that the text of a number is read as. -/
def reread (n : Number) : Number := n.numeral.stepwise?.getD n

theorem stepwise?_numeral (n : Number) : n.numeral.stepwise? = some n.reread := by
  obtain ⟨a, read⟩ := n.exists_stepwise?_numeral
  rw [reread, read, Option.getD_some]

theorem steady_iff {n : Number} : n.Steady ↔ n.reread = n := by
  rw [Steady, stepwise?_numeral, Option.some.injEq]

end Number

end JsonShape
