import JsonShape.Proofs.Number.Rounding
import Mathlib.Algebra.Order.Field.Rat
import Mathlib.Tactic.Positivity

/-!
# Nearest doubles

The double that a fraction of steps, or an integer, is rounded to is the nearest one.

* `Double.rounds_of_roundSteps` is the converse of `Double.Rounds.roundSteps_eq`: a rounded
  fraction lies between the halves to the neighbours of its double.
* `Double.magnitude_add_le` and `Double.magnitude_add_lowerGap_le`: between a double and its
  neighbours there is no other double.  So no double is nearer to a number of steps than the one
  that it is rounded to (`Double.Rounds.closest`), and `Double.Rounds.isNearest_iff` says so of
  values.
* `Double.scaledOfInt_eq_iff`: the doubles of the value that an integer is rounded to are those that
  are nearest to it, a half going to the even significand.
-/

namespace JsonShape.Double

/-! ## What rounding leads to -/

theorem nearest_divideNearest {n m : Nat} (positive : 0 < m) : Nearest (divideNearest n m) n m := by
  have split : n = n / m * m + n % m := by rw [Nat.div_add_mod' n m]
  have small : n % m < m := Nat.mod_lt n positive
  unfold divideNearest
  dsimp only
  generalize n / m = q at *
  generalize n % m = r at *
  split
  · exact ⟨by omega, by omega, by omega, by omega⟩
  · have next : (q + 1) * m = q * m + m := by ring
    split
    · exact ⟨by omega, by omega, by omega, by omega⟩
    · split
      · exact ⟨by omega, by omega, by omega, by omega⟩
      · exact ⟨by omega, by omega, by omega, by omega⟩

/-- Less its excess a quotient has at most 53 bits, and exactly as many if it has an excess. -/
theorem excessBits_bounds {n m : Nat} (positive : 0 < m) :
    n < 2 ^ 53 * (m * 2 ^ excessBits n m) ∧
      (excessBits n m ≠ 0 → 2 ^ 52 * (m * 2 ^ excessBits n m) ≤ n) := by
  have most : n / m < 2 ^ ((n / m).log2 + 1) := Nat.lt_log2_self
  rcases Nat.lt_or_ge (n / m).log2 53 with short | long
  · have none : excessBits n m = 0 := by
      unfold excessBits
      omega
    have fits : n / m < 2 ^ 53 :=
      most.trans_le (Nat.pow_le_pow_right Nat.two_pos (by omega))
    rw [none, Nat.pow_zero, Nat.mul_one]
    exact ⟨(Nat.div_lt_iff_lt_mul positive).mp fits, fun some => absurd rfl some⟩
  · obtain ⟨e, bits⟩ := Nat.exists_eq_add_of_le long
    have excess : excessBits n m = e + 1 := by
      unfold excessBits
      omega
    have nonzero : n / m ≠ 0 := by
      intro zero
      rw [zero] at long
      exact absurd long (by decide)
    have least : 2 ^ (n / m).log2 ≤ n / m := Nat.log2_self_le nonzero
    rw [bits] at most least
    rw [excess]
    constructor
    · calc n < 2 ^ (53 + e + 1) * m := (Nat.div_lt_iff_lt_mul positive).mp most
        _ = 2 ^ 53 * (m * 2 ^ (e + 1)) := by ring
    · intro _
      calc 2 ^ 52 * (m * 2 ^ (e + 1)) = 2 ^ (53 + e) * m := by ring
        _ ≤ n := (Nat.le_div_iff_mul_le positive).mp least

/-- A width is two of the next shift below. -/
theorem mul_pow_succ (m e : Nat) : m * 2 ^ (e + 1) = 2 * (m * 2 ^ e) := by ring

section Rounds

variable {d : Double} {n m : Nat}

/-- The halves around a shifted power of two, in widths of the shift below. -/
theorem rounds_of_lowest {e : Nat} (lowest : d.significand = 2 ^ 52) (next : d.shift = e + 1)
    (lower : 2 * (2 ^ 53 * (m * 2 ^ e)) ≤ 2 * n + m * 2 ^ e)
    (upper : n ≤ 2 ^ 53 * (m * 2 ^ e) + m * 2 ^ e) : Rounds d n m := by
  have bottom := lower_eq_of_lowest lowest next m
  have top := upper_eq d m
  have even : d.significand % 2 = 0 := by
    rw [lowest]
    rfl
  rw [lowest, next, mul_pow_succ m] at top
  refine ⟨by omega, ?_, fun _ => even⟩
  rw [next]
  omega

/-- Where no bit is carried, the quotient is rounded at the shift of the double. -/
theorem rounds_of_nearest (near : Nearest d.significand n (m * 2 ^ d.shift))
    (normal : d.shift ≠ 0 → 2 ^ 52 * (m * 2 ^ d.shift) ≤ n) : Rounds d n m := by
  obtain ⟨lower, upper, tieLower, tieUpper⟩ := near
  by_cases plain : d.significand = 2 ^ 52 ∧ d.shift ≠ 0
  · obtain ⟨lowest, shifted⟩ := plain
    obtain ⟨e, next⟩ : ∃ e, d.shift = e + 1 := Nat.exists_eq_succ_of_ne_zero shifted
    have above := normal shifted
    rw [next, mul_pow_succ m] at above upper
    rw [lowest] at upper
    exact rounds_of_lowest lowest next (by omega) (by omega)
  · have bottom := lower_eq plain m
    have top := upper_eq d m
    refine ⟨by omega, by omega, ?_⟩
    rintro (half | half)
    · rcases Nat.eq_zero_or_pos d.significand with zero | some
      · rw [zero]
      · have fits : m * 2 ^ d.shift ≤ d.significand * (m * 2 ^ d.shift) :=
          Nat.le_mul_of_pos_left _ some
        apply tieLower
        omega
    · apply tieUpper
      omega

/-- A quotient that is rounded to a double lies between the halves to its neighbours. -/
theorem rounds_of_roundSteps (positive : 0 < m)
    (rounded : roundSteps n m = (d.significand, d.shift)) : Rounds d n m := by
  have near : Nearest _ n (m * 2 ^ excessBits n m) :=
    nearest_divideNearest (Nat.mul_pos positive (Nat.two_pow_pos _))
  have bounds := excessBits_bounds (n := n) positive
  simp only [roundSteps, Nat.pow_eq] at rounded
  split at rounded
  · rename_i carry
    obtain ⟨lowest, next⟩ := Prod.mk.inj rounded
    obtain ⟨lower, upper, _, _⟩ := near
    rw [carry] at lower upper
    exact rounds_of_lowest lowest.symm next.symm lower (by omega)
  · obtain ⟨significand, shift⟩ := Prod.mk.inj rounded
    rw [significand, shift] at near
    rw [shift] at bounds
    exact rounds_of_nearest near bounds.2

end Rounds

/-! ## The spacing of doubles -/

theorem magnitude_le {d : Double} {t : Nat} (within : d.shift ≤ t) :
    d.magnitude ≤ (2 ^ 53 - 1) * 2 ^ t :=
  Nat.mul_le_mul (Nat.le_sub_one_of_lt d.canonical.1) (Nat.pow_le_pow_right Nat.two_pos within)

/-- A double whose shift is smaller lies below all significands of a shift. -/
theorem magnitude_lt {d : Double} {t : Nat} (less : d.shift < t) :
    d.magnitude < 2 ^ 52 * 2 ^ t := by
  obtain ⟨k, rfl⟩ := Nat.exists_eq_add_of_lt less
  have bound := magnitude_le (d := d) (Nat.le_add_right d.shift k)
  have some := Nat.two_pow_pos (d.shift + k)
  rw [Nat.pow_succ]
  omega

theorem magnitude_eq_mul {d : Double} {t : Nat} (within : t ≤ d.shift) :
    d.magnitude = d.significand * 2 ^ (d.shift - t) * 2 ^ t := by
  rw [magnitude, Nat.mul_assoc, ← Nat.pow_add, Nat.sub_add_cancel within]
  rfl

theorem le_magnitude {d : Double} (shifted : d.shift ≠ 0) : 2 ^ 52 * 2 ^ d.shift ≤ d.magnitude :=
  Nat.mul_le_mul_right _ (d.canonical.2.2 shifted)

/-- Among multiples of a power of two there is none between neighbours. -/
theorem mul_pow_add_le {a b t : Nat} (less : a * 2 ^ t < b * 2 ^ t) :
    a * 2 ^ t + 2 ^ t ≤ b * 2 ^ t := by
  have next : a + 1 ≤ b := Nat.lt_of_mul_lt_mul_right less
  calc a * 2 ^ t + 2 ^ t = (a + 1) * 2 ^ t := by ring
    _ ≤ b * 2 ^ t := Nat.mul_le_mul_right _ next

/-- Above a double the next one is a whole step of its significand away. -/
theorem magnitude_add_le {a b : Double} (less : a.magnitude < b.magnitude) :
    a.magnitude + 2 ^ a.shift ≤ b.magnitude := by
  rcases Nat.lt_or_ge b.shift a.shift with finer | coarser
  · have above := le_magnitude (d := a) (by omega)
    have below := magnitude_lt finer
    omega
  · rw [magnitude_eq_mul coarser] at less ⊢
    exact mul_pow_add_le less

theorem lowerGap_eq {d : Double} (plain : ¬(d.significand = 2 ^ 52 ∧ d.shift ≠ 0)) :
    d.lowerGap = 2 * 2 ^ d.shift := if_neg plain

/-- A shifted power of two, and its gap, in steps of the double below it. -/
theorem lowerGap_eq_of_lowest {d : Double} {t : Nat} (lowest : d.significand = 2 ^ 52)
    (next : d.shift = t + 1) : d.magnitude = 2 ^ 53 * 2 ^ t ∧ d.lowerGap = 2 * 2 ^ t := by
  have shifted : d.significand = Nat.pow 2 52 ∧ d.shift ≠ 0 := ⟨lowest, by omega⟩
  rw [lowerGap, if_pos shifted, magnitude, lowest, next, Nat.pow_eq, Nat.pow_succ]
  omega

/-- Below a double the next one is twice the gap to the half between them away. -/
theorem magnitude_add_lowerGap_le {a b : Double} (less : a.magnitude < b.magnitude) :
    2 * a.magnitude + b.lowerGap ≤ 2 * b.magnitude := by
  by_cases plain : b.significand = 2 ^ 52 ∧ b.shift ≠ 0
  · obtain ⟨t, next⟩ : ∃ t, b.shift = t + 1 := Nat.exists_eq_succ_of_ne_zero plain.2
    obtain ⟨lowest, gap⟩ := lowerGap_eq_of_lowest plain.1 next
    rcases Nat.lt_or_ge t a.shift with coarser | finer
    · rw [magnitude_eq_mul (Nat.le_of_lt coarser), lowest] at less ⊢
      have apart := mul_pow_add_le less
      omega
    · have bound := magnitude_le finer
      have some := Nat.two_pow_pos t
      omega
  · have gap := lowerGap_eq plain
    have same : b.magnitude = b.significand * 2 ^ b.shift := rfl
    rcases Nat.lt_or_ge a.shift b.shift with finer | coarser
    · have below := magnitude_lt finer
      have higher : 2 ^ 52 + 1 ≤ b.significand := by
        have normal : 2 ^ 52 ≤ b.significand := b.canonical.2.2 (by omega)
        omega
      have above : (2 ^ 52 + 1) * 2 ^ b.shift ≤ b.magnitude := Nat.mul_le_mul_right _ higher
      omega
    · rw [magnitude_eq_mul coarser] at less ⊢
      have apart := mul_pow_add_le (same ▸ less)
      omega

/-- A double that is an odd multiple of a power of two, and not below the significands of that
shift, has an odd significand. -/
theorem odd_of_magnitude_eq {d : Double} {k t : Nat} (same : d.magnitude = k * 2 ^ t)
    (large : t = 0 ∨ 2 ^ 52 ≤ k) (odd : k % 2 = 1) : d.significand % 2 = 1 := by
  have within : t ≤ d.shift := by
    by_contra finer
    have below := magnitude_lt (d := d) (t := t) (by omega)
    have above : 2 ^ 52 * 2 ^ t ≤ k * 2 ^ t := Nat.mul_le_mul_right _ (by omega)
    omega
  have factor : d.significand * 2 ^ (d.shift - t) = k := by
    rw [magnitude_eq_mul within] at same
    exact Nat.eq_of_mul_eq_mul_right (Nat.two_pow_pos t) same
  rw [← factor] at odd
  exact Nat.odd_iff.mp (Nat.odd_mul.mp (Nat.odd_iff.mpr odd)).1

/-- Right above a double with an even significand, the significand is odd. -/
theorem odd_above {a b : Double} (next : a.magnitude + 2 ^ a.shift = b.magnitude)
    (even : a.significand % 2 = 0) : b.significand % 2 = 1 := by
  apply odd_of_magnitude_eq (k := a.significand + 1) (t := a.shift)
  · rw [← next, magnitude, Nat.pow_eq]
    ring
  · rcases Nat.eq_zero_or_pos a.shift with whole | shifted
    · exact .inl whole
    · have normal := a.canonical.2.2 (by omega)
      exact .inr (Nat.le_succ_of_le normal)
  · omega

/-- Right below a double with an even significand, the significand is odd. -/
theorem odd_below {a b : Double} (next : 2 * a.magnitude + b.lowerGap = 2 * b.magnitude)
    (even : b.significand % 2 = 0) (less : a.magnitude < b.magnitude) :
    a.significand % 2 = 1 := by
  by_cases plain : b.significand = 2 ^ 52 ∧ b.shift ≠ 0
  · obtain ⟨t, shifted⟩ : ∃ t, b.shift = t + 1 := Nat.exists_eq_succ_of_ne_zero plain.2
    obtain ⟨lowest, gap⟩ := lowerGap_eq_of_lowest plain.1 shifted
    apply odd_of_magnitude_eq (k := 2 ^ 53 - 1) (t := t)
    · omega
    · exact .inr (by decide)
    · decide
  · have gap := lowerGap_eq plain
    have same : b.magnitude = b.significand * 2 ^ b.shift := rfl
    have some : 0 < b.significand := by
      apply Nat.pos_of_ne_zero
      intro zero
      rw [zero, Nat.zero_mul] at same
      omega
    apply odd_of_magnitude_eq (k := b.significand - 1) (t := b.shift)
    · rw [Nat.sub_mul]
      omega
    · rcases Nat.eq_zero_or_pos b.shift with whole | shifted
      · exact .inl whole
      · have normal : 2 ^ 52 ≤ b.significand := b.canonical.2.2 (by omega)
        exact .inr (by omega)
    · omega

/-! ## The nearest double -/

theorem excessBits_le {n m k : Nat} (positive : 0 < m) (short : n < 2 ^ 52 * (m * 2 ^ (k + 1))) :
    excessBits n m ≤ k := by
  by_contra more
  obtain ⟨_, normal⟩ := excessBits_bounds (n := n) positive
  have wide : 2 ^ 52 * (m * 2 ^ (k + 1)) ≤ 2 ^ 52 * (m * 2 ^ excessBits n m) :=
    Nat.mul_le_mul_left _ (Nat.mul_le_mul_left _ (Nat.pow_le_pow_right Nat.two_pos (by omega)))
  have long := normal (by omega)
  omega

/-- Unless its excess is too large, a quotient is rounded to a double. -/
theorem roundSteps_canonical {n m : Nat} (positive : 0 < m) (small : excessBits n m < 2045) :
    Canonical (roundSteps n m).1 (roundSteps n m).2 := by
  have width : 0 < m * 2 ^ excessBits n m := Nat.mul_pos positive (Nat.two_pow_pos _)
  have near := nearest_divideNearest (n := n) width
  obtain ⟨short, normal⟩ := excessBits_bounds (n := n) positive
  simp only [roundSteps, Nat.pow_eq]
  generalize divideNearest n (m * 2 ^ excessBits n m) = q at *
  generalize m * 2 ^ excessBits n m = w at *
  obtain ⟨lower, upper, _, _⟩ := near
  split
  · exact ⟨Nat.pow_lt_pow_right Nat.one_lt_two (by decide), Nat.succ_le_of_lt small,
      fun _ => Nat.le_refl _⟩
  · have most : q ≤ 2 ^ 53 := by
      by_contra more
      have above : (2 ^ 53 + 1) * w ≤ q * w := Nat.mul_le_mul_right w (Nat.lt_of_not_le more)
      omega
    refine ⟨lt_of_le_of_ne most ‹_›, Nat.le_of_lt small, fun some => ?_⟩
    by_contra less
    have below : (q + 1) * w ≤ 2 ^ 52 * w := Nat.mul_le_mul_right w (Nat.lt_of_not_le less)
    have long := normal some
    rw [Nat.add_mul] at below
    omega

/-- The distance of a double from a fraction of steps, in parts of a step. -/
def distance (d : Double) (x : Int) (m : Nat) : Nat := (x - m * d.scaled).natAbs

theorem scaled_natAbs (d : Double) : d.scaled.natAbs = d.magnitude := by
  unfold scaled
  split
  · exact Int.natAbs_neg _
  · rfl

/-- A double of a fraction's sign is as far from it as their sizes are apart. -/
theorem distance_of_sign {d : Double} {x : Int} (sign : d.negative = decide (x < 0)) (m : Nat) :
    d.distance x m = (x.natAbs - d.magnitude * m) + (d.magnitude * m - x.natAbs) := by
  have product : (m : Int) * d.magnitude = (d.magnitude * m : Nat) := by
    rw [Int.mul_comm, Int.natCast_mul]
  unfold distance scaled
  by_cases below : x < 0
  · rw [sign, decide_eq_true below, if_pos rfl, Int.mul_neg, product]
    omega
  · rw [sign, decide_eq_false below, if_neg Bool.false_ne_true, product]
    omega

/-- No double is nearer to a fraction than their sizes are to each other. -/
theorem le_distance (d : Double) (x : Int) (m : Nat) :
    (x.natAbs - d.magnitude * m) + (d.magnitude * m - x.natAbs) ≤ d.distance x m := by
  have size : ((m : Int) * d.scaled).natAbs = d.magnitude * m := by
    rw [Int.natAbs_mul, Int.natAbs_natCast, scaled_natAbs, Nat.mul_comm]
  unfold distance
  omega

/-- Only zero is as far from a fraction as the double of the other sign, unless the fraction itself
is zero. -/
theorem scaled_eq_of_distance_eq {a b : Double} {x : Int} {m : Nat} (positive : 0 < m)
    (same : a.magnitude = b.magnitude) (tied : b.distance x m = a.distance x m)
    (zero : x = 0 → b.magnitude = 0) : a.scaled = b.scaled := by
  have size := b.scaled_natAbs
  rw [← scaled_natAbs, ← scaled_natAbs] at same
  rcases Int.natAbs_eq_natAbs_iff.mp same with equal | opposite
  · exact equal
  · unfold distance at tied
    rw [opposite, Int.mul_neg] at tied
    have both : x = 0 ∨ (m : Int) * b.scaled = 0 := by omega
    have none : b.scaled = 0 := by
      rcases both with nothing | product
      · have bound := zero nothing
        omega
      · exact (Int.mul_eq_zero.mp product).resolve_left (by omega)
    omega

/-- Zero is rounded to zero. -/
theorem Rounds.magnitude_eq_zero {r : Double} {m : Nat} (positive : 0 < m) (rounds : Rounds r 0 m) :
    r.magnitude = 0 := by
  by_contra some
  have none : (Double.zero false).magnitude = 0 := Nat.zero_mul _
  have gap := magnitude_add_lowerGap_le (a := .zero false) (b := r) (by omega)
  have wide : 0 < (4 * r.magnitude - r.lowerGap) * m := Nat.mul_pos (by omega) positive
  have lower := rounds.lower
  omega

/-- The double that a fraction of steps is rounded to, with the sign of that fraction, is at most as
far from it as any other; where another one is as far, that one has the odd significand. -/
theorem Rounds.closest {r : Double} {x : Int} {m : Nat} (positive : 0 < m)
    (rounds : Rounds r x.natAbs m) (sign : r.negative = decide (x < 0)) (e : Double) :
    r.distance x m ≤ e.distance x m ∧
      (r.distance x m = e.distance x m →
        e.scaled = r.scaled ∨ r.significand % 2 = 0 ∧ e.significand % 2 = 1) := by
  have zeroRounds : x = 0 → r.magnitude = 0 := by
    rintro rfl
    exact rounds.magnitude_eq_zero positive
  obtain ⟨lower, upper, tie⟩ := rounds
  rw [Nat.sub_mul, Nat.mul_assoc] at lower tie
  rw [Nat.add_mul, Nat.mul_assoc, Nat.mul_assoc] at upper tie
  have own := distance_of_sign sign m
  have other := e.le_distance x m
  rcases Nat.lt_trichotomy e.magnitude r.magnitude with less | same | more
  · have apart := Nat.mul_le_mul_right m (magnitude_add_lowerGap_le less)
    have wide := Nat.mul_lt_mul_of_pos_right less positive
    rw [Nat.add_mul, Nat.mul_assoc, Nat.mul_assoc] at apart
    refine ⟨by omega, fun tied => .inr ?_⟩
    have even : r.significand % 2 = 0 := tie (.inl (by omega))
    have next : 2 * e.magnitude + r.lowerGap = 2 * r.magnitude := by
      apply Nat.eq_of_mul_eq_mul_right positive
      rw [Nat.add_mul, Nat.mul_assoc, Nat.mul_assoc]
      omega
    exact ⟨even, odd_below next even less⟩
  · rw [same] at other
    exact ⟨by omega, fun tied => .inl (scaled_eq_of_distance_eq positive same tied zeroRounds)⟩
  · have apart := Nat.mul_le_mul_right m (magnitude_add_le more)
    have wide := Nat.mul_pos (Nat.two_pow_pos r.shift) positive
    rw [Nat.add_mul] at apart
    refine ⟨by omega, fun tied => .inr ?_⟩
    have even : r.significand % 2 = 0 := tie (.inr (by omega))
    have next : r.magnitude + 2 ^ r.shift = e.magnitude := by
      apply Nat.eq_of_mul_eq_mul_right positive
      rw [Nat.add_mul]
      omega
    exact ⟨even, odd_above next even⟩

theorem shift_le_of_magnitude_eq {a b : Double} (same : a.magnitude = b.magnitude) :
    a.shift ≤ b.shift := by
  by_contra finer
  have below := magnitude_lt (d := b) (t := a.shift) (by omega)
  have above := le_magnitude (d := a) (by omega)
  omega

/-- Of a magnitude there is only one significand. -/
theorem significand_eq_of_magnitude_eq {a b : Double} (same : a.magnitude = b.magnitude) :
    a.significand = b.significand := by
  have shift : a.shift = b.shift :=
    Nat.le_antisymm (shift_le_of_magnitude_eq same) (shift_le_of_magnitude_eq same.symm)
  rw [magnitude, magnitude, shift] at same
  exact Nat.eq_of_mul_eq_mul_right (Nat.two_pow_pos b.shift) same

/-! ## Values -/

/-- The value of a double. -/
def value (d : Double) : ℚ := d.scaled / one

/-- No double is nearer to a number than this one, and if another one is as near, this one has an
even significand. -/
structure IsNearest (d : Double) (x : ℚ) : Prop where
  least : ∀ e : Double, |x - d.value| ≤ |x - e.value|
  even : ∀ e : Double, |x - d.value| = |x - e.value| → e.value = d.value ∨ d.significand % 2 = 0

theorem one_pos : 0 < one := by decide +kernel

theorem value_eq_iff {a b : Double} : a.value = b.value ↔ a.scaled = b.scaled := by
  have some : (one : ℚ) ≠ 0 := Nat.cast_ne_zero.mpr one_pos.ne'
  rw [value, value, div_left_inj' some, Int.cast_inj]

theorem value_eq_intCast_iff {d : Double} {n : Int} : d.value = n ↔ d.scaled = n * one := by
  have some : (one : ℚ) ≠ 0 := Nat.cast_ne_zero.mpr one_pos.ne'
  rw [value, div_eq_iff some]
  exact_mod_cast Iff.rfl

theorem abs_div_sub_value {m : Nat} (positive : 0 < m) (x : Int) (d : Double) :
    |(x : ℚ) / (m * one) - d.value| = (d.distance x m : ℚ) / (m * one) := by
  have step : (one : ℚ) ≠ 0 := Nat.cast_ne_zero.mpr one_pos.ne'
  have part : (m : ℚ) ≠ 0 := Nat.cast_ne_zero.mpr positive.ne'
  have quotient : (x : ℚ) / (m * one) - d.value = ((x - m * d.scaled : Int) : ℚ) / (m * one) := by
    rw [value, ← mul_div_mul_left (d.scaled : ℚ) _ part, ← sub_div]
    push_cast
    rfl
  have unit : (0 : ℚ) ≤ m * one := mul_nonneg (Nat.cast_nonneg m) (Nat.cast_nonneg one)
  rw [quotient, abs_div, abs_of_nonneg unit, distance, Nat.cast_natAbs, Int.cast_abs]

theorem abs_div_sub_value_le_iff {m : Nat} (positive : 0 < m) (x : Int) (a b : Double) :
    |(x : ℚ) / (m * one) - a.value| ≤ |(x : ℚ) / (m * one) - b.value| ↔
      a.distance x m ≤ b.distance x m := by
  have unit : (0 : ℚ) < m * one :=
    mul_pos (Nat.cast_pos.mpr positive) (Nat.cast_pos.mpr one_pos)
  rw [abs_div_sub_value positive, abs_div_sub_value positive, div_le_div_iff_of_pos_right unit,
    Nat.cast_le]

theorem abs_div_sub_value_eq_iff {m : Nat} (positive : 0 < m) (x : Int) (a b : Double) :
    |(x : ℚ) / (m * one) - a.value| = |(x : ℚ) / (m * one) - b.value| ↔
      a.distance x m = b.distance x m := by
  rw [le_antisymm_iff, le_antisymm_iff, abs_div_sub_value_le_iff positive,
    abs_div_sub_value_le_iff positive]

/-- The doubles of the value that a fraction of steps is rounded to, and no others, are nearest to
it. -/
theorem Rounds.isNearest_iff {r : Double} {x : Int} {m : Nat} (positive : 0 < m)
    (rounds : Rounds r x.natAbs m) (sign : r.negative = decide (x < 0)) (d : Double) :
    d.IsNearest ((x : ℚ) / (m * one)) ↔ d.value = r.value := by
  have closest := rounds.closest positive sign
  rw [value_eq_iff]
  constructor
  · intro nearest
    have atMost := (abs_div_sub_value_le_iff positive x d r).mp (nearest.least r)
    have tied : r.distance x m = d.distance x m := Nat.le_antisymm (closest d).1 atMost
    rcases (closest d).2 tied with equal | ⟨_, odd⟩
    · exact equal
    · have also := (abs_div_sub_value_eq_iff positive x d r).mpr tied.symm
      rcases nearest.even r also with equal | even
      · exact (value_eq_iff.mp equal).symm
      · omega
  · intro same
    have significand : d.significand = r.significand := by
      apply significand_eq_of_magnitude_eq
      rw [← scaled_natAbs, ← scaled_natAbs, same]
    have distance : d.distance x m = r.distance x m := by
      rw [Double.distance, Double.distance, same]
    constructor
    · intro e
      rw [abs_div_sub_value_le_iff positive, distance]
      exact (closest e).1
    · intro e tied
      rw [abs_div_sub_value_eq_iff positive, distance] at tied
      rw [value_eq_iff, same, significand]
      rcases (closest e).2 tied with equal | ⟨even, _⟩
      · exact .inl equal
      · exact .inr even

/-- The integers of 64 bits are far below the largest double. -/
theorem excessBits_lt {n : Int} (fits : n.natAbs ≤ 2 ^ 64) :
    excessBits (n.natAbs * one) 1 < 2045 := by
  have short : 2 ^ 64 * one < 2 ^ 52 * (1 * 2 ^ (2044 + 1)) := by decide +kernel
  have bound : n.natAbs * one ≤ 2 ^ 64 * one := Nat.mul_le_mul_right one fits
  exact Nat.lt_succ_of_le (excessBits_le Nat.one_pos (bound.trans_lt short))

/-- Integers of 64 bits are rounded to doubles. -/
theorem exists_scaledOfInt {n : Int} (fits : n.natAbs ≤ 2 ^ 64) :
    ∃ r : Double, scaledOfInt n = r.scaled ∧ Rounds r (n * one).natAbs 1 ∧
      r.negative = decide (n * one < 0) := by
  have canonical := roundSteps_canonical Nat.one_pos (excessBits_lt fits)
  have size : (n * (one : Int)).natAbs = n.natAbs * one := by
    rw [Int.natAbs_mul, Int.natAbs_natCast]
  have positive : (0 : Int) < one := Int.natCast_pos.mpr one_pos
  have sign : n * (one : Int) < 0 ↔ n < 0 := by
    have scale : n * (one : Int) < 0 * one ↔ n < 0 := Int.mul_lt_mul_right positive
    rwa [Int.zero_mul] at scale
  rw [size, scaledOfInt]
  rcases rounded : roundSteps (n.natAbs * one) 1 with ⟨significand, shift⟩
  rw [rounded] at canonical
  refine ⟨⟨decide (n < 0), significand, shift, canonical⟩, ?_, ?_, ?_⟩
  · unfold scaled
    by_cases below : n < 0
    · simp only [below, decide_true, if_true]
      rfl
    · simp only [below, decide_false, if_false]
      rfl
  · exact rounds_of_roundSteps Nat.one_pos rounded
  · exact decide_eq_decide.mpr sign.symm

/-- A double of which the value is the one that an integer is rounded to is nearest to it, and no
other double is. -/
theorem scaledOfInt_eq_iff {n : Int} (fits : n.natAbs ≤ 2 ^ 64) (d : Double) :
    scaledOfInt n = d.scaled ↔ d.IsNearest n := by
  obtain ⟨r, value, rounds, sign⟩ := exists_scaledOfInt fits
  have step : (one : ℚ) ≠ 0 := Nat.cast_ne_zero.mpr one_pos.ne'
  have whole : ((n * one : Int) : ℚ) / ((1 : Nat) * one) = n := by
    push_cast
    rw [one_mul, mul_div_cancel_right₀ _ step]
  rw [← whole, rounds.isNearest_iff Nat.one_pos sign, value_eq_iff, value, eq_comm]

/-- Where an integer is the value of some double, the doubles that are nearest to it are those of
this value. -/
theorem isNearest_iff_of_exact {n : Int} {e : Double} (exact : e.value = n) (d : Double) :
    d.IsNearest n ↔ d.value = n := by
  constructor
  · intro nearest
    have least := nearest.least e
    rw [exact, sub_self, abs_zero] at least
    have none := abs_nonpos_iff.mp least
    exact (sub_eq_zero.mp none).symm
  · intro same
    constructor
    · intro other
      rw [same, sub_self, abs_zero]
      exact abs_nonneg _
    · intro other tied
      rw [same, sub_self, abs_zero] at tied
      have none := abs_eq_zero.mp tied.symm
      exact .inl ((sub_eq_zero.mp none).symm.trans same.symm)

end JsonShape.Double
