import JsonShape.Number.Basic
import JsonShape.Proofs.Normalize.Acceptance
import JsonShape.Proofs.Number.Nearest

/-!
# Agreement of numbers

Which numbers agree, and which of them have the same value.

Two integers, or two doubles, agree if their values are equal.  An integer and a double agree if
the double is nearest to the integer (`Number.agrees_integer_double`).  If some double has the
value of the integer, that is equality again.  If none has, the integer is blurred: it agrees with
the nearest double although their values differ.

* `Number.agrees_iff`: numbers agree if their values are equal or one of them blurs into the other.
* `Number.agrees_iff_of_clear`: so for all numbers that do not blur agreement is equality.
* `Number.clear_of_le`: no integer up to `2 ^ 53` blurs.
-/

namespace JsonShape

namespace Double

/-- A magnitude of at most 53 bits, shifted up to where a significand has all of them. -/
theorem exists_magnitude_of_lt {k : Nat} (some : k ≠ 0) (short : k < 2 ^ 53) (negative : Bool) :
    ∃ d : Double, d.negative = negative ∧ d.magnitude = k * one := by
  have bits : k.log2 < 53 := (Nat.log2_lt some).mpr short
  obtain ⟨places, split⟩ := Nat.exists_eq_add_of_le (Nat.le_of_lt_succ bits)
  have least : 2 ^ 52 ≤ k * 2 ^ places := by
    calc 2 ^ 52 = 2 ^ k.log2 * 2 ^ places := by rw [← Nat.pow_add, ← split]
      _ ≤ k * 2 ^ places := Nat.mul_le_mul_right _ (Nat.log2_self_le some)
  have most : k * 2 ^ places < 2 ^ 53 := by
    calc k * 2 ^ places < 2 ^ (k.log2 + 1) * 2 ^ places :=
        Nat.mul_lt_mul_of_pos_right Nat.lt_log2_self (Nat.two_pow_pos places)
      _ = 2 ^ 53 := by rw [← Nat.pow_add, Nat.add_right_comm, ← split]
  have shift : places + (1022 + k.log2) = 1074 := by omega
  refine ⟨⟨negative, k * 2 ^ places, 1022 + k.log2, most, by omega, fun _ => least⟩, rfl, ?_⟩
  have joined : k * 2 ^ places * 2 ^ (1022 + k.log2) = k * 2 ^ (places + (1022 + k.log2)) := by
    rw [Nat.mul_assoc, ← Nat.pow_add]
  unfold magnitude one
  rw [← shift]
  exact joined

theorem exists_value_of_lt {n : Int} (short : n.natAbs < 2 ^ 53) : ∃ d : Double, d.value = n := by
  rcases eq_or_ne n 0 with rfl | some
  · exact ⟨zero false, value_eq_intCast_iff.mpr (Int.zero_mul _).symm⟩
  · obtain ⟨d, sign, magnitude⟩ :=
      exists_magnitude_of_lt (Int.natAbs_ne_zero.mpr some) short (decide (n < 0))
    refine ⟨d, value_eq_intCast_iff.mpr ?_⟩
    rw [scaled, sign, magnitude, Nat.cast_mul, ← Int.neg_mul]
    by_cases below : n < 0
    · rw [decide_eq_true below, if_pos rfl, Int.ofNat_natAbs_of_nonpos (by omega), Int.neg_neg]
    · rw [decide_eq_false below, if_neg Bool.false_ne_true, Int.natAbs_of_nonneg (by omega)]

/-- The integers up to `2 ^ 53` are values of doubles. -/
theorem exists_value_of_le {n : Int} (small : n.natAbs ≤ 2 ^ 53) : ∃ d : Double, d.value = n := by
  rcases Nat.lt_or_eq_of_le small with short | limit
  · exact exists_value_of_lt short
  · rcases Int.natAbs_eq n with positive | negative
    · refine ⟨⟨false, Nat.pow 2 52, 1075, by decide⟩, value_eq_intCast_iff.mpr ?_⟩
      rw [positive, limit]
      decide +kernel
    · refine ⟨⟨true, Nat.pow 2 52, 1075, by decide⟩, value_eq_intCast_iff.mpr ?_⟩
      rw [negative, limit]
      decide +kernel

end Double

namespace Number

/-- The value of a number. -/
def value : Number → ℚ
  | integer n _ => n
  | double d => d.value

/-- An integer that is no double's value blurs into the doubles that are nearest to it. -/
def Blurs : Number → Number → Prop
  | integer n _, double d => (∀ e : Double, e.value ≠ n) ∧ d.IsNearest n
  | _, _ => False

/-- Neither of two numbers blurs into the other. -/
def Clear (a b : Number) : Prop := ¬a.Blurs b ∧ ¬b.Blurs a

theorem Clear.symm {a b : Number} (clear : a.Clear b) : b.Clear a := And.symm clear

theorem natAbs_le_of_integral {n : Int} (fits : Integral n) : n.natAbs ≤ 2 ^ 64 := by
  obtain ⟨least, greatest⟩ := fits
  omega

theorem agrees_comm (a b : Number) : a.agrees b = b.agrees a := by
  cases a with
  | integer n _ =>
    cases b with
    | integer m _ => exact Bool.beq_comm
    | double d => exact Bool.beq_comm
  | double d =>
    cases b with
    | integer m _ => exact Bool.beq_comm
    | double e => exact Bool.beq_comm

/-- An integer agrees with the doubles that are nearest to it. -/
theorem agrees_integer_double {n : Int} (fits : Integral n) (d : Double) :
    (integer n fits).agrees (double d) = true ↔ d.IsNearest n := by
  rw [← Double.scaledOfInt_eq_iff (natAbs_le_of_integral fits)]
  exact beq_iff_eq

/-- An integer and a double agree if their values are equal or the integer blurs. -/
theorem agrees_integer_double_iff {n : Int} (fits : Integral n) (d : Double) :
    (integer n fits).agrees (double d) = true ↔
      (integer n fits).value = (double d).value ∨ (integer n fits).Blurs (double d) := by
  rw [agrees_integer_double, eq_comm]
  by_cases exact : ∃ e : Double, e.value = n
  · obtain ⟨e, same⟩ := exact
    rw [Double.isNearest_iff_of_exact same]
    exact (or_iff_left fun blurs => blurs.1 e same).symm
  · have none : ∀ e : Double, e.value ≠ n := not_exists.mp exact
    constructor
    · intro nearest
      exact .inr ⟨none, nearest⟩
    · rintro (same | ⟨_, nearest⟩)
      · exact absurd same (none d)
      · exact nearest

/-- Numbers agree if their values are equal or one of them blurs into the other. -/
theorem agrees_iff (a b : Number) :
    a.agrees b = true ↔ a.value = b.value ∨ a.Blurs b ∨ b.Blurs a := by
  cases a with
  | integer n fits =>
    cases b with
    | integer m _ => simp [agrees, value, Blurs]
    | double d => simpa [Blurs] using agrees_integer_double_iff fits d
  | double d =>
    cases b with
    | integer n fits =>
      rw [agrees_comm, @eq_comm _ (double d).value]
      simpa [Blurs] using agrees_integer_double_iff fits d
    | double e => simp [agrees, scaled, value, Blurs, Double.value_eq_iff]

theorem value_ne_of_blurs {a b : Number} (blurs : a.Blurs b) : a.value ≠ b.value := by
  cases a with
  | integer n fits =>
    cases b with
    | integer m _ => exact blurs.elim
    | double d => exact (blurs.1 d).symm
  | double d => exact blurs.elim

/-- Where nothing blurs, agreement is equality of values. -/
theorem agrees_iff_of_clear {a b : Number} (clear : a.Clear b) :
    a.agrees b = true ↔ a.value = b.value := by
  rw [agrees_iff]
  exact or_iff_left fun blurs => blurs.elim clear.1 clear.2

theorem agrees_of_not_clear {a b : Number} (blurred : ¬a.Clear b) :
    a.agrees b = true ∧ a.value ≠ b.value := by
  rw [agrees_iff]
  rcases not_and_or.mp blurred with first | second
  · have blurs := not_not.mp first
    exact ⟨.inr (.inl blurs), value_ne_of_blurs blurs⟩
  · have blurs := not_not.mp second
    exact ⟨.inr (.inr blurs), (value_ne_of_blurs blurs).symm⟩

/-- The integers up to `2 ^ 53` blur with nothing. -/
theorem clear_of_le {n : Int} (small : n.natAbs ≤ 2 ^ 53) (fits : Integral n) (b : Number) :
    (integer n fits).Clear b := by
  obtain ⟨d, same⟩ := Double.exists_value_of_le small
  cases b with
  | integer m _ => exact ⟨not_false, not_false⟩
  | double e => exact ⟨fun blurs => blurs.1 d same, not_false⟩

/-- Agreement of two numbers is equality of their values exactly if neither blurs into the other.

It is reflexive and symmetric in any case, and transitive where nothing blurs; and a rule that is a
number accepts exactly the numbers of its value, among those that do not blur with it. -/
theorem agrees_iff_value_eq (a b : Number) :
    ((a.agrees b = true ↔ a.value = b.value) ↔ a.Clear b) ∧
      a.agrees a = true ∧
      a.agrees b = b.agrees a ∧
      (∀ c : Number, a.Clear b → b.Clear c → a.agrees b = true → b.agrees c = true →
        a.agrees c = true) ∧
      ∀ found : Json, (∀ m, found = .number m → m.Clear a) →
        ((Rule.numberLiteral a).Accepts found ↔ ∃ m, found = .number m ∧ m.value = a.value) := by
  refine ⟨⟨fun equality => ?_, agrees_iff_of_clear⟩, (agrees_iff a a).mpr (.inl rfl),
    agrees_comm a b, fun c clearAB clearBC first second => ?_, fun found clear => ?_⟩
  · by_contra blurred
    obtain ⟨agrees, differ⟩ := agrees_of_not_clear blurred
    exact differ (equality.mp agrees)
  · have same : a.value = b.value := (agrees_iff_of_clear clearAB).mp first
    have next : b.value = c.value := (agrees_iff_of_clear clearBC).mp second
    exact (agrees_iff a c).mpr (.inl (same.trans next))
  · rw [Rule.accepts_numberLiteral]
    apply exists_congr
    intro m
    exact and_congr_right fun same => agrees_iff_of_clear (clear m same)

/-- The double of `2 ^ 53`. -/
def limit : Double := ⟨false, Nat.pow 2 52, 1075, by decide⟩

/-- At `2 ^ 53` an integer and a double still agree by their values. -/
theorem agrees_limit :
    (integer 9007199254740992 (by decide)).Clear (double limit) ∧
      (integer 9007199254740992 (by decide)).agrees (double limit) = true ∧
      (Rule.numberLiteral (.integer 9007199254740992 (by decide))).Accepts
        (.number (.double limit)) := by
  have clear : (integer 9007199254740992 (by decide)).Clear (double limit) :=
    clear_of_le (by decide) (by decide) _
  have same : limit.value = ((9007199254740992 : Int) : ℚ) :=
    Double.value_eq_intCast_iff.mpr (by decide +kernel)
  obtain ⟨equality, _, _, _, accepts⟩ :=
    agrees_iff_value_eq (integer 9007199254740992 (by decide)) (double limit)
  refine ⟨clear, (equality.mpr clear).mpr same.symm, (accepts _ ?_).mpr ⟨_, rfl, same⟩⟩
  intro m found
  cases found
  exact clear.symm

/-- One above `2 ^ 53` an integer agrees with the double of `2 ^ 53`, which agrees with the integer
below; but the two integers do not agree, and the values of the first two differ. -/
theorem agrees_above_limit :
    (integer 9007199254740993 (by decide)).agrees (double limit) = true ∧
      (double limit).agrees (integer 9007199254740992 (by decide)) = true ∧
      (integer 9007199254740993 (by decide)).agrees
        (integer 9007199254740992 (by decide)) = false ∧
      (integer 9007199254740993 (by decide)).value ≠ (double limit).value := by
  refine ⟨by decide +kernel, by decide +kernel, by decide, fun same => ?_⟩
  have steps : limit.scaled = 9007199254740993 * Double.one :=
    Double.value_eq_intCast_iff.mp same.symm
  exact absurd steps (by decide +kernel)

end Number

end JsonShape
