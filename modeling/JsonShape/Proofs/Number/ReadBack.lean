import JsonShape.Proofs.Number.Shortest

/-!
# Numbers read back

Every number is written as one numeral, and that numeral is read as the number, in the same form.

* `Numeral.Spells` says which numerals spell a decimal: those of every layout do
  (`NumberLayout.numeral_spells`).
* `Numeral.Spells.nearest?_eq`: a numeral that spells the shortest decimal of a double is read as
  the double.
* `Number.splitNumeral?_chars`, `Number.nearest?_numeral` are the read-back, and
  `Number.chars_injective` says that no two numbers are written alike.
-/

namespace JsonShape

/-! ## The numerals of a decimal -/

/-- A numeral of a decimal: its digits with a point somewhere, or with zeros behind them up to the
first place behind the point. -/
structure Numeral.Spells (n : Numeral) (d : Decimal) : Prop where
  wholeDigits : AllDigits n.whole
  nonempty : n.whole ≠ []
  fractionDigits : AllDigits n.fraction
  notInteger : n.isInteger = false
  value : ∃ zeros : Nat, digitsValue (n.whole ++ n.fraction) = d.digits * 10 ^ zeros
    ∧ n.exponent.getD 0 - n.fraction.length = d.exponent - zeros
    ∧ (zeros : Int) ≤ max 0 (d.exponent + 1)

theorem AllDigits.mono {a b : List Char} (all : AllDigits b) (part : a ⊆ b) : AllDigits a :=
  fun c listed => all c (part listed)

theorem AllDigits.append {a b : List Char} (left : AllDigits a) (right : AllDigits b) :
    AllDigits (a ++ b) := by
  intro c listed
  rcases List.mem_append.1 listed with first | second
  · exact left c first
  · exact right c second

theorem allDigits_replicate (k : Nat) : AllDigits (List.replicate k '0') := by
  intro c listed
  rw [List.eq_of_mem_replicate listed]
  rfl

theorem digitsValue_append_zeros (digits : List Char) (k : Nat) :
    digitsValue (digits ++ List.replicate k '0') = digitsValue digits * 10 ^ k := by
  change Nat.ofDigitChars 10 (digits ++ List.replicate k '0') 0 = _
  rw [Nat.ofDigitChars_append, Nat.ofDigitChars_replicate_zero, Nat.mul_comm]
  rfl

theorem digitsValue_zeros_append (k : Nat) (digits : List Char) :
    digitsValue (List.replicate k '0' ++ digits) = digitsValue digits := by
  change Nat.ofDigitChars 10 (List.replicate k '0' ++ digits) 0 = _
  rw [Nat.ofDigitChars_append, Nat.ofDigitChars_replicate_zero, Nat.mul_zero]
  rfl

/-- Digits that write a number. -/
structure Digits (digits : List Char) (n : Nat) : Prop where
  all : AllDigits digits
  nonempty : 0 < digits.length
  value : digitsValue digits = n

theorem digits_toDigits (n : Nat) : Digits (Nat.toDigits 10 n) n :=
  ⟨allDigits_toDigits n, Nat.length_toDigits_pos, digitsValue_toDigits n⟩

namespace Numeral

/-- One digit, the others behind the point, and an exponent. -/
def scientific (negative : Bool) (digits : List Char) (power : Int) : Numeral :=
  ⟨negative, digits.take 1, digits.drop 1, some power⟩

/-- A point behind the first `count` digits, with a zero where there are no more. -/
def pointed (negative : Bool) (digits : List Char) (count : Nat) : Numeral :=
  ⟨negative, digits.take count ++ List.replicate (count - digits.length) '0',
    if (digits.drop count).isEmpty then ['0'] else digits.drop count, none⟩

/-- All digits behind the point, after some zeros. -/
def fractional (negative : Bool) (zeros : Nat) (digits : List Char) : Numeral :=
  ⟨negative, ['0'], List.replicate zeros '0' ++ digits, none⟩

theorem written_scientific (negative : Bool) (digits : List Char) (power : Int) :
    (scientific negative digits power).written
      = minusSign negative ++ NumberLayout.scientific digits power := by
  simp [scientific, written, NumberLayout.scientific, fractionText, exponentText]

theorem written_pointed (negative : Bool) (digits : List Char) (count : Nat) :
    (pointed negative digits count).written
      = minusSign negative ++ NumberLayout.pointed digits count := by
  by_cases short : (digits.drop count).isEmpty = true
  · simp [pointed, written, NumberLayout.pointed, fractionText, short]
  · simp [pointed, written, NumberLayout.pointed, fractionText, short]

theorem written_fractional (negative : Bool) (zeros : Nat) (digits : List Char)
    (nonempty : digits ≠ []) :
    (fractional negative zeros digits).written
      = minusSign negative ++ '0' :: '.' :: (List.replicate zeros '0' ++ digits) := by
  simp [fractional, written, fractionText, nonempty]

section

variable {digits : List Char} {d : Decimal}

/-- Digits cut by a point, with a power of ten that makes up for it. -/
theorem cut_spells (negative : Bool) (writes : Digits digits d.digits) {count : Nat}
    (positive : 0 < count) {power : Option Int} (marked : power.isSome ∨ count < digits.length)
    (place : power.getD 0 - ((digits.length - count : Nat) : Int) = d.exponent) :
    Spells ⟨negative, digits.take count, digits.drop count, power⟩ d := by
  obtain ⟨all, nonempty, value⟩ := writes
  refine ⟨all.mono (List.take_subset _ _), ?_, all.mono (List.drop_subset _ _), ?_, 0, ?_, ?_, ?_⟩
  · rw [← List.length_pos_iff, List.length_take]
    omega
  · rcases marked with exponent | inside
    · cases power with
      | none => cases exponent
      | some power => exact Bool.and_false _
    · have some : digits.drop count ≠ [] := by
        rw [← List.length_pos_iff, List.length_drop]
        omega
      simp [isInteger, some]
  · rw [List.take_append_drop, value, Nat.pow_zero, Nat.mul_one]
  · rw [List.length_drop, place]
    exact (Int.sub_zero _).symm
  · omega

theorem scientific_spells (negative : Bool) (writes : Digits digits d.digits) :
    (scientific negative digits (digits.length - 1 + d.exponent)).Spells d := by
  have nonempty := writes.nonempty
  refine cut_spells negative writes Nat.one_pos (.inl rfl) ?_
  rw [Option.getD_some]
  omega

theorem fractional_spells (negative : Bool) (writes : Digits digits d.digits)
    (below : digits.length - 1 + d.exponent < 0) :
    (fractional negative (-(digits.length - 1 + d.exponent) - 1).toNat digits).Spells d := by
  obtain ⟨all, nonempty, value⟩ := writes
  refine ⟨allDigits_replicate 1, List.cons_ne_nil _ _, (allDigits_replicate _).append all, ?_, 0,
    ?_, ?_, ?_⟩
  · have some : digits ≠ [] := List.length_pos_iff.1 nonempty
    simp [isInteger, fractional, some]
  · rw [fractional, ← List.append_assoc]
    change digitsValue (List.replicate 1 '0' ++ List.replicate _ '0' ++ digits) = _
    rw [List.append_assoc, digitsValue_zeros_append, digitsValue_zeros_append, value, Nat.pow_zero,
      Nat.mul_one]
  · rw [fractional, List.length_append, List.length_replicate, Option.getD_none]
    omega
  · omega

theorem pointed_of_lt (negative : Bool) {count : Nat} (inside : count < digits.length) :
    pointed negative digits count = ⟨negative, digits.take count, digits.drop count, none⟩ := by
  have nothing : count - digits.length = 0 := by omega
  have some : (digits.drop count).isEmpty = false := by
    rw [List.isEmpty_eq_false_iff, ← List.length_pos_iff, List.length_drop]
    omega
  simp [pointed, nothing, some]

theorem pointed_of_le (negative : Bool) {count : Nat} (behind : digits.length ≤ count) :
    pointed negative digits count
      = ⟨negative, digits ++ List.replicate (count - digits.length) '0', ['0'], none⟩ := by
  rw [pointed, List.take_of_length_le behind, List.drop_of_length_le behind]
  rfl

theorem pointed_spells (negative : Bool) (writes : Digits digits d.digits)
    (above : 0 ≤ digits.length - 1 + d.exponent) :
    (pointed negative digits ((digits.length - 1 + d.exponent).toNat + 1)).Spells d := by
  obtain ⟨all, nonempty, value⟩ := writes
  obtain ⟨count, next⟩ :
      ∃ count : Nat, count = ((digits.length : Int) - 1 + d.exponent).toNat + 1 := ⟨_, rfl⟩
  rw [← next]
  rcases Nat.lt_or_ge count digits.length with inside | behind
  · rw [pointed_of_lt negative inside]
    refine cut_spells negative ⟨all, nonempty, value⟩ (by omega) (.inr inside) ?_
    rw [Option.getD_none]
    omega
  · rw [pointed_of_le negative behind]
    refine ⟨all.append (allDigits_replicate _), ?_, allDigits_replicate 1, rfl,
      count - digits.length + 1, ?_, ?_, ?_⟩
    · rw [← List.length_pos_iff, List.length_append]
      omega
    · change digitsValue (digits ++ List.replicate _ '0' ++ List.replicate 1 '0') = _
      rw [digitsValue_append_zeros, digitsValue_append_zeros, value, Nat.mul_assoc, ← Nat.pow_add]
    · rw [Option.getD_none, List.length_singleton]
      omega
    · omega

end

end Numeral

/-! ## Layouts -/

namespace NumberLayout

/-- The numeral that a decimal is written as. -/
def numeral (layout : NumberLayout) (negative : Bool) (d : Decimal) : Numeral :=
  let digits := Nat.toDigits 10 d.digits
  let power := (digits.length : Int) - 1 + d.exponent
  if power < layout.least ∨ layout.greatest < power then .scientific negative digits power
  else if 0 ≤ power then .pointed negative digits (power.toNat + 1)
  else .fractional negative (-power - 1).toNat digits

theorem written_numeral (layout : NumberLayout) (negative : Bool) (d : Decimal) :
    (layout.numeral negative d).written = minusSign negative ++ layout.decimal d := by
  simp only [numeral, decimal]
  split
  · exact Numeral.written_scientific ..
  · split
    · exact Numeral.written_pointed ..
    · exact Numeral.written_fractional _ _ _ Nat.toDigits_ne_nil

theorem numeral_spells (layout : NumberLayout) (negative : Bool) (d : Decimal) :
    (layout.numeral negative d).Spells d := by
  have writes := digits_toDigits d.digits
  simp only [numeral]
  split
  · exact Numeral.scientific_spells negative writes
  · split
    · rename_i above
      exact Numeral.pointed_spells negative writes above
    · rename_i below
      exact Numeral.fractional_spells negative writes (Int.not_le.1 below)

theorem numeral_negative (layout : NumberLayout) (negative : Bool) (d : Decimal) :
    (layout.numeral negative d).negative = negative := by
  simp only [numeral]
  split
  · rfl
  · split <;> rfl

end NumberLayout

/-! ## Numbers -/

/-- A numeral of its shortest decimal is read as a double. -/
theorem Numeral.Spells.nearest?_eq {n : Numeral} {d : Double} (spells : n.Spells d.shortest)
    (sign : n.negative = d.negative) : n.nearest? = some (.double d) := by
  obtain ⟨zeros, digits, exponent, few⟩ := spells.value
  rw [nearest?, spells.notInteger, if_neg Bool.false_ne_true, sign, digits, exponent,
    Double.ofDecimal?_shortest d few]
  rfl

namespace Number

/-- The numeral that a number is written as. -/
def numeral : Number → Numeral
  | .integer n _ => ⟨n < 0, Nat.toDigits 10 n.natAbs, [], none⟩
  | .double d => NumberLayout.standard.numeral d.negative d.shortest

theorem written_numeral (n : Number) : n.numeral.written = n.chars := by
  cases n with
  | integer n fits => simp [numeral, Numeral.written, chars, integerText, minusSign, fractionText]
  | double d => exact NumberLayout.written_numeral ..

/-- The value of the digits of an integer. -/
theorem signedValue_toDigits (n : Int) :
    signedValue (n < 0) (Nat.toDigits 10 n.natAbs) = n := by
  rw [signedValue, digitsValue_toDigits]
  split
  · rename_i below
    have := of_decide_eq_true below
    omega
  · rename_i above
    have := of_decide_eq_false (Bool.eq_false_iff.2 above)
    omega

theorem nearest?_numeral (n : Number) : n.numeral.nearest? = some n := by
  cases n with
  | integer n fits =>
    change ofInt? (signedValue (n < 0) (Nat.toDigits 10 n.natAbs)) = _
    rw [signedValue_toDigits, ofInt?, dif_pos fits]
  | double d =>
    have spells := NumberLayout.standard.numeral_spells d.negative d.shortest
    exact spells.nearest?_eq (NumberLayout.numeral_negative ..)

theorem digits_numeral (n : Number) :
    AllDigits n.numeral.whole ∧ n.numeral.whole ≠ [] ∧ AllDigits n.numeral.fraction := by
  cases n with
  | integer n fits =>
    exact ⟨allDigits_toDigits _, Nat.toDigits_ne_nil,
      fun _ listed => absurd listed List.not_mem_nil⟩
  | double d =>
    have spells := NumberLayout.standard.numeral_spells d.negative d.shortest
    exact ⟨spells.wholeDigits, spells.nonempty, spells.fractionDigits⟩

theorem exists_chars_eq_cons (n : Number) :
    ∃ c more, n.chars = c :: more ∧ (c = '-' ∨ c.isDigit = true) := by
  obtain ⟨digits, nonempty, _⟩ := n.digits_numeral
  obtain ⟨c, more, whole⟩ := List.exists_cons_of_ne_nil nonempty
  rw [← n.written_numeral, Numeral.written, whole, minusSign]
  split
  · exact ⟨'-', _, rfl, .inl rfl⟩
  · exact ⟨c, _, rfl, .inr (digits c (by rw [whole]; exact List.mem_cons_self))⟩

/-- A number before a text that does not go on with it is split off as its numeral. -/
theorem splitNumeral?_chars (n : Number) {rest : List Char} (ends : EndsNumeral rest) :
    splitNumeral? (n.chars ++ rest) = some ((n.chars, n.numeral), rest) := by
  obtain ⟨wholeDigits, nonempty, fractionDigits⟩ := n.digits_numeral
  rw [← n.written_numeral]
  exact splitNumeral?_written n.numeral wholeDigits nonempty fractionDigits ends

/-- Different numbers are written differently, in whatever form they are. -/
theorem chars_injective : Function.Injective chars := by
  intro a b same
  have ends : EndsNumeral [] := fun _ first => absurd first (by simp)
  have split := a.splitNumeral?_chars ends
  rw [same, b.splitNumeral?_chars ends] at split
  have numeral : b.numeral = a.numeral :=
    congrArg (fun found => found.1.2) (Option.some.inj split)
  have read := b.nearest?_numeral
  rw [numeral, a.nearest?_numeral] at read
  exact Option.some.inj read

end Number

end JsonShape
