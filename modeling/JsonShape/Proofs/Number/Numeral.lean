import JsonShape.Number.Reading

/-!
# Splitting numerals off a text

A numeral that is written in its parts, before a text that does not go on with it, is split off
again, and its parts are found.

* `splitNumeral?_written`: sign, digits, and a fraction and an exponent if there are any.
* `digitsValue_toDigits`, `exponentValue?_written`: digits and exponents that are written out of
  numbers denote these numbers.
-/

namespace JsonShape

/-! ## Digits -/

/-- The characters of a class before one that is not of it are split off. -/
theorem takeWhile_dropWhile_append {p : Char → Bool} {taken rest : List Char}
    (all : ∀ c ∈ taken, p c = true) (stops : ∀ c ∈ rest.head?, p c = false) :
    (taken ++ rest).takeWhile p = taken ∧ (taken ++ rest).dropWhile p = rest := by
  rw [List.takeWhile_append_of_pos all, List.dropWhile_append_of_pos all]
  cases rest with
  | nil => simp
  | cons c more => simp [stops c rfl]

/-- Decimal digits, and nothing else. -/
def AllDigits (digits : List Char) : Prop := ∀ c ∈ digits, c.isDigit = true

theorem allDigits_toDigits (n : Nat) : AllDigits (Nat.toDigits 10 n) :=
  fun _ listed => Nat.isDigit_of_mem_toDigits (by decide) (by decide) listed

theorem digitsValue_toDigits (n : Nat) : digitsValue (Nat.toDigits 10 n) = n :=
  Nat.ofDigitChars_ten_toDigits

theorem splitDigits_append_rest {digits rest : List Char} (all : AllDigits digits)
    (stops : ∀ c ∈ rest.head?, c.isDigit = false) :
    splitDigits (digits ++ rest) = (digits, rest) := by
  obtain ⟨taken, dropped⟩ := takeWhile_dropWhile_append all stops
  rw [splitDigits, taken, dropped]

/-! ## Parts -/

/-- A text that no numeral goes on with. -/
def EndsNumeral (rest : List Char) : Prop :=
  ∀ c ∈ rest.head?, c.isDigit = false ∧ c ≠ '.' ∧ c ≠ 'e' ∧ c ≠ 'E'

/-- The sign of a numeral. -/
def minusSign (negative : Bool) : List Char := if negative then ['-'] else []

theorem splitMinus_written (negative : Bool) (text : List Char) {c : Char}
    (first : text.head? = some c) (digit : c.isDigit = true) :
    splitMinus (minusSign negative ++ text) = (minusSign negative, text) := by
  cases negative with
  | true => rfl
  | false =>
    obtain ⟨rest, rfl⟩ := List.head?_eq_some_iff.mp first
    rw [minusSign, if_neg (by decide), List.nil_append, splitMinus]
    rintro rest same
    obtain ⟨rfl, _⟩ := List.cons.inj same
    cases digit

theorem splitFraction_of_head_ne {text : List Char} (other : ∀ c ∈ text.head?, c ≠ '.') :
    splitFraction text = ([], text) := by
  unfold splitFraction
  split
  · exact absurd rfl (other '.' rfl)
  · rfl

theorem splitFraction_written {digits rest : List Char} (all : AllDigits digits)
    (nonempty : digits ≠ []) (stops : ∀ c ∈ rest.head?, c.isDigit = false) :
    splitFraction ('.' :: (digits ++ rest)) = ('.' :: digits, rest) := by
  have split := splitDigits_append_rest all stops
  rw [splitFraction, split, if_neg (by simpa using nonempty)]
  rfl

theorem splitExponent_of_head_ne {text : List Char}
    (other : ∀ c ∈ text.head?, c ≠ 'e' ∧ c ≠ 'E') : splitExponent text = ([], text) := by
  cases text with
  | nil => rfl
  | cons c rest =>
    obtain ⟨lower, upper⟩ := other c rfl
    simp [splitExponent, lower, upper]

/-- The exponent of a numeral, with its sign. -/
def exponentText (power : Int) : List Char :=
  'e' :: (if power < 0 then '-' else '+') :: Nat.toDigits 10 power.natAbs

theorem splitExponent_written (power : Int) {rest : List Char}
    (stops : ∀ c ∈ rest.head?, c.isDigit = false) :
    splitExponent (exponentText power ++ rest) = (exponentText power, rest) := by
  have digits := splitDigits_append_rest (allDigits_toDigits power.natAbs) stops
  have nonempty : Nat.toDigits 10 power.natAbs ≠ [] := Nat.toDigits_ne_nil
  by_cases below : power < 0
  · simp [exponentText, below, splitExponent, splitSign, digits, nonempty]
  · simp [exponentText, below, splitExponent, splitSign, digits, nonempty]

theorem exponentValue?_written (power : Int) :
    exponentValue? (exponentText power) = some power := by
  by_cases below : power < 0
  · have value : -(power.natAbs : Int) = power := by omega
    rw [exponentText, if_pos below]
    change some (-(digitsValue (Nat.toDigits 10 power.natAbs) : Int)) = some power
    rw [digitsValue_toDigits, value]
  · have value : (power.natAbs : Int) = power := by omega
    rw [exponentText, if_neg below]
    change some (digitsValue (Nat.toDigits 10 power.natAbs) : Int) = some power
    rw [digitsValue_toDigits, value]

/-! ## Numerals -/

/-- The text of a fraction's digits, if there are any. -/
def fractionText (digits : List Char) : List Char := if digits.isEmpty then [] else '.' :: digits

/-- The text of a numeral, its exponent with a sign. -/
def Numeral.written (n : Numeral) : List Char :=
  minusSign n.negative ++ (n.whole ++ (fractionText n.fraction ++ n.exponent.elim [] exponentText))

theorem head_exponent_append (power : Option Int) {rest : List Char} (ends : EndsNumeral rest) :
    ∀ c ∈ (power.elim [] exponentText ++ rest).head?, c.isDigit = false ∧ c ≠ '.' := by
  cases power with
  | none => exact fun c first => ⟨(ends c first).1, (ends c first).2.1⟩
  | some power =>
    intro c first
    cases Option.some.inj first
    exact ⟨rfl, by decide⟩

theorem head_fraction_append (digits : List Char) {text : List Char}
    (ends : ∀ c ∈ text.head?, c.isDigit = false) :
    ∀ c ∈ (fractionText digits ++ text).head?, c.isDigit = false := by
  cases digits with
  | nil => exact ends
  | cons d more =>
    intro c first
    cases Option.some.inj first
    rfl

theorem splitFraction_fractionText {digits text : List Char} (all : AllDigits digits)
    (ends : ∀ c ∈ text.head?, c.isDigit = false ∧ c ≠ '.') :
    splitFraction (fractionText digits ++ text) = (fractionText digits, text) := by
  cases digits with
  | nil => exact splitFraction_of_head_ne fun c first => (ends c first).2
  | cons d more =>
    exact splitFraction_written all (List.cons_ne_nil d more) fun c first => (ends c first).1

theorem splitExponent_elim (power : Option Int) {rest : List Char} (ends : EndsNumeral rest) :
    splitExponent (power.elim [] exponentText ++ rest) = (power.elim [] exponentText, rest) := by
  cases power with
  | none => exact splitExponent_of_head_ne fun c first => (ends c first).2.2
  | some power => exact splitExponent_written power fun c first => (ends c first).1

/-- A written numeral is split off, and read as what it was. -/
theorem splitNumeral?_written (n : Numeral) (wholeDigits : AllDigits n.whole)
    (nonempty : n.whole ≠ []) (fractionDigits : AllDigits n.fraction) {rest : List Char}
    (ends : EndsNumeral rest) :
    splitNumeral? (n.written ++ rest) = some ((n.written, n), rest) := by
  obtain ⟨negative, whole, fraction, power⟩ := n
  obtain ⟨d, more, rfl⟩ := List.exists_cons_of_ne_nil nonempty
  have afterFraction := head_exponent_append power ends
  have afterWhole := head_fraction_append fraction fun c first => (afterFraction c first).1
  have minus := splitMinus_written negative
    (d :: more ++ (fractionText fraction ++ (power.elim [] exponentText ++ rest))) rfl
    (wholeDigits d List.mem_cons_self)
  have digits := splitDigits_append_rest wholeDigits afterWhole
  have point := splitFraction_fractionText fractionDigits afterFraction
  have exponent := splitExponent_elim power ends
  have sign : (!(minusSign negative).isEmpty) = negative := by cases negative <;> rfl
  have dropPoint : (fractionText fraction).drop 1 = fraction := by cases fraction <;> rfl
  have value : exponentValue? (power.elim [] exponentText) = power := by
    cases power with
    | none => rfl
    | some power => exact exponentValue?_written power
  simp only [Numeral.written, List.append_assoc, splitNumeral?, minus, digits, point, exponent,
    sign, dropPoint, value, List.isEmpty_cons]
  simp

end JsonShape
