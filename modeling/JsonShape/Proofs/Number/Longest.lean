import JsonShape.Proofs.Number.Numeral
import JsonShape.Proofs.Text.Longest

/-!
# The longest numeral

`numerals` is the language of written numbers: an optional minus sign, digits, and optionally a
fraction and an exponent.  Each part has a split that cuts its longest text off, and no part starts
with a character that the part before it goes on with; so `splitNumeral?` cuts off the longest
numeral.

* `mem_of_splitNumeral?`, `exists_splitNumeral?`: what it cuts off is a numeral, and at least as
  long as any other.
* `splitNumeral?_before`: a numeral is cut off and read as before if less stands behind it.
-/

namespace JsonShape

open scoped Computability

/-! ## Parts -/

/-- The letters that an exponent starts with. -/
def isExponentLetter (c : Char) : Bool := c == 'e' || c == 'E'

/-- The signs of an exponent. -/
def isSign (c : Char) : Bool := c == '+' || c == '-'

/-- An optional minus sign. -/
def minusSigns : Language Char := 1 + {['-']}

/-- An optional fraction. -/
def fractions : Language Char := 1 + {['.']} * several Char.isDigit

/-- An optional exponent. -/
def exponents : Language Char :=
  1 + single isExponentLetter * ((1 + single isSign) * several Char.isDigit)

/-- Written numbers. -/
def numerals : Language Char := minusSigns * (several Char.isDigit * (fractions * exponents))

theorem isSign_of_isDigit (c : Char) (digit : c.isDigit = true) : isSign c = false := by
  have plus : c ≠ '+' := by
    rintro rfl
    cases digit
  have minus : c ≠ '-' := by
    rintro rfl
    cases digit
  simp [isSign, plus, minus]

theorem cuts_digits : Cuts splitDigits (single Char.isDigit)∗ := cuts_takeWhile Char.isDigit

theorem goesOn_digits : GoesOn splitDigits (single Char.isDigit)∗ Char.isDigit :=
  goesOn_takeWhile Char.isDigit

theorem cuts_minus : Cuts splitMinus minusSigns where
  lossless := splitMinus_append
  mem text := by
    unfold splitMinus
    split
    · exact .inr rfl
    · exact .inl rfl
  longest := by
    rintro a (rfl | rfl) rest
    · exact Nat.zero_le _
    · exact Nat.le_refl _

theorem goesOn_minus : GoesOn splitMinus minusSigns (· == '-') := by
  rintro a (rfl | rfl) c rest longer
  · by_contra other
    rw [List.nil_append, splitMinus] at longer
    · exact Nat.lt_irrefl _ longer
    · rintro more same
      exact other (beq_iff_eq.mpr (List.cons.inj same).1)
  · exact absurd longer (Nat.lt_irrefl _)

theorem splitFraction_of_digits {rest : List Char} (digits : (splitDigits rest).1 ≠ []) :
    splitFraction ('.' :: rest) = prepend '.' (splitDigits rest) := by
  rw [splitFraction, if_neg (by simpa using digits)]

/-- Digits at the start of a text are split off with all that follow. -/
theorem splitDigits_ne_nil {digits : List Char} (inside : digits ∈ several Char.isDigit)
    (rest : List Char) : (splitDigits (digits ++ rest)).1 ≠ [] := by
  obtain ⟨nonempty, all⟩ := mem_several.mp inside
  have bound := cuts_digits.longest (mem_star_single.mpr all) rest
  have positive := List.length_pos_iff.mpr nonempty
  exact List.length_pos_iff.mp (by omega)

theorem splitDigits_mem_several (text : List Char) (nonempty : (splitDigits text).1 ≠ []) :
    (splitDigits text).1 ∈ several Char.isDigit :=
  mem_several.mpr ⟨nonempty, mem_star_single.mp (cuts_digits.mem text)⟩

/-- What starts with a digit starts with no character of a class without digits. -/
theorem head_digits_append {digits : List Char} (inside : digits ∈ several Char.isDigit)
    (rest : List Char) {p : Char → Bool} (apart : ∀ c, c.isDigit = true → p c = false) :
    ∀ c ∈ (digits ++ rest).head?, p c = false := by
  obtain ⟨nonempty, all⟩ := mem_several.mp inside
  obtain ⟨d, more, rfl⟩ := List.exists_cons_of_ne_nil nonempty
  intro c first
  cases Option.some.inj first
  exact apart d (all d List.mem_cons_self)

theorem cuts_fraction : Cuts splitFraction fractions where
  lossless := splitFraction_append
  mem text := by
    unfold splitFraction
    split
    · split
      · exact .inl rfl
      · next digits =>
        have some := splitDigits_mem_several _ (by simpa using digits)
        exact .inr (Language.append_mem_mul (a := ['.']) rfl some)
    · exact .inl rfl
  longest := by
    rintro a (rfl | ⟨_, rfl, digits, inside, rfl⟩) rest
    · exact Nat.zero_le _
    · have bound := cuts_digits.longest (mem_star_single.mpr (mem_several.mp inside).2) rest
      have split := splitFraction_of_digits (splitDigits_ne_nil inside rest)
      change _ ≤ (splitFraction ('.' :: (digits ++ rest))).1.length
      rw [split]
      exact Nat.succ_le_succ bound

theorem goesOn_fraction : GoesOn splitFraction fractions fun c => c == '.' || c.isDigit := by
  rintro a (rfl | ⟨_, rfl, digits, inside, rfl⟩) c rest longer
  · by_contra outside
    have other : ∀ d ∈ (c :: rest).head?, d ≠ '.' := by
      intro d first same
      cases Option.some.inj first
      simp [same] at outside
    rw [List.nil_append, splitFraction_of_head_ne other] at longer
    exact Nat.lt_irrefl _ longer
  · have split := splitFraction_of_digits (splitDigits_ne_nil inside (c :: rest))
    change _ < (splitFraction ('.' :: (digits ++ c :: rest))).1.length at longer
    rw [split] at longer
    have digit := goesOn_digits digits (mem_star_single.mpr (mem_several.mp inside).2) c rest
      (Nat.lt_of_succ_lt_succ longer)
    simp [digit]

theorem cuts_sign : Cuts splitSign (1 + single isSign) where
  lossless := splitSign_append
  mem text := by
    unfold splitSign
    split
    · exact .inr ⟨'+', rfl, rfl⟩
    · exact .inr ⟨'-', rfl, rfl⟩
    · exact .inl rfl
  longest := by
    rintro a (rfl | ⟨c, sign, rfl⟩) rest
    · exact Nat.zero_le _
    · rcases Bool.or_eq_true_iff.mp sign with plus | minus
      · rw [beq_iff_eq.mp plus]
        exact Nat.le_refl _
      · rw [beq_iff_eq.mp minus]
        exact Nat.le_refl _

theorem goesOn_sign : GoesOn splitSign (1 + single isSign) isSign := by
  rintro a (rfl | ⟨d, sign, rfl⟩) c rest longer
  · rw [List.nil_append] at longer
    unfold splitSign at longer
    split at longer
    · next same =>
      rw [(List.cons.inj same).1]
      rfl
    · next same =>
      rw [(List.cons.inj same).1]
      rfl
    · exact absurd longer (Nat.lt_irrefl _)
  · rcases Bool.or_eq_true_iff.mp sign with plus | minus
    · rw [beq_iff_eq.mp plus] at longer
      exact absurd longer (Nat.lt_irrefl _)
    · rw [beq_iff_eq.mp minus] at longer
      exact absurd longer (Nat.lt_irrefl _)

theorem cuts_exponent : Cuts splitExponent exponents where
  lossless := splitExponent_append
  mem text := by
    unfold splitExponent
    split
    · exact .inl rfl
    · next c rest =>
      dsimp only
      split
      · next both =>
        obtain ⟨letter, digits⟩ := both
        have power := Language.append_mem_mul (cuts_sign.mem rest)
          (splitDigits_mem_several _ digits)
        exact .inr (Language.append_mem_mul (a := [c]) ⟨c, by simpa [isExponentLetter] using letter,
          rfl⟩ power)
      · exact .inl rfl
  longest := by
    rintro a (rfl | ⟨_, ⟨c, letter, rfl⟩, _, ⟨sign, optional, digits, inside, rfl⟩, rfl⟩) rest
    · exact Nat.zero_le _
    · obtain ⟨_, all⟩ := mem_several.mp inside
      have bound := cuts_digits.longest (mem_star_single.mpr all) rest
      have stop : splitSign (sign ++ (digits ++ rest)) = (sign, digits ++ rest) :=
        cuts_sign.split_append goesOn_sign optional
          (head_digits_append inside rest isSign_of_isDigit)
      have power : splitExponent (c :: (sign ++ (digits ++ rest))) =
          (c :: (sign ++ (splitDigits (digits ++ rest)).1), (splitDigits (digits ++ rest)).2) := by
        rw [splitExponent, stop]
        exact if_pos ⟨by simpa [isExponentLetter] using letter, splitDigits_ne_nil inside rest⟩
      change (c :: (sign ++ digits)).length ≤
        (splitExponent (c :: (sign ++ digits ++ rest))).1.length
      rw [List.append_assoc, power]
      simpa using bound

/-! ## Numerals -/

theorem startsIn_exponents : StartsIn exponents isExponentLetter :=
  ((StartsIn.single isExponentLetter).mul_of_nonempty fun ⟨_, _, empty⟩ => nomatch empty).optional

theorem startsIn_fractions : StartsIn fractions (· == '.') := by
  refine StartsIn.optional ?_
  rintro _ ⟨_, rfl, digits, _, rfl⟩ c first
  cases Option.some.inj first
  rfl

theorem isExponentLetter_iff {c : Char} : isExponentLetter c = true ↔ c = 'e' ∨ c = 'E' := by
  simp [isExponentLetter]

/-- Behind the digits of a numeral, its fraction and exponent are cut off together. -/
theorem cuts_tail : Cuts (splitBoth splitFraction splitExponent) (fractions * exponents) := by
  refine cuts_fraction.mul cuts_exponent goesOn_fraction startsIn_exponents fun c letter => ?_
  rcases isExponentLetter_iff.mp letter with rfl | rfl
  · rfl
  · rfl

/-- Neither a fraction nor an exponent starts with a digit. -/
theorem isDigit_of_startsTail (c : Char) (starts : (c == '.' || isExponentLetter c) = true) :
    c.isDigit = false := by
  rcases Bool.or_eq_true_iff.mp starts with point | letter
  · rw [beq_iff_eq.mp point]
    rfl
  · rcases isExponentLetter_iff.mp letter with rfl | rfl
    · rfl
    · rfl

/-- Behind the sign of a numeral, all the rest of it is cut off together. -/
theorem cuts_unsigned :
    Cuts (splitBoth splitDigits (splitBoth splitFraction splitExponent))
      ((single Char.isDigit)∗ * (fractions * exponents)) :=
  cuts_digits.mul cuts_tail goesOn_digits (startsIn_fractions.mul startsIn_exponents)
    isDigit_of_startsTail

/-- The parts that are split off a text, one behind the other, with what is behind them. -/
structure SplitsInto (sign whole fraction exponent behind : List Char) : Prop where
  cutSign : splitMinus (sign ++ (whole ++ (fraction ++ (exponent ++ behind)))) =
    (sign, whole ++ (fraction ++ (exponent ++ behind)))
  cutWhole : splitDigits (whole ++ (fraction ++ (exponent ++ behind))) =
    (whole, fraction ++ (exponent ++ behind))
  cutFraction : splitFraction (fraction ++ (exponent ++ behind)) = (fraction, exponent ++ behind)
  cutExponent : splitExponent (exponent ++ behind) = (exponent, behind)
  digits : whole ≠ []

section Parts

variable {text taken behind sign whole fraction exponent : List Char} {numeral : Numeral}

/-- What a numeral that is split off consists of. -/
theorem splitNumeral?_parts (found : splitNumeral? text = some ((taken, numeral), behind)) :
    ∃ sign whole fraction exponent, SplitsInto sign whole fraction exponent behind ∧
      text = taken ++ behind ∧ taken = sign ++ (whole ++ (fraction ++ exponent)) ∧
      numeral = ⟨!sign.isEmpty, whole, fraction.drop 1, exponentValue? exponent⟩ := by
  have lossless := splitNumeral?_append found
  rcases cutSign : splitMinus text with ⟨sign, unsigned⟩
  rcases cutWhole : splitDigits unsigned with ⟨whole, tail⟩
  rcases cutFraction : splitFraction tail with ⟨fraction, power⟩
  rcases cutExponent : splitExponent power with ⟨exponent, rest⟩
  simp only [splitNumeral?, cutSign, cutWhole, cutFraction, cutExponent] at found
  obtain rfl := cuts_minus.append_eq cutSign
  obtain rfl := cuts_digits.append_eq cutWhole
  obtain rfl := cuts_fraction.append_eq cutFraction
  obtain rfl := cuts_exponent.append_eq cutExponent
  split at found
  · cases found
  · next digits =>
    cases found
    refine ⟨sign, whole, fraction, exponent, ⟨cutSign, cutWhole, cutFraction, cutExponent, ?_⟩,
      lossless.symm, by simp only [List.append_assoc], rfl⟩
    simpa using digits

theorem SplitsInto.splitNumeral? (parts : SplitsInto sign whole fraction exponent behind) :
    splitNumeral? (sign ++ (whole ++ (fraction ++ (exponent ++ behind)))) =
      some ((sign ++ (whole ++ (fraction ++ exponent)),
        ⟨!sign.isEmpty, whole, fraction.drop 1, exponentValue? exponent⟩), behind) := by
  simp only [JsonShape.splitNumeral?, parts.cutSign, parts.cutWhole, parts.cutFraction,
    parts.cutExponent, List.append_assoc]
  rw [if_neg (by simpa using parts.digits)]

/-- The parts of a numeral are split off as before if less stands behind it. -/
theorem SplitsInto.before {kept rest : List Char}
    (parts : SplitsInto sign whole fraction exponent (kept ++ rest)) :
    SplitsInto sign whole fraction exponent kept where
  cutSign := by
    have before := cuts_minus.before sign (whole ++ (fraction ++ (exponent ++ kept))) rest
    simp only [List.append_assoc] at before
    exact before parts.cutSign
  cutWhole := by
    have before := cuts_digits.before whole (fraction ++ (exponent ++ kept)) rest
    simp only [List.append_assoc] at before
    exact before parts.cutWhole
  cutFraction := by
    have before := cuts_fraction.before fraction (exponent ++ kept) rest
    simp only [List.append_assoc] at before
    exact before parts.cutFraction
  cutExponent := cuts_exponent.before exponent kept rest parts.cutExponent
  digits := parts.digits

end Parts

/-- What is split off as a numeral is one. -/
theorem mem_of_splitNumeral? {text taken behind : List Char} {numeral : Numeral}
    (found : splitNumeral? text = some ((taken, numeral), behind)) : taken ∈ numerals := by
  obtain ⟨sign, whole, fraction, exponent, parts, _, rfl, _⟩ := splitNumeral?_parts found
  have inSign := cuts_minus.mem (sign ++ (whole ++ (fraction ++ (exponent ++ behind))))
  have inWhole := splitDigits_mem_several (whole ++ (fraction ++ (exponent ++ behind)))
    (by rw [parts.cutWhole]; exact parts.digits)
  have inFraction := cuts_fraction.mem (fraction ++ (exponent ++ behind))
  have inExponent := cuts_exponent.mem (exponent ++ behind)
  rw [parts.cutSign] at inSign
  rw [parts.cutWhole] at inWhole
  rw [parts.cutFraction] at inFraction
  rw [parts.cutExponent] at inExponent
  exact Language.append_mem_mul inSign (Language.append_mem_mul inWhole
    (Language.append_mem_mul inFraction inExponent))

/-- Before digits, no more than the sign of a numeral is split off. -/
theorem splitMinus_append_digits {sign digits : List Char} (inSign : sign ∈ minusSigns)
    (inDigits : digits ∈ several Char.isDigit) (rest : List Char) :
    splitMinus (sign ++ (digits ++ rest)) = (sign, digits ++ rest) := by
  refine cuts_minus.split_append goesOn_minus inSign (head_digits_append inDigits rest ?_)
  intro c digit
  rw [beq_eq_false_iff_ne]
  intro minus
  rw [minus] at digit
  cases digit

/-- Where a text starts with a numeral, one is split off that is at least as long. -/
theorem exists_splitNumeral? {a : List Char} (inside : a ∈ numerals) (rest : List Char) :
    ∃ taken numeral behind, splitNumeral? (a ++ rest) = some ((taken, numeral), behind) ∧
      a.length ≤ taken.length := by
  obtain ⟨sign, inSign, _, ⟨digits, inDigits, tail, inTail, rfl⟩, rfl⟩ := inside
  dsimp only
  have stop := splitMinus_append_digits inSign inDigits (tail ++ rest)
  have bound := cuts_unsigned.longest (Language.append_mem_mul
    (mem_star_single.mpr (mem_several.mp inDigits).2) inTail) rest
  have nonempty := splitDigits_ne_nil inDigits (tail ++ rest)
  simp only [List.append_assoc, splitNumeral?, stop, splitBoth, List.length_append] at bound ⊢
  rw [if_neg (by simpa using nonempty)]
  refine ⟨_, _, _, rfl, ?_⟩
  simp only [List.length_append]
  omega

/-- A numeral is split off and read as before if less stands behind it. -/
theorem splitNumeral?_before {text taken rest : List Char} {numeral : Numeral} (kept : List Char)
    (found : splitNumeral? text = some ((taken, numeral), kept ++ rest)) :
    splitNumeral? (taken ++ kept) = some ((taken, numeral), kept) := by
  obtain ⟨sign, whole, fraction, exponent, parts, _, rfl, rfl⟩ := splitNumeral?_parts found
  simpa only [List.append_assoc] using parts.before.splitNumeral?

/-- Alone, a numeral is split off and read as before. -/
theorem splitNumeral?_alone {text taken behind : List Char} {numeral : Numeral}
    (found : splitNumeral? text = some ((taken, numeral), behind)) :
    splitNumeral? taken = some ((taken, numeral), []) := by
  simpa only [List.append_nil] using splitNumeral?_before [] found

/-- A numeral starts with its sign or a digit. -/
theorem startsIn_numerals : StartsIn numerals fun c => c == '-' || c.isDigit := by
  rintro _ ⟨sign, inSign, _, ⟨digits, inDigits, tail, _, rfl⟩, rfl⟩ c first
  obtain ⟨nonempty, all⟩ := mem_several.mp inDigits
  obtain ⟨d, more, rfl⟩ := List.exists_cons_of_ne_nil nonempty
  rcases inSign with rfl | rfl
  · have head : d = c := Option.some.inj first
    rw [← head]
    simp [all d List.mem_cons_self]
  · cases Option.some.inj first
    rfl

theorem nil_notMem_numerals : [] ∉ numerals := by
  rintro ⟨sign, _, _, ⟨digits, inDigits, tail, _, rfl⟩, empty⟩
  have nothing := (List.append_eq_nil_iff.mp (List.append_eq_nil_iff.mp empty).2).1
  exact (mem_several.mp inDigits).1 nothing

/-- A numeral has a first character, its sign or a digit. -/
theorem exists_cons_of_numerals {text : List Char} (inside : text ∈ numerals) :
    ∃ c rest, text = c :: rest ∧ (c = '-' ∨ c.isDigit = true) := by
  cases text with
  | nil => exact absurd inside nil_notMem_numerals
  | cons c rest =>
    have starts := startsIn_numerals _ inside c rfl
    refine ⟨c, rest, rfl, ?_⟩
    exact (Bool.or_eq_true_iff.mp starts).imp_left beq_iff_eq.mp

end JsonShape
