import Mathlib.Data.Nat.Digits.Defs
import JsonShape.Proofs.Number.Stepwise
import JsonShape.Proofs.Source.Pieces
import JsonShape.Rule.Printer

/-!
# Integer literals

A text of an optional minus sign and digits is scanned as one number, which is the integer written,
or refused as a whole.

* `writtenInteger` is the integer by the places of its digits; `writtenInteger_eq`.
* `accumulate?` reads digits into a word of bounded range and gives up at the first step that leaves
  it.  Magnitudes only grow, so `accumulate?_eq`: it answers exactly if the integer itself is in
  range.
* `readWords?_eq`: of a signed and an unsigned word of 64 bits, tried in this order, one answers
  exactly for the integers that a number can hold.
* `scan_integerLiteral` says what a scan of the text finds, and of the canonical source of the
  number.
-/

namespace JsonShape

open Double (signed)

/-! ## The integer written -/

/-- The integer of a sign and digits: the last digit counts ones, the one before it tens, and so
on. -/
def writtenInteger (negative : Bool) (digits : List Char) : Int :=
  (if negative then -1 else 1) * (Nat.ofDigits 10 (digits.reverse.map digitValue) : Nat)

theorem digitsValue_eq_ofDigits (digits : List Char) :
    digitsValue digits = Nat.ofDigits 10 (digits.reverse.map digitValue) := by
  induction digits using List.reverseRecOn with
  | nil => rfl
  | append_singleton digits c ih =>
    have last : digitsValue (digits ++ [c]) = 10 * digitsValue digits + digitValue c :=
      List.foldl_append
    rw [last, ih, List.reverse_concat, List.map_cons, Nat.ofDigits_cons, Nat.add_comm]

theorem writtenInteger_eq (negative : Bool) (digits : List Char) :
    writtenInteger negative digits = signedValue negative digits := by
  rw [writtenInteger, ← digitsValue_eq_ofDigits, signedValue]
  cases negative with
  | true => rw [if_pos rfl, if_pos rfl, Int.neg_one_mul]
  | false => rw [if_neg Bool.false_ne_true, if_neg Bool.false_ne_true, Int.one_mul]

/-! ## Words of bounded range -/

/-- Digits appended to a value one by one, away from zero.  Where a product or a sum leaves the
range there is no answer. -/
def accumulate? (lower upper : Int) (negative : Bool) (value : Int) : List Char → Option Int
  | [] => some value
  | c :: rest =>
    let next := if negative then 10 * value - digitValue c else 10 * value + digitValue c
    if (lower ≤ 10 * value ∧ 10 * value ≤ upper) ∧ lower ≤ next ∧ next ≤ upper then
      accumulate? lower upper negative next rest
    else none

section

variable {lower upper : Int} (zero : lower ≤ 0 ∧ 0 ≤ upper)

include zero

/-- What is nearer to zero than a value in range is in range. -/
theorem between_of_le {negative : Bool} {m n : Nat} (nearer : m ≤ n)
    (inside : lower ≤ signed negative n ∧ signed negative n ≤ upper) :
    lower ≤ signed negative m ∧ signed negative m ≤ upper := by
  unfold signed at inside ⊢
  cases negative with
  | true => simp only [if_true] at inside ⊢; omega
  | false => simp only [Bool.false_eq_true, if_false] at inside ⊢; omega

/-- A value with some more digits is in range, on the way and at the end, exactly if it is in range
at the end. -/
theorem accumulate?_eq (negative : Bool) {n : Nat}
    (start : lower ≤ signed negative n ∧ signed negative n ≤ upper) (digits : List Char) :
    accumulate? lower upper negative (signed negative n) digits =
      if lower ≤ signed negative (Nat.ofDigitChars 10 digits n) ∧
          signed negative (Nat.ofDigitChars 10 digits n) ≤ upper then
        some (signed negative (Nat.ofDigitChars 10 digits n))
      else none := by
  induction digits generalizing n with
  | nil => exact (if_pos start).symm
  | cons c rest ih =>
    have product : 10 * signed negative n = signed negative (10 * n) := by
      rw [Nat.mul_comm, Double.signed_mul, Int.mul_comm]
      rfl
    have sum : (if negative then signed negative (10 * n) - digitValue c
        else signed negative (10 * n) + digitValue c) = signed negative (10 * n + digitValue c) := by
      unfold signed
      cases negative with
      | true => simp only [if_true]; omega
      | false => simp only [Bool.false_eq_true, if_false]; omega
    have whole : Nat.ofDigitChars 10 (c :: rest) n =
        Nat.ofDigitChars 10 rest (10 * n + digitValue c) := rfl
    simp only [accumulate?, product, sum, whole]
    by_cases inside : lower ≤ signed negative (10 * n + digitValue c) ∧
        signed negative (10 * n + digitValue c) ≤ upper
    · rw [if_pos ⟨between_of_le zero (Nat.le_add_right _ _) inside, inside⟩, ih inside]
    · -- Digits only lead away from zero: what is out of range stays so.
      rw [if_neg fun both => inside both.2, if_neg fun final =>
        inside (between_of_le zero (Numeral.le_ofDigitChars rest _) final)]

theorem accumulate?_zero (negative : Bool) (digits : List Char) :
    accumulate? lower upper negative 0 digits =
      if lower ≤ signedValue negative digits ∧ signedValue negative digits ≤ upper then
        some (signedValue negative digits)
      else none := by
  have start : signed negative 0 = 0 := by cases negative <;> rfl
  have total := accumulate?_eq zero negative (n := 0) (by rwa [start]) digits
  rw [start] at total
  exact total

end

/-- Digits read into a signed word of 64 bits and, where that has no answer and there is no sign,
into an unsigned one. -/
def readWords? (negative : Bool) (digits : List Char) : Option Int :=
  (accumulate? (-2 ^ 63) (2 ^ 63 - 1) negative 0 digits).or
    (if negative then none else accumulate? 0 (2 ^ 64 - 1) false 0 digits)

/-- One of the two words has the integer exactly if a number can hold it. -/
theorem readWords?_eq (negative : Bool) (digits : List Char) :
    readWords? negative digits =
      if Integral (signedValue negative digits) then some (signedValue negative digits)
      else none := by
  rw [readWords?, accumulate?_zero (by decide), accumulate?_zero (by decide)]
  cases negative with
  | true =>
    have below : signedValue true digits ≤ 0 := Int.neg_nonpos_of_nonneg (Int.natCast_nonneg _)
    have same : (-2 ^ 63 ≤ signedValue true digits ∧ signedValue true digits ≤ 2 ^ 63 - 1) ↔
        Integral (signedValue true digits) := by
      unfold Integral
      omega
    rw [if_pos rfl, Option.or_none, if_congr same rfl rfl]
  | false =>
    have above : 0 ≤ signedValue false digits := Int.natCast_nonneg _
    rw [if_neg Bool.false_ne_true]
    by_cases small : -2 ^ 63 ≤ signedValue false digits ∧ signedValue false digits ≤ 2 ^ 63 - 1
    · have fits : Integral (signedValue false digits) := by
        unfold Integral
        omega
      rw [if_pos small, Option.some_or, if_pos fits]
    · have same : (0 ≤ signedValue false digits ∧ signedValue false digits ≤ 2 ^ 64 - 1) ↔
          Integral (signedValue false digits) := by
        unfold Integral
        omega
      rw [if_neg small, Option.none_or, if_congr same rfl rfl]

/-! ## Scans -/

/-- A text is scanned as one token, which takes all of it. -/
def ScansAs (text : List Char) (token : Token) : Prop :=
  scan text = [.ok ⟨token, .start, Position.start.past text⟩]

/-- The canonical source of a number literal is scanned as the number. -/
theorem scansAs_render (n : Number) :
    ScansAs (Rule.numberLiteral n).render.toList (.number n) := by
  rw [ScansAs, Rule.render, String.toList_ofList, Rule.chars]
  exact (Spelling.number n).scan

/-- A sign and digits are scanned as what their numeral is read as. -/
theorem scan_digits (negative : Bool) {digits : List Char} (all : AllDigits digits)
    (nonempty : digits ≠ []) :
    scan (minusSign negative ++ digits) =
      [(⟨minusSign negative ++ digits, [],
        numeralContent (minusSign negative ++ digits) ⟨negative, digits, [], none⟩⟩ : Piece).item
          .start] := by
  have split := splitNumeral?_written ⟨negative, digits, [], none⟩ all nonempty
    (fun _ listed => absurd listed List.not_mem_nil) Closes.nil.endsNumeral
  have written : (⟨negative, digits, [], none⟩ : Numeral).written = minusSign negative ++ digits :=
    congrArg (minusSign negative ++ ·) (List.append_nil digits)
  rw [List.append_nil, written] at split
  exact scan_of_splitNumeral? split

/-- Integer literals are exact or refused.  An optional minus sign and digits, however many and
with whatever zeros in front, are scanned as one item.  It is a number that holds exactly the
integer written, as an integer, if this is between `-2 ^ 63` and `2 ^ 64 - 1`; then one of the words
of 64 bits has it, and the canonical source of the literal is scanned as the same number.  Otherwise
no word has it, and it is a fault that tells the whole text. -/
theorem scan_integerLiteral (negative : Bool) {digits : List Char} (all : AllDigits digits)
    (nonempty : digits ≠ []) :
    (-2 ^ 63 ≤ writtenInteger negative digits ∧ writtenInteger negative digits ≤ 2 ^ 64 - 1 →
      readWords? negative digits = some (writtenInteger negative digits) ∧
      ∃ n fits, n = Number.integer (writtenInteger negative digits) fits ∧
        ScansAs (minusSign negative ++ digits) (.number n) ∧
        ScansAs (Rule.numberLiteral n).render.toList (.number n)) ∧
    (¬(-2 ^ 63 ≤ writtenInteger negative digits ∧ writtenInteger negative digits ≤ 2 ^ 64 - 1) →
      readWords? negative digits = none ∧
      scan (minusSign negative ++ digits) =
        [.error ⟨.start,
          .lexical (.invalidNumber (String.ofList (minusSign negative ++ digits)))⟩]) := by
  have range : (-2 ^ 63 ≤ writtenInteger negative digits ∧
      writtenInteger negative digits ≤ 2 ^ 64 - 1) ↔ Integral (writtenInteger negative digits) := by
    unfold Integral
    omega
  have read : (⟨negative, digits, [], none⟩ : Numeral).nearest? =
      Number.ofInt? (writtenInteger negative digits) := by
    rw [writtenInteger_eq]
    rfl
  have scanned := scan_digits negative all nonempty
  rw [numeralContent, read, Number.ofInt?] at scanned
  rw [range, readWords?_eq, ← writtenInteger_eq]
  refine ⟨fun fits => ?_, fun outside => ?_⟩
  · rw [dif_pos fits] at scanned
    exact ⟨if_pos fits, _, fits, rfl, scanned, scansAs_render _⟩
  · rw [dif_neg outside] at scanned
    exact ⟨if_neg outside, scanned⟩

/-- The least integer with zeros in front is taken, and one more than the greatest is refused. -/
theorem scan_integerLiteral_bounds :
    writtenInteger true "009223372036854775808".toList = -2 ^ 63 ∧
    (∃ n fits, n = Number.integer (writtenInteger true "009223372036854775808".toList) fits ∧
      ScansAs "-009223372036854775808".toList (.number n) ∧
      ScansAs (Rule.numberLiteral n).render.toList (.number n)) ∧
    writtenInteger false "18446744073709551616".toList = 2 ^ 64 ∧
    scan "18446744073709551616".toList =
      [.error ⟨.start, .lexical (.invalidNumber "18446744073709551616")⟩] := by
  have least := @scan_integerLiteral true "009223372036854775808".toList (by simp [AllDigits])
    (by decide)
  have beyond := @scan_integerLiteral false "18446744073709551616".toList (by simp [AllDigits])
    (by decide)
  exact ⟨by decide, (least.1 (by decide)).2, by decide, (beyond.2 (by decide)).2⟩

end JsonShape
