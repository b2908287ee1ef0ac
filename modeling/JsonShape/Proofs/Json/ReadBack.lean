import JsonShape.Json.Printer
import JsonShape.Proofs.Json.Raw
import JsonShape.Proofs.Json.Reading
import JsonShape.Proofs.Number.Rereading

/-!
# Documents read back

A document is written without white space, and this text is read as the document, with its numbers
read again.

* `Number.splitJsonNumeral?_chars` and `exists_quoted`: a number or a string is split off a text as
  what was written, up to what stands behind it.
* `Raw.readable_reading`: only values that respect the depth and name their members once are read,
  and so are the documents (`Json.readable_of_parse?`).
* `Json.Readable.readsBack` is the converse, by induction on the value, with any text behind it.
* `Json.parse?_compactChars` states it for documents: the result is `Json.reread`, which is the
  document itself exactly if its numbers are steady.
* `Json.noControls_compactChars`: the text is on one line, as control characters are escaped.
-/

namespace JsonShape

/-! ## Numbers -/

/-- Only zero starts with the digit zero. -/
theorem eq_zero_of_head_toDigits {n : Nat} (first : (Nat.toDigits 10 n).head? = some '0') :
    n = 0 := by
  induction n using Nat.strong_induction_on with
  | _ n ih =>
    rcases Nat.lt_or_ge n 10 with one | more
    · rw [Nat.toDigits_of_lt_base one] at first
      have all : ∀ d < 10, [Nat.digitChar d].head? = some '0' → d = 0 := by decide
      exact all n one first
    · rw [Nat.toDigits_of_base_le (by decide) more,
        List.head?_append_of_ne_nil _ Nat.toDigits_ne_nil] at first
      have := ih (n / 10) (by omega) first
      omega

theorem NumberLayout.length_whole_numeral (layout : NumberLayout) (negative : Bool) {d : Decimal}
    (flat : d.digits = 0 → d.exponent = 0)
    (first : (layout.numeral negative d).whole.head? = some '0') :
    (layout.numeral negative d).whole.length = 1 := by
  have nonempty : 0 < (Nat.toDigits 10 d.digits).length := Nat.length_toDigits_pos
  unfold numeral at first ⊢
  dsimp only at first ⊢
  split at first
  · next scientific =>
    rw [if_pos scientific, Numeral.scientific, List.length_take]
    omega
  · next positional =>
    rw [if_neg positional]
    split at first
    · next above =>
      have leading : (Nat.toDigits 10 d.digits).head? = some '0' := by
        rw [← first, Numeral.pointed, List.head?_append_of_ne_nil, List.head?_take,
          if_neg (Nat.succ_ne_zero _)]
        rw [Ne, List.take_eq_nil_iff]
        simp [Nat.toDigits_ne_nil]
      have zero := eq_zero_of_head_toDigits leading
      rw [if_pos above, zero, flat zero]
      rfl
    · next below =>
      rw [if_neg below]
      rfl

namespace Number

/-- The numeral of a number starts with zero only if this is its only digit before the point. -/
theorem length_whole_numeral {n : Number} (first : n.numeral.whole.head? = some '0') :
    n.numeral.whole.length = 1 := by
  cases n with
  | integer n fits =>
    change (Nat.toDigits 10 n.natAbs).head? = some '0' at first
    change (Nat.toDigits 10 n.natAbs).length = 1
    rw [eq_zero_of_head_toDigits first]
    rfl
  | double d =>
    refine NumberLayout.length_whole_numeral _ _ (fun zero => ?_) first
    rcases Nat.eq_zero_or_pos d.significand with none | positive
    · rw [Double.shortest_zero none]
    · obtain ⟨digits, power, found, many, _⟩ := Double.shortest_of_ne_zero (Nat.ne_of_gt positive)
      rw [found] at zero
      exact absurd zero (Nat.ne_of_gt many)

/-- A number is split off as its numeral by the reader of documents too. -/
theorem splitJsonNumeral?_chars (n : Number) {rest : List Char} (ends : EndsNumeral rest) :
    splitJsonNumeral? (n.chars ++ rest) = some (n.numeral, rest) := by
  have whole : ¬(n.numeral.whole.head? = some '0' ∧ n.numeral.whole.length ≠ 1) :=
    fun ⟨first, more⟩ => more (length_whole_numeral first)
  have complete : ¬n.numeral.isCutShort rest = true := by
    have other (c : Char) (marks : c = '.' ∨ c = 'e' ∨ c = 'E') : rest.head? ≠ some c := by
      intro first
      obtain ⟨_, point, lower, upper⟩ := ends c first
      rcases marks with rfl | rfl | rfl
      · exact point rfl
      · exact lower rfl
      · exact upper rfl
    simp [Numeral.isCutShort, other]
  rw [splitJsonNumeral?, n.splitNumeral?_chars ends, Option.bind_some]
  dsimp only
  rw [if_neg whole, if_neg complete]

end Number

/-! ## Strings -/

/-- In a document a character is written as it is, as a backslash and a letter, or by its
number. -/
theorem Quoting.json_cases (c : Char) :
    (json c = none ∧ c ≠ '"' ∧ c ≠ '\\' ∧ ¬c.toNat < 0x20) ∨
      (∃ e, json c = some ['\\', e] ∧ e ≠ 'u' ∧ jsonEscape? e = some c ∧ ¬e.toNat < 0x20) ∨
      (json c = some ('\\' :: 'u' :: hexadecimal 4 c.toNat) ∧ c.toNat < 0x20) := by
  unfold json
  split
  · exact .inr (.inl ⟨_, rfl, by decide, rfl, by decide⟩)
  · exact .inr (.inl ⟨_, rfl, by decide, rfl, by decide⟩)
  · exact .inr (.inl ⟨_, rfl, by decide, rfl, by decide⟩)
  · exact .inr (.inl ⟨_, rfl, by decide, rfl, by decide⟩)
  · exact .inr (.inl ⟨_, rfl, by decide, rfl, by decide⟩)
  · exact .inr (.inl ⟨_, rfl, by decide, rfl, by decide⟩)
  · exact .inr (.inl ⟨_, rfl, by decide, rfl, by decide⟩)
  · next noQuote noEscape _ _ _ _ _ =>
    split
    · next control => exact .inr (.inr ⟨rfl, control⟩)
    · next shown => exact .inl ⟨rfl, noQuote, noEscape, shown⟩

/-- The digits of a number below thirty-two. -/
theorem Quoting.hexadecimal_four {n : Nat} (small : n < 0x20) :
    hexadecimal 4 n = ['0', '0', Nat.digitChar (n / 16), Nat.digitChar (n % 16)] := by
  have all : ∀ n < 0x20,
      hexadecimal 4 n = ['0', '0', Nat.digitChar (n / 16), Nat.digitChar (n % 16)] := by decide
  exact all n small

theorem hexUnit?_digitChar {n : Nat} (small : n < 0x20) :
    hexUnit? '0' '0' (Nat.digitChar (n / 16)) (Nat.digitChar (n % 16)) = some n := by
  have all : ∀ n < 0x20,
      hexUnit? '0' '0' (Nat.digitChar (n / 16)) (Nat.digitChar (n % 16)) = some n := by decide
  exact all n small

theorem joinElements?_unit {n : Nat} (small : n < 0x20) (elements : List StringElement) :
    joinElements? (.unit n :: elements) = (joinElements? elements).map (Char.ofNat n :: ·) := by
  have low : ¬isLowSurrogate n = true := by
    simp only [isLowSurrogate, Bool.and_eq_true, decide_eq_true_eq]
    omega
  have high : ¬isHighSurrogate n = true := by
    simp only [isHighSurrogate, Bool.and_eq_true, decide_eq_true_eq]
    omega
  rw [joinElements?.eq_def]
  dsimp only
  rw [if_neg low, if_neg high]

/-- A character of a string is read back as one element, which stands for the character. -/
theorem exists_element (c : Char) : ∃ element,
    (∀ rest, splitJsonString? (Quoting.json.char c ++ rest) =
      (splitJsonString? rest).map fun split => (element :: split.1, split.2)) ∧
    ∀ elements, joinElements? (element :: elements) = (joinElements? elements).map (c :: ·) := by
  rcases Quoting.json_cases c with
    ⟨plain, noQuote, noEscape, shown⟩ | ⟨e, written, letter, denotes, _⟩ | ⟨written, control⟩
  · refine ⟨.char c, fun rest => ?_, fun _ => rfl⟩
    rw [Quoting.char, plain, Option.getD_none, List.singleton_append,
      splitJsonString?_plain noQuote noEscape shown]
  · refine ⟨.char c, fun rest => ?_, fun _ => rfl⟩
    rw [Quoting.char, written, Option.getD_some, List.cons_append, List.singleton_append,
      splitJsonString?_escaped letter, denotes, Option.bind_some]
  · refine ⟨.unit c.toNat, fun rest => ?_, fun elements => ?_⟩
    · rw [Quoting.char, written, Quoting.hexadecimal_four control]
      simp only [Option.getD_some, List.cons_append, List.nil_append, splitJsonString?,
        hexUnit?_digitChar control, Option.bind_some]
    · rw [joinElements?_unit control, Char.ofNat_toNat]

theorem exists_elements (text rest : List Char) : ∃ elements,
    splitJsonString? (Quoting.json.body text ++ '"' :: rest) = some (elements, rest) ∧
      joinElements? elements = some text := by
  induction text with
  | nil => exact ⟨[], rfl, rfl⟩
  | cons c more ih =>
    obtain ⟨elements, split, joined⟩ := ih
    obtain ⟨element, first, stands⟩ := exists_element c
    refine ⟨element :: elements, ?_, ?_⟩
    · rw [Quoting.body, List.flatMap_cons, List.append_assoc, first]
      exact congrArg (Option.map _) split
    · rw [stands, joined]
      rfl

/-- A string in quotes is read as the string, up to its closing quote. -/
theorem exists_quoted (s : String) (rest : List Char) : ∃ inside elements,
    Json.quoted s ++ rest = '"' :: inside ∧ splitJsonString? inside = some (elements, rest) ∧
      stringOf? elements = some s := by
  obtain ⟨elements, split, joined⟩ := exists_elements s.toList rest
  refine ⟨Quoting.json.body s.toList ++ '"' :: rest, elements, ?_, split, ?_⟩
  · rw [Json.quoted, Quoting.write, List.cons_append, List.append_assoc, List.singleton_append]
  · rw [stringOf?, joined, Option.map_some, String.ofList_toList]

/-! ## Values that are read -/

namespace Raw

theorem value?_bounded {allowed : Bool} {container : Raw} {value : Json}
    (valued : (bounded allowed container).value? = some value) :
    allowed = true ∧ container.value? = some value := by
  unfold bounded at valued
  cases allowed with
  | true => exact ⟨rfl, valued⟩
  | false =>
    rw [if_neg Bool.false_ne_true] at valued
    split at valued <;> cases valued

/-- A container has its value only where its own level is allowed. -/
theorem readableWithin_bounded {levels : Nat} {container : Raw}
    (within : container.ReadableWithin (levels - 1 + 1)) :
    (bounded (0 < levels) container).ReadableWithin levels := by
  intro value valued
  obtain ⟨allowed, own⟩ := value?_bounded valued
  rw [Nat.sub_add_cancel (of_decide_eq_true allowed)] at within
  exact within value own

theorem readableWithin_of_splitScalar? (levels : Nat) {text behind : List Char} {raw : Raw}
    (split : splitScalar? text = some (raw, behind)) : raw.ReadableWithin levels := by
  have word {text : List Char} (found : jsonWord? text = some (raw, behind)) :
      raw.ReadableWithin levels := by
    unfold jsonWord? at found
    split at found <;> cases found <;> exact readableWithin_scalar levels nofun nofun
  unfold splitScalar? at split
  split at split
  · obtain ⟨⟨elements, rest⟩, _, same⟩ := Option.map_eq_some_iff.mp split
    cases same
    unfold rawString
    split <;> exact readableWithin_scalar levels nofun nofun
  · split at split
    · cases split
      unfold rawNumber
      split <;> exact readableWithin_scalar levels nofun nofun
    · exact word split

variable {levels : Nat} {text : List Char}

/-- The value at the start of a text is a container of what stands in shorter texts, or none. -/
theorem readableWithin_reading
    (items : ∀ levels rest, rest.length < text.length →
      ∀ item ∈ (itemsReading levels rest).1.1, item.ReadableWithin levels)
    (members : ∀ levels rest, rest.length < text.length →
      ∀ member ∈ (membersReading levels rest).1.1, member.2.ReadableWithin levels) :
    (reading levels text).1.ReadableWithin levels := by
  rw [reading_eq]
  split
  · next rest bracket =>
    have shorter := length_of_after? bracket
    split
    · exact readableWithin_bounded (readableWithin_array true (List.forall_mem_nil _))
    · exact readableWithin_bounded (readableWithin_array _ (items _ rest shorter))
  · split
    · next rest brace =>
      have shorter := length_of_after? brace
      split
      · exact readableWithin_bounded (readableWithin_object true (List.forall_mem_nil _))
      · exact readableWithin_bounded (readableWithin_object _ (members _ rest shorter))
    · split
      · next split => exact readableWithin_of_splitScalar? levels split
      · exact readableWithin_scalar levels nofun nofun

/-- The items at the start of a text are the value there, and items of a shorter text. -/
theorem readableWithin_itemsReading (first : (reading levels text).1.ReadableWithin levels)
    (items : ∀ rest, rest.length < text.length →
      ∀ item ∈ (itemsReading levels rest).1.1, item.ReadableWithin levels) :
    ∀ item ∈ (itemsReading levels text).1.1, item.ReadableWithin levels := by
  have lone : ∀ item ∈ [(reading levels text).1], item.ReadableWithin levels :=
    List.forall_mem_singleton.mpr first
  rw [itemsReading_eq]
  split
  · dsimp only
    split
    · exact lone
    · next behind found =>
      split
      · exact lone
      · split
        · next rest comma =>
          have shorter := (length_of_after? comma).trans (length_of_reading found)
          exact List.forall_mem_cons.mpr ⟨first, items rest shorter⟩
        · exact lone
  · exact List.forall_mem_nil _

/-- The members at the start of a text are that of a value in a shorter text, and members of one
that is shorter still. -/
theorem readableWithin_membersReading
    (value : ∀ rest, rest.length < text.length → (reading levels rest).1.ReadableWithin levels)
    (members : ∀ rest, rest.length < text.length →
      ∀ member ∈ (membersReading levels rest).1.1, member.2.ReadableWithin levels) :
    ∀ member ∈ (membersReading levels text).1.1, member.2.ReadableWithin levels := by
  have unnamed : ∀ member ∈ [((none : Option String), broken)], member.2.ReadableWithin levels :=
    List.forall_mem_singleton.mpr (readableWithin_scalar levels nofun nofun)
  rw [membersReading_eq]
  split
  · exact unnamed
  · next elements afterName named =>
    obtain ⟨inside, quote, split⟩ := Option.bind_eq_some_iff.mp named
    split
    · split
      · exact List.forall_mem_nil _
      · exact unnamed
    · next afterColon colon =>
      have ready : afterColon.length < text.length :=
        (length_of_after? colon).trans ((splitJsonString?_length split).trans
          (length_of_after? quote))
      have first := value afterColon ready
      have lone : ∀ member ∈ [(stringOf? elements, (reading levels afterColon).1)],
          member.2.ReadableWithin levels := List.forall_mem_singleton.mpr first
      dsimp only
      split
      · exact lone
      · next behind found =>
        split
        · exact lone
        · split
          · next rest comma =>
            have shorter : rest.length < text.length :=
              (length_of_after? comma).trans ((length_of_reading found).trans ready)
            exact List.forall_mem_cons.mpr ⟨first, members rest shorter⟩
          · exact List.forall_mem_cons.mpr ⟨first, unnamed⟩

/-- What is read from a text can be read. -/
theorem readable_reading {value : Json} (valued : (reading levels text).1.value? = some value) :
    value.Readable levels := by
  refine (reading_induction (fun levels text => (reading levels text).1.ReadableWithin levels)
    (fun levels text => ∀ item ∈ (itemsReading levels text).1.1, item.ReadableWithin levels)
    (fun levels text => ∀ member ∈ (membersReading levels text).1.1,
      member.2.ReadableWithin levels) ?_ ?_ ?_ levels text).1 value valued
  · exact fun levels text => readableWithin_reading
  · exact fun levels text => readableWithin_itemsReading
  · exact fun levels text => readableWithin_membersReading

end Raw

/-- A document can be read with the levels that a reader allows. -/
theorem Json.readable_of_parse? {text : List Char} {value : Json}
    (parsed : Json.parse? text = some value) : value.Readable Raw.maxDepth := by
  obtain ⟨raw, whole, valued⟩ := Option.bind_eq_some_iff.mp parsed
  rw [Raw.ofText?_eq] at whole
  obtain ⟨rest, _, same⟩ := Option.bind_eq_some_iff.mp whole
  split at same
  · cases same
    exact Raw.readable_reading valued
  · cases same

/-! ## Values that are written -/

namespace Json

/-- The value that the text of a value is read as: all its numbers are read again. -/
def reread (value : Json) : Json := value.mapNumbers Number.reread

/-- A value is read back from its text exactly if its numbers are steady. -/
theorem reread_eq_self_iff {value : Json} :
    value.reread = value ↔ value.AllNumbers Number.Steady :=
  mapNumbers_eq_self_iff.trans ⟨AllNumbers.imp fun _ => Number.steady_iff.mpr,
    AllNumbers.imp fun _ => Number.steady_iff.mp⟩

/-- The characters that the text of a value can start with. -/
def startsValue (c : Char) : Bool :=
  c.isDigit || ['-', '"', '[', '\x7b', 'n', 't', 'f'].contains c

theorem exists_compactChars_eq_cons (value : Json) :
    ∃ c more, value.compactChars = c :: more ∧ startsValue c = true := by
  cases value with
  | null => exact ⟨'n', _, rfl, rfl⟩
  | bool b => cases b <;> exact ⟨_, _, rfl, rfl⟩
  | number n =>
    obtain ⟨c, more, same, starts⟩ := n.exists_chars_eq_cons
    refine ⟨c, more, same, ?_⟩
    rcases starts with rfl | digit
    · rfl
    · rw [startsValue, digit, Bool.true_or]
  | string s => exact ⟨'"', _, rfl, rfl⟩
  | array items => cases items <;> exact ⟨'[', _, rfl, rfl⟩
  | object members => cases members <;> exact ⟨'\x7b', _, rfl, rfl⟩

theorem isJsonBlank_of_startsValue {c : Char} (starts : startsValue c = true) :
    isJsonBlank c = false := by
  rw [Bool.eq_false_iff, Ne, isJsonBlank_iff]
  rintro (rfl | rfl | rfl | rfl) <;> cases starts

end Json

theorem skipBlanks_cons {c : Char} (shown : isJsonBlank c = false) (rest : List Char) :
    skipBlanks (c :: rest) = c :: rest := by
  rw [skipBlanks, List.dropWhile_cons_of_neg (by simp [shown])]

theorem after?_cons {c mark : Char} (shown : isJsonBlank c = false) (rest : List Char) :
    after? mark (c :: rest) = if c = mark then some rest else none := by
  rw [after?, skipBlanks_cons shown]

/-- Nothing that goes on with a numeral stands behind an item or a member. -/
theorem endsNumeral_cons {c : Char} (plain : c.isDigit = false) (other : c ≠ '.' ∧ c ≠ 'e' ∧ c ≠ 'E')
    (rest : List Char) : EndsNumeral (c :: rest) := by
  intro d first
  cases Option.some.inj first
  exact ⟨plain, other⟩

theorem Raw.reading_scalar {text behind : List Char} {c : Char} {value : Raw} (levels : Nat)
    (shown : isJsonBlank c = false) (noArray : c ≠ '[') (noObject : c ≠ '\x7b')
    (split : splitScalar? (c :: text) = some (value, behind)) :
    reading levels (c :: text) = (value, some behind) := by
  refine reading_of_scalar ?_ ?_ ?_
  · rw [after?_cons shown, if_neg noArray]
  · rw [after?_cons shown, if_neg noObject]
  · rw [skipBlanks_cons shown, split]

namespace Json

/-- With so many levels of containers, the text of a value is read, up to what is behind it, as the
value with its numbers read. -/
def ReadsBack (levels : Nat) (value : Json) : Prop :=
  ∀ rest, EndsNumeral rest → ∃ raw,
    Raw.reading levels (value.compactChars ++ rest) = (raw, some rest) ∧ raw.value? = some value.reread

variable {levels : Nat}

theorem readsBack_of_splitScalar? {value : Json} (raw : Raw) {c : Char} {text : List Char}
    (written : value.compactChars = c :: text) (noArray : c ≠ '[') (noObject : c ≠ '\x7b')
    (split : ∀ rest, EndsNumeral rest →
      splitScalar? (value.compactChars ++ rest) = some (raw, rest))
    (valued : raw.value? = some value.reread) : value.ReadsBack levels := by
  intro rest ends
  obtain ⟨d, more, same, starts⟩ := value.exists_compactChars_eq_cons
  rw [written] at same
  cases same
  have found := split rest ends
  rw [written, List.cons_append] at found ⊢
  exact ⟨raw, Raw.reading_scalar levels (isJsonBlank_of_startsValue starts) noArray noObject found,
    valued⟩

theorem readsBack_number (n : Number) : (number n).ReadsBack levels := by
  obtain ⟨c, more, same, starts⟩ := n.exists_chars_eq_cons
  have other {d : Char} (noMinus : '-' ≠ d) (noDigit : d.isDigit = false) : c ≠ d := by
    rcases starts with rfl | digit
    · exact noMinus
    · exact ne_of_class digit noDigit
  refine readsBack_of_splitScalar? (rawNumber n.numeral) same (other (by decide) rfl)
    (other (by decide) rfl) (fun rest ends => ?_) ?_
  · have noString : ∀ inside, n.chars ++ rest ≠ '"' :: inside := by
      intro inside string
      rw [same] at string
      exact other (by decide) rfl (List.cons.inj string).1
    change splitScalar? (n.chars ++ rest) = _
    rw [splitScalar?_of_ne noString, n.splitJsonNumeral?_chars ends]
  · rw [rawNumber, n.stepwise?_numeral]
    rfl

theorem readsBack_string (s : String) : (string s).ReadsBack levels := by
  refine readsBack_of_splitScalar? (.string s) rfl (by decide) (by decide)
    (fun rest _ => ?_) rfl
  obtain ⟨inside, elements, same, split, stands⟩ := exists_quoted s rest
  change splitScalar? (quoted s ++ rest) = _
  rw [same, splitScalar?, split, Option.map_some, rawString, stands]

theorem endsNumeral_compactItems (items : List Json) (rest : List Char) :
    EndsNumeral (compactItems items ++ rest) := by
  cases items <;> exact endsNumeral_cons rfl (by decide) _

theorem endsNumeral_compactMembers (members : List (String × Json)) (rest : List Char) :
    EndsNumeral (compactMembers members ++ rest) := by
  cases members <;> exact endsNumeral_cons rfl (by decide) _

theorem startsItem_compactChars (value : Json) (rest : List Char) :
    Raw.startsItem (value.compactChars ++ rest) = true := by
  obtain ⟨c, more, same, starts⟩ := value.exists_compactChars_eq_cons
  have shown := isJsonBlank_of_startsValue starts
  rw [Raw.startsItem_iff, same, List.cons_append, skipBlanks_cons shown, after?_cons shown,
    if_neg (ne_of_class starts rfl)]
  exact ⟨List.cons_ne_nil _ _, rfl⟩

/-- The items of an array are read back up to the closing bracket. -/
theorem exists_itemsReading {item : Json} {items : List Json}
    (each : ∀ own ∈ item :: items, own.ReadsBack levels) (rest : List Char) : ∃ raws,
    Raw.itemsReading levels (item.compactChars ++ (compactItems items ++ rest)) =
        ((raws, true), some rest) ∧
      Raw.values? raws = some (mapItems Number.reread (item :: items)) := by
  induction items generalizing item with
  | nil =>
    obtain ⟨raw, read, valued⟩ := each item List.mem_cons_self _ (endsNumeral_compactItems [] rest)
    refine ⟨[raw], Raw.itemsReading_last (startsItem_compactChars _ _) read rfl, ?_⟩
    rw [Raw.values?, valued]
    rfl
  | cons next items ih =>
    obtain ⟨first, others⟩ := List.forall_mem_cons.mp each
    obtain ⟨raw, read, valued⟩ := first _ (endsNumeral_compactItems (next :: items) rest)
    obtain ⟨raws, later, values⟩ := ih others
    refine ⟨raw :: raws, ?_, ?_⟩
    · have behind : compactItems (next :: items) ++ rest =
          ',' :: (next.compactChars ++ (compactItems items ++ rest)) := by
        rw [compactItems, List.cons_append, List.append_assoc]
      rw [behind] at read ⊢
      exact Raw.itemsReading_cons (startsItem_compactChars _ _) read rfl later
    · rw [Raw.values?, valued, values]
      rfl

/-- The members of an object are read back up to the closing brace. -/
theorem exists_membersReading {name : String} {value : Json} {members : List (String × Json)}
    (each : ∀ member ∈ (name, value) :: members, Json.ReadsBack levels member.2)
    (rest : List Char) : ∃ raws,
    Raw.membersReading levels
        (quoted name ++ ':' :: (value.compactChars ++ (compactMembers members ++ rest))) =
        ((raws, true), some rest) ∧
      Raw.entries? raws = some (mapMembers Number.reread ((name, value) :: members)) := by
  induction members generalizing name value with
  | nil =>
    obtain ⟨raw, read, valued⟩ :=
      each (name, value) List.mem_cons_self _ (endsNumeral_compactMembers [] rest)
    obtain ⟨inside, elements, same, split, stands⟩ :=
      exists_quoted name (':' :: (value.compactChars ++ (compactMembers [] ++ rest)))
    refine ⟨[(some name, raw)], ?_, ?_⟩
    · rw [same]
      exact Raw.membersReading_last split stands rfl read rfl
    · rw [Raw.entries?, Option.bind_some, valued]
      rfl
  | cons next members ih =>
    obtain ⟨first, others⟩ := List.forall_mem_cons.mp each
    obtain ⟨raw, read, valued⟩ := first _ (endsNumeral_compactMembers (next :: members) rest)
    obtain ⟨inside, elements, same, split, stands⟩ :=
      exists_quoted name (':' :: (value.compactChars ++ (compactMembers (next :: members) ++ rest)))
    obtain ⟨raws, later, entries⟩ := ih others
    have behind : compactMembers (next :: members) ++ rest =
        ',' :: (quoted next.1 ++ ':' :: (next.2.compactChars ++ (compactMembers members ++ rest))) := by
      rw [compactMembers]
      simp
    refine ⟨(some name, raw) :: raws, ?_, ?_⟩
    · rw [same]
      rw [behind] at read split
      exact Raw.membersReading_cons split stands rfl read rfl later
    · rw [Raw.entries?, Option.bind_some, valued, entries]
      rfl

/-- An array is read back with one more level than its items. -/
theorem readsBack_array {items : List Json} (each : ∀ item ∈ items, item.ReadsBack levels) :
    (array items).ReadsBack (levels + 1) := by
  intro rest ends
  cases items with
  | nil => exact ⟨.array [] true, Raw.reading_of_no_items rfl rfl, rfl⟩
  | cons item items =>
    obtain ⟨raws, inner, values⟩ := exists_itemsReading each rest
    refine ⟨.array raws true, ?_, ?_⟩
    · have noBracket := (Raw.startsItem_iff.mp (startsItem_compactChars item
        (compactItems items ++ rest))).2
      rw [compactChars, List.cons_append, List.append_assoc]
      exact Raw.reading_of_items rfl noBracket inner
    · rw [Raw.value?, if_pos rfl, values]
      rfl

/-- An object that has each name once is read back with one more level than its members. -/
theorem readsBack_object {members : List (String × Json)} (distinct : (Entries.names members).Nodup)
    (each : ∀ member ∈ members, Json.ReadsBack levels member.2) :
    (object members).ReadsBack (levels + 1) := by
  intro rest ends
  cases members with
  | nil => exact ⟨.object [] true, Raw.reading_of_no_members rfl rfl, rfl⟩
  | cons member members =>
    obtain ⟨name, own⟩ := member
    obtain ⟨raws, inner, entries⟩ := exists_membersReading each rest
    refine ⟨.object raws true, ?_, ?_⟩
    · have text : (Json.object ((name, own) :: members)).compactChars ++ rest =
          '\x7b' :: (quoted name ++ ':' ::
            (own.compactChars ++ (compactMembers members ++ rest))) := by
        rw [compactChars]
        simp
      have noBrace : after? '\x7d' (quoted name ++ ':' ::
          (own.compactChars ++ (compactMembers members ++ rest))) = none :=
        (after?_cons rfl _).trans (if_neg (by decide))
      rw [text]
      exact Raw.reading_of_members rfl noBrace inner
    · -- The names are those that are written, so no entry replaces another.
      have once := names_mapMembers (f := Number.reread) ((name, own) :: members) ▸ distinct
      rw [Raw.value?, if_pos rfl, entries, Option.map_some, Entries.collect_of_nodup once]
      rfl

/-- A value that can be read is read back from its text, with its numbers read in steps. -/
theorem Readable.readsBack {value : Json} (readable : value.Readable levels) :
    value.ReadsBack levels := by
  induction readable with
  | null => exact readsBack_of_splitScalar? .null rfl (by decide) (by decide) (fun _ _ => rfl) rfl
  | bool _ b =>
    cases b <;>
      exact readsBack_of_splitScalar? (.bool _) rfl (by decide) (by decide) (fun _ _ => rfl) rfl
  | number _ n => exact readsBack_number n
  | string _ s => exact readsBack_string s
  | array _ each => exact readsBack_array each
  | object distinct _ each => exact readsBack_object distinct each

/-- The text of a document is read as the document with its numbers read in steps. -/
theorem parse?_compactChars {value : Json} (readable : value.Readable Raw.maxDepth) :
    parse? value.compactChars = some value.reread := by
  obtain ⟨raw, read, valued⟩ := readable.readsBack [] fun _ first => absurd first (by simp)
  rw [List.append_nil] at read
  rw [parse?, Raw.ofText?_eq, read, ← valued]
  rfl

end Json

/-! ## Texts on one line -/

/-- A text without control characters. -/
def NoControls (text : List Char) : Prop := ∀ c ∈ text, ¬c.toNat < 0x20

@[simp] theorem noControls_nil : NoControls [] := by simp [NoControls]

@[simp] theorem noControls_cons {c : Char} {rest : List Char} :
    NoControls (c :: rest) ↔ ¬c.toNat < 0x20 ∧ NoControls rest := by simp [NoControls]

@[simp] theorem noControls_append {text more : List Char} :
    NoControls (text ++ more) ↔ NoControls text ∧ NoControls more := by
  simp only [NoControls, List.mem_append, or_imp, forall_and]

theorem AllDigits.noControls {digits : List Char} (all : AllDigits digits) : NoControls digits := by
  intro c listed
  have lower : 48 ≤ c.toNat := (Char.isDigit_iff_toNat.mp (all c listed)).1
  omega

theorem Number.noControls_chars (n : Number) : NoControls n.chars := by
  obtain ⟨whole, _, fraction⟩ := n.digits_numeral
  have exponent (power : Int) : NoControls (exponentText power) := by
    unfold exponentText
    split <;> simp [(allDigits_toDigits _).noControls]
  rw [← n.written_numeral, Numeral.written, noControls_append, noControls_append, noControls_append]
  refine ⟨?_, whole.noControls, ?_, ?_⟩
  · unfold minusSign
    split <;> simp
  · unfold fractionText
    split <;> simp [fraction.noControls]
  · cases n.numeral.exponent with
    | none => exact noControls_nil
    | some power => exact exponent power

theorem Quoting.noControls_json (c : Char) : NoControls (json.char c) := by
  rcases json_cases c with ⟨plain, _, _, shown⟩ | ⟨e, written, _, _, shown⟩ | ⟨written, control⟩
  · simpa [char, plain] using shown
  · simpa [char, written] using shown
  · have all : ∀ n < 0x20, (hexadecimal 4 n).all (fun d => !decide (d.toNat < 0x20)) = true := by
      decide
    have digits : NoControls (hexadecimal 4 c.toNat) := by
      intro d listed
      simpa using List.all_eq_true.mp (all _ control) d listed
    simpa [char, written] using digits

namespace Json

theorem noControls_quoted (s : String) : NoControls (quoted s) := by
  have inside : NoControls (Quoting.json.body s.toList) := by
    intro c listed
    obtain ⟨d, _, among⟩ := List.mem_flatMap.mp listed
    exact Quoting.noControls_json d c among
  simp [quoted, Quoting.write, inside]

theorem noControls_compactItems {items : List Json}
    (each : ∀ item ∈ items, NoControls item.compactChars) : NoControls (compactItems items) := by
  induction items with
  | nil => simp [compactItems]
  | cons item rest ih =>
    obtain ⟨first, others⟩ := List.forall_mem_cons.mp each
    simp [compactItems, first, ih others]

theorem noControls_compactMembers {members : List (String × Json)}
    (each : ∀ member ∈ members, NoControls member.2.compactChars) :
    NoControls (compactMembers members) := by
  induction members with
  | nil => simp [compactMembers]
  | cons member rest ih =>
    obtain ⟨first, others⟩ := List.forall_mem_cons.mp each
    simp [compactMembers, noControls_quoted, first, ih others]

/-- The text of a value stays on one line. -/
theorem noControls_compactChars (value : Json) : NoControls value.compactChars := by
  induction value using inductionOn with
  | null => simp [compactChars, literal]
  | bool b => cases b <;> simp [compactChars, literal]
  | number n => exact n.noControls_chars
  | string s => exact noControls_quoted s
  | array items ih =>
    cases items with
    | nil => simp [compactChars]
    | cons item items =>
      obtain ⟨first, others⟩ := List.forall_mem_cons.mp ih
      simp [compactChars, first, noControls_compactItems others]
  | object members ih =>
    cases members with
    | nil => simp [compactChars]
    | cons member members =>
      obtain ⟨first, others⟩ := List.forall_mem_cons.mp ih
      simp [compactChars, noControls_quoted, first, noControls_compactMembers others]

end Json

end JsonShape
