import Mathlib.Data.List.TakeWhile
import JsonShape.Json.Reader
import JsonShape.Proofs.Source.Seam

/-!
# Reading without measures

The reader of documents hands back every rest with a proof that it is shorter.  Here it is without
these proofs, so that it can be rewritten.

* `after?` is the text behind a mark.  `Raw.reading`, `Raw.itemsReading` and `Raw.membersReading` are
  what the reader finds and the plain text behind it, each by one equation (`Raw.reading_eq`,
  `Raw.itemsReading_eq`, `Raw.membersReading_eq`).
* `Raw.reading_of_items`, `Raw.itemsReading_cons`, `Raw.membersReading_cons` and the lemmas around them
  put a reading together from the readings of its parts.
* `Raw.reading_induction` is the induction that goes with the three equations.
* `Json.parse?_append_blank`: a blank behind a text changes nothing, whether the text is a document
  or not.
-/

namespace JsonShape

/-! ## Marks -/

/-- The text behind a mark that a text starts with, blanks aside. -/
def after? (mark : Char) (text : List Char) : Option (List Char) :=
  match skipBlanks text with
  | c :: rest => if c = mark then some rest else none
  | [] => none

theorem after?_eq_some_iff {mark : Char} {text rest : List Char} :
    after? mark text = some rest ↔ skipBlanks text = mark :: rest := by
  unfold after?
  split
  · next c behind same =>
    rw [same]
    split
    · next found => simp [found]
    · next other => simp [other]
  · next none => simp [none]

theorem after?_eq_none_iff {mark : Char} {text : List Char} :
    after? mark text = none ↔ ∀ rest, skipBlanks text ≠ mark :: rest := by
  simp only [Option.eq_none_iff_forall_ne_some, ne_eq, after?_eq_some_iff]

/-- Behind blanks there is one mark only. -/
theorem after?_eq_none_of_ne {mark other : Char} {text rest : List Char}
    (found : after? mark text = some rest) (differ : mark ≠ other) : after? other text = none := by
  rw [after?_eq_none_iff, after?_eq_some_iff.mp found]
  exact fun behind same => differ (List.cons.inj same).1

theorem length_of_after? {mark : Char} {text rest : List Char}
    (found : after? mark text = some rest) : rest.length < text.length :=
  Raw.skipBlanks_cons_length (after?_eq_some_iff.mp found)

namespace Raw

/-! ## The reader by equations -/

/-- The value at the start of a text, and what is behind it. -/
def reading (levels : Nat) (text : List Char) : Raw × Option (List Char) :=
  ((read levels text).1, (read levels text).2.map Subtype.val)

/-- The items at the start of a text, whether they are closed, and what is behind them. -/
def itemsReading (levels : Nat) (text : List Char) : (List Raw × Bool) × Option (List Char) :=
  ((readItems levels text).1, (readItems levels text).2.map Subtype.val)

/-- The members at the start of a text, whether they are closed, and what is behind them. -/
def membersReading (levels : Nat) (text : List Char) :
    (List (Option String × Raw) × Bool) × Option (List Char) :=
  ((readMembers levels text).1, (readMembers levels text).2.map Subtype.val)

theorem map_val_weaken {shorter longer : List Char} (h : shorter.length ≤ longer.length)
    (rest : Rest shorter) : (rest.weaken h).map Subtype.val = rest.map Subtype.val := by
  cases rest <;> rfl

theorem reading_eq (levels : Nat) (text : List Char) :
    reading levels text =
      match after? '[' text with
      | some rest =>
        match after? ']' rest with
        | some behind => (bounded (0 < levels) (.array [] true), some behind)
        | none =>
          let inner := itemsReading (levels - 1) rest
          (bounded (0 < levels) (.array inner.1.1 inner.1.2), inner.2)
      | none =>
        match after? '\x7b' text with
        | some rest =>
          match after? '\x7d' rest with
          | some behind => (bounded (0 < levels) (.object [] true), some behind)
          | none =>
            let inner := membersReading (levels - 1) rest
            (bounded (0 < levels) (.object inner.1.1 inner.1.2), inner.2)
        | none =>
          match splitScalar? (skipBlanks text) with
          | some (value, behind) => (value, some behind)
          | none => (broken, none) := by
  unfold reading
  rw [read.eq_def]
  split
  · next start =>
    rw [after?_eq_some_iff.mpr start]
    dsimp only
    split
    · next empty =>
      rw [after?_eq_some_iff.mpr empty]
      rfl
    · next filled =>
      rw [after?_eq_none_iff.mpr filled, map_val_weaken]
      rfl
  · next start =>
    have brace := after?_eq_some_iff.mpr start
    rw [after?_eq_none_of_ne brace (by decide), brace]
    dsimp only
    split
    · next empty =>
      rw [after?_eq_some_iff.mpr empty]
      rfl
    · next filled =>
      rw [after?_eq_none_iff.mpr filled, map_val_weaken]
      rfl
  · next noArray noObject =>
    rw [after?_eq_none_iff.mpr noArray, after?_eq_none_iff.mpr noObject]
    dsimp only
    split
    · next found =>
      split
      · next same =>
        cases found.symm.trans same
        rfl
      · next none => cases found.symm.trans none
    · next none =>
      split
      · next found => cases none.symm.trans found
      · rfl

theorem startsItem_iff {text : List Char} :
    startsItem text = true ↔ skipBlanks text ≠ [] ∧ after? ']' text = none := by
  unfold startsItem
  split
  · next none => simp [none]
  · next start => simp [after?_eq_some_iff.mpr start]
  · next some closing =>
    simp only [true_iff]
    exact ⟨some, after?_eq_none_iff.mpr closing⟩

theorem itemsReading_eq (levels : Nat) (text : List Char) :
    itemsReading levels text =
      if startsItem text then
        let head := reading levels text
        match head.2 with
        | none => (([head.1], false), none)
        | some behind =>
          match after? ']' behind with
          | some rest => (([head.1], true), some rest)
          | none =>
            match after? ',' behind with
            | some rest =>
              let tail := itemsReading levels rest
              ((head.1 :: tail.1.1, tail.1.2), tail.2)
            | none => (([head.1], false), none)
      else (([], false), none) := by
  unfold itemsReading
  rw [readItems.eq_def]
  by_cases starts : startsItem text = true
  · rw [if_pos starts, if_pos starts]
    unfold reading
    rcases read levels text with ⟨value, _ | ⟨behind, shorter⟩⟩
    · rfl
    · dsimp only [Option.map_some]
      split
      · next closing =>
        rw [after?_eq_some_iff.mpr closing]
        rfl
      · next comma =>
        have next := after?_eq_some_iff.mpr comma
        rw [after?_eq_none_of_ne next (by decide), next]
        simp only [map_val_weaken]
      · next notClosing notComma =>
        rw [after?_eq_none_iff.mpr notClosing, after?_eq_none_iff.mpr notComma]
        rfl
  · rw [if_neg starts, if_neg starts]
    rfl

theorem membersReading_eq (levels : Nat) (text : List Char) :
    membersReading levels text =
      match (after? '"' text).bind splitJsonString? with
      | none => (([(none, broken)], false), none)
      | some (elements, afterName) =>
        match after? ':' afterName with
        | none =>
          if (stringOf? elements).isSome then (([], false), none)
          else (([(none, broken)], false), none)
        | some afterColon =>
          let value := reading levels afterColon
          match value.2 with
          | none => (([(stringOf? elements, value.1)], false), none)
          | some behind =>
            match after? '\x7d' behind with
            | some rest => (([(stringOf? elements, value.1)], true), some rest)
            | none =>
              match after? ',' behind with
              | some rest =>
                let tail := membersReading levels rest
                (((stringOf? elements, value.1) :: tail.1.1, tail.1.2), tail.2)
              | none => (([(stringOf? elements, value.1), (none, broken)], false), none) := by
  unfold membersReading
  rw [readMembers.eq_def]
  split
  · next start =>
    rw [after?_eq_some_iff.mpr start, Option.bind_some]
    split
    · next named =>
      conv_rhs => rw [named]
      dsimp only
      split
      · next colon =>
        rw [after?_eq_some_iff.mpr colon]
        unfold reading
        dsimp only
        rcases read levels _ with ⟨value, _ | ⟨behind, shorter⟩⟩
        · rfl
        · dsimp only [Option.map_some]
          split
          · next closing =>
            rw [after?_eq_some_iff.mpr closing]
            rfl
          · next comma =>
            have next := after?_eq_some_iff.mpr comma
            rw [after?_eq_none_of_ne next (by decide), next]
            simp only [map_val_weaken]
          · next notClosing notComma =>
            rw [after?_eq_none_iff.mpr notClosing, after?_eq_none_iff.mpr notComma]
            rfl
      · next noColon =>
        rw [after?_eq_none_iff.mpr noColon]
        dsimp only
        split <;> rfl
    · next unnamed =>
      rw [unnamed]
      rfl
  · next noName =>
    rw [after?_eq_none_iff.mpr noName]
    rfl

/-! ## Readings of parts -/

section

variable {levels : Nat} {text rest behind : List Char} {left : Option (List Char)}
  {closed : Bool}

theorem reading_of_scalar {raw : Raw} (noArray : after? '[' text = none)
    (noObject : after? '\x7b' text = none)
    (split : splitScalar? (skipBlanks text) = some (raw, behind)) :
    reading levels text = (raw, some behind) := by
  rw [reading_eq, noArray, noObject, split]

theorem itemsReading_last {raw : Raw} (starts : startsItem text = true)
    (read : reading levels text = (raw, some behind)) (closing : after? ']' behind = some rest) :
    itemsReading levels text = (([raw], true), some rest) := by
  rw [itemsReading_eq, if_pos starts, read]
  dsimp only
  rw [closing]

theorem itemsReading_cons {raw : Raw} {raws : List Raw} (starts : startsItem text = true)
    (read : reading levels text = (raw, some behind)) (comma : after? ',' behind = some rest)
    (later : itemsReading levels rest = ((raws, closed), left)) :
    itemsReading levels text = ((raw :: raws, closed), left) := by
  have unclosed : after? ']' behind = none := after?_eq_none_of_ne comma (by decide)
  rw [itemsReading_eq, if_pos starts, read]
  dsimp only
  rw [unclosed, comma]
  dsimp only
  rw [later]

theorem reading_of_no_items (start : after? '[' text = some rest)
    (closing : after? ']' rest = some behind) :
    reading (levels + 1) text = (.array [] true, some behind) := by
  rw [reading_eq, start]
  dsimp only
  rw [closing]
  simp [bounded]

theorem reading_of_items {raws : List Raw} (start : after? '[' text = some rest)
    (filled : after? ']' rest = none) (inner : itemsReading levels rest = ((raws, closed), left)) :
    reading (levels + 1) text = (.array raws closed, left) := by
  rw [reading_eq, start]
  dsimp only
  rw [filled, Nat.add_sub_cancel, inner]
  simp [bounded]

theorem membersReading_last {elements : List StringElement} {name : Option String} {raw : Raw}
    {named value : List Char}
    (quoted : (after? '"' text).bind splitJsonString? = some (elements, named))
    (stands : stringOf? elements = name)
    (colon : after? ':' named = some value) (read : reading levels value = (raw, some behind))
    (closing : after? '\x7d' behind = some rest) :
    membersReading levels text = (([(name, raw)], true), some rest) := by
  rw [membersReading_eq, quoted]
  dsimp only
  rw [colon, stands]
  dsimp only
  rw [read]
  dsimp only
  rw [closing]

theorem membersReading_cons {elements : List StringElement} {name : Option String} {raw : Raw}
    {named value : List Char} {members : List (Option String × Raw)}
    (quoted : (after? '"' text).bind splitJsonString? = some (elements, named))
    (stands : stringOf? elements = name)
    (colon : after? ':' named = some value) (read : reading levels value = (raw, some behind))
    (comma : after? ',' behind = some rest)
    (later : membersReading levels rest = ((members, closed), left)) :
    membersReading levels text = (((name, raw) :: members, closed), left) := by
  have unclosed : after? '\x7d' behind = none := after?_eq_none_of_ne comma (by decide)
  rw [membersReading_eq, quoted]
  dsimp only
  rw [colon, stands]
  dsimp only
  rw [read]
  dsimp only
  rw [unclosed, comma]
  dsimp only
  rw [later]

theorem reading_of_no_members (start : after? '\x7b' text = some rest)
    (closing : after? '\x7d' rest = some behind) :
    reading (levels + 1) text = (.object [] true, some behind) := by
  rw [reading_eq, after?_eq_none_of_ne start (by decide), start]
  dsimp only
  rw [closing]
  simp [bounded]

theorem reading_of_members {members : List (Option String × Raw)}
    (start : after? '\x7b' text = some rest) (filled : after? '\x7d' rest = none)
    (inner : membersReading levels rest = ((members, closed), left)) :
    reading (levels + 1) text = (.object members closed, left) := by
  rw [reading_eq, after?_eq_none_of_ne start (by decide), start]
  dsimp only
  rw [filled, Nat.add_sub_cancel, inner]
  simp [bounded]

end

theorem length_of_reading {levels : Nat} {text behind : List Char}
    (found : (reading levels text).2 = some behind) : behind.length < text.length := by
  obtain ⟨⟨rest, shorter⟩, _, rfl⟩ := Option.map_eq_some_iff.mp found
  exact shorter

/-- Induction along the reader: of a value something has to be shown if it holds of the items and
members in shorter texts; of items and members, if it holds of the value that comes first and of
what is behind it. -/
theorem reading_induction (Value Items Members : Nat → List Char → Prop)
    (value : ∀ levels text,
      (∀ levels rest, rest.length < text.length → Items levels rest) →
      (∀ levels rest, rest.length < text.length → Members levels rest) → Value levels text)
    (items : ∀ levels text, Value levels text →
      (∀ rest, rest.length < text.length → Items levels rest) → Items levels text)
    (members : ∀ levels text, (∀ rest, rest.length < text.length → Value levels rest) →
      (∀ rest, rest.length < text.length → Members levels rest) → Members levels text)
    (levels : Nat) (text : List Char) :
    Value levels text ∧ Items levels text ∧ Members levels text := by
  induction size : text.length using Nat.strong_induction_on generalizing levels text with
  | _ n ih =>
    subst size
    have own : Value levels text := value levels text
      (fun levels rest shorter => (ih _ shorter levels rest rfl).2.1)
      (fun levels rest shorter => (ih _ shorter levels rest rfl).2.2)
    refine ⟨own, items levels text own ?_, members levels text ?_ ?_⟩
    · exact fun rest shorter => (ih _ shorter levels rest rfl).2.1
    · exact fun rest shorter => (ih _ shorter levels rest rfl).1
    · exact fun rest shorter => (ih _ shorter levels rest rfl).2.2

theorem ofText?_eq (text : List Char) :
    ofText? text =
      (reading maxDepth text).2.bind fun rest =>
        if skipBlanks rest = [] then some (reading maxDepth text).1 else none := by
  unfold ofText? reading
  rcases read maxDepth text with ⟨raw, _ | ⟨rest, shorter⟩⟩ <;> rfl

end Raw

/-! ## String literals -/

/-- An escape of one letter. -/
theorem splitJsonString?_escaped {c : Char} (letter : c ≠ 'u') (rest : List Char) :
    splitJsonString? ('\\' :: c :: rest) =
      (jsonEscape? c).bind fun value =>
        (splitJsonString? rest).map fun split => (.char value :: split.1, split.2) := by
  rw [splitJsonString?]
  intro _ _ _ _ _ unit
  exact absurd unit letter

/-- A character that stands for itself. -/
theorem splitJsonString?_plain {c : Char} (noQuote : c ≠ '"') (noEscape : c ≠ '\\')
    (shown : ¬c.toNat < 0x20) (rest : List Char) :
    splitJsonString? (c :: rest) =
      (splitJsonString? rest).map fun split => (.char c :: split.1, split.2) := by
  rw [splitJsonString?, if_neg shown]
  · exact noQuote
  · intro _ _ _ _ _ escape
    exact absurd escape noEscape
  · intro _ _ escape
    exact absurd escape noEscape

/-! ## A blank at the end -/

section

variable {last : Char}

theorem splitJsonString?_lone (noQuote : last ≠ '"') : splitJsonString? [last] = none := by
  rw [splitJsonString?]
  · split <;> rfl
  · exact noQuote
  · intro _ _ _ _ _ _ same
    cases same
  · intro _ _ _ same
    cases same

theorem splitJsonString?_append (noQuote : last ≠ '"') (text : List Char) :
    splitJsonString? (text ++ [last]) =
      (splitJsonString? text).map fun split => (split.1, split.2 ++ [last]) := by
  fun_induction splitJsonString? text with
  | case1 => exact splitJsonString?_lone noQuote
  | case2 rest => rfl
  | case3 a b c d rest ih =>
    simp only [List.cons_append, splitJsonString?, ih]
    cases hexUnit? a b c d with
    | none => rfl
    | some n => cases splitJsonString? rest <;> rfl
  | case4 c rest plain ih =>
    by_cases unit : c = 'u'
    · -- Fewer than four digits stand behind the letter, and the last character adds one at most.
      subst unit
      rcases rest with _ | ⟨a, _ | ⟨b, _ | ⟨c, _ | ⟨d, more⟩⟩⟩⟩
      · rfl
      · rfl
      · rfl
      · change (hexUnit? a b c last).bind _ = none
        cases hexUnit? a b c last <;> rfl
      · exact absurd rfl (plain a b c d more rfl)
    · rw [List.cons_append, List.cons_append, splitJsonString?_escaped unit, ih]
      cases jsonEscape? c with
      | none => rfl
      | some value => cases splitJsonString? rest <;> rfl
  | case5 c rest notQuote _ plain control =>
    rw [List.cons_append, splitJsonString?, if_pos control]
    · rfl
    · exact notQuote
    · intro _ _ _ _ _ escape
      rw [escape] at control
      exact absurd control (by decide)
    · intro _ _ escape
      rw [escape] at control
      exact absurd control (by decide)
  | case6 c rest notQuote _ plain shown ih =>
    by_cases escape : c = '\\'
    · -- Only a backslash at the end stands for itself, and then no quote closes the literal.
      subst escape
      rcases rest with _ | ⟨d, more⟩
      · change splitJsonString? ['\\', last] = none
        by_cases unit : last = 'u'
        · rw [unit]
          rfl
        · rw [splitJsonString?_escaped unit]
          cases jsonEscape? last <;> rfl
      · exact absurd rfl (plain d more rfl)
    · rw [List.cons_append, splitJsonString?_plain notQuote escape shown, ih]
      cases splitJsonString? rest <;> rfl

theorem isJsonBlank_iff : isJsonBlank last = true ↔
    last = ' ' ∨ last = '\t' ∨ last = '\n' ∨ last = '\r' := by
  simp [isJsonBlank, or_assoc]

theorem ne_of_isJsonBlank {c : Char} (shown : isJsonBlank c = false)
    (blank : isJsonBlank last = true) : last ≠ c := by
  rintro rfl
  rw [blank] at shown
  cases shown

theorem Severs.blank (blank : isJsonBlank last = true) : Severs [last] := by
  rcases isJsonBlank_iff.mp blank with rfl | rfl | rfl | rfl <;>
    exact .cons rfl (by decide) (by decide) []

theorem Numeral.isCutShort_append (blank : isJsonBlank last = true) (n : Numeral)
    (rest : List Char) : n.isCutShort (rest ++ [last]) = n.isCutShort rest := by
  cases rest with
  | nil => rcases isJsonBlank_iff.mp blank with rfl | rfl | rfl | rfl <;> simp [isCutShort]
  | cons c more => rfl

theorem splitJsonNumeral?_append (blank : isJsonBlank last = true) (text : List Char) :
    splitJsonNumeral? (text ++ [last]) =
      (splitJsonNumeral? text).map fun split => (split.1, split.2 ++ [last]) := by
  rw [splitJsonNumeral?, splitJsonNumeral?, splitNumeral?_extend (.blank blank)]
  cases splitNumeral? text with
  | none => rfl
  | some found =>
    obtain ⟨⟨taken, n⟩, rest⟩ := found
    simp only [Option.map_some, Option.bind_some, Numeral.isCutShort_append blank]
    split
    · rfl
    · split <;> rfl

/-- A text starts with a word as well without a blank at its end. -/
theorem exists_of_append_eq (word : List Char) {rest text : List Char}
    (shown : word.all (fun c => !isJsonBlank c) = true) (blank : isJsonBlank last = true)
    (same : text ++ [last] = word ++ rest) : ∃ behind, text = word ++ behind := by
  rcases List.append_eq_append_iff.mp same with ⟨more, rfl, ends⟩ | ⟨more, rfl, _⟩
  · rcases more with _ | ⟨c, more⟩
    · exact ⟨[], by simp⟩
    · cases (List.cons.inj ends).1
      simp [blank] at shown
  · exact ⟨more, rfl⟩

theorem jsonWord?_append (blank : isJsonBlank last = true) (text : List Char) :
    jsonWord? (text ++ [last]) = (jsonWord? text).map fun split => (split.1, split.2 ++ [last]) := by
  rw [jsonWord?.eq_def (text ++ [last])]
  split
  · next same =>
    obtain ⟨behind, rfl⟩ := exists_of_append_eq "null".toList rfl blank same
    cases same
    rfl
  · next same =>
    obtain ⟨behind, rfl⟩ := exists_of_append_eq "true".toList rfl blank same
    cases same
    rfl
  · next same =>
    obtain ⟨behind, rfl⟩ := exists_of_append_eq "false".toList rfl blank same
    cases same
    rfl
  · next noNull noTrue noFalse =>
    unfold jsonWord?
    split
    · exact absurd rfl (noNull _)
    · exact absurd rfl (noTrue _)
    · exact absurd rfl (noFalse _)
    · rfl

/-- A scalar that is no string is a number or a word. -/
theorem splitScalar?_of_ne {text : List Char} (noString : ∀ rest, text ≠ '"' :: rest) :
    splitScalar? text =
      match splitJsonNumeral? text with
      | some (numeral, rest) => some (rawNumber numeral, rest)
      | none => jsonWord? text := by
  unfold splitScalar?
  split
  · exact absurd rfl (noString _)
  · rfl

theorem splitScalar?_append (blank : isJsonBlank last = true) (text : List Char) :
    splitScalar? (text ++ [last]) =
      (splitScalar? text).map fun split => (split.1, split.2 ++ [last]) := by
  have noQuote : last ≠ '"' := ne_of_isJsonBlank rfl blank
  by_cases string : ∃ rest, text = '"' :: rest
  · obtain ⟨rest, rfl⟩ := string
    rw [List.cons_append, splitScalar?, splitScalar?, splitJsonString?_append noQuote]
    cases splitJsonString? rest <;> rfl
  · have stringToo : ∀ rest, text ++ [last] ≠ '"' :: rest := by
      intro rest same
      obtain ⟨behind, found⟩ := exists_of_append_eq ['"'] rfl blank same
      exact string ⟨behind, found⟩
    rw [splitScalar?_of_ne stringToo, splitScalar?_of_ne fun rest same => string ⟨rest, same⟩,
      splitJsonNumeral?_append blank, jsonWord?_append blank]
    cases splitJsonNumeral? text <;> rfl

theorem skipBlanks_append_of_nil (blank : isJsonBlank last = true) {text : List Char}
    (none : skipBlanks text = []) : skipBlanks (text ++ [last]) = [] := by
  have all := List.dropWhile_eq_nil_iff.mp none
  refine List.dropWhile_eq_nil_iff.mpr fun c listed => ?_
  rcases List.mem_append.mp listed with inside | ends
  · exact all c inside
  · rw [List.mem_singleton.mp ends, blank]

theorem skipBlanks_append_of_cons {text rest : List Char} {c : Char}
    (start : skipBlanks text = c :: rest) (more : List Char) :
    skipBlanks (text ++ more) = c :: (rest ++ more) := by
  have same : List.dropWhile isJsonBlank text = c :: rest := start
  rw [skipBlanks, List.dropWhile_append, same]
  rfl

theorem after?_append (blank : isJsonBlank last = true) (mark : Char) (text : List Char) :
    after? mark (text ++ [last]) = (after? mark text).map (· ++ [last]) := by
  unfold after?
  cases start : skipBlanks text with
  | nil =>
    rw [skipBlanks_append_of_nil blank start]
    rfl
  | cons c rest =>
    rw [skipBlanks_append_of_cons start]
    dsimp only
    split <;> rfl

theorem splitScalar?_skipBlanks_append (blank : isJsonBlank last = true) (text : List Char) :
    splitScalar? (skipBlanks (text ++ [last])) =
      (splitScalar? (skipBlanks text)).map fun split => (split.1, split.2 ++ [last]) := by
  cases start : skipBlanks text with
  | nil =>
    rw [skipBlanks_append_of_nil blank start]
    rfl
  | cons c rest => rw [skipBlanks_append_of_cons start, ← List.cons_append, splitScalar?_append blank]

theorem Raw.startsItem_append (blank : isJsonBlank last = true) (text : List Char) :
    startsItem (text ++ [last]) = startsItem text := by
  rw [Bool.eq_iff_iff, startsItem_iff, startsItem_iff, after?_append blank, Option.map_eq_none_iff]
  refine and_congr_left fun _ => ?_
  cases start : skipBlanks text with
  | nil => simp [skipBlanks_append_of_nil blank start]
  | cons c rest => simp [skipBlanks_append_of_cons start]

namespace Raw

variable {levels : Nat} {text : List Char}

/-- A reading that leaves one more character behind. -/
def leaving {α : Type} (last : Char) (read : α × Option (List Char)) : α × Option (List Char) :=
  (read.1, read.2.map (· ++ [last]))

theorem reading_append_of_inner (blank : isJsonBlank last = true)
    (items : ∀ levels rest, rest.length < text.length → itemsReading levels (rest ++ [last]) =
      leaving last (itemsReading levels rest))
    (members : ∀ levels rest, rest.length < text.length → membersReading levels (rest ++ [last]) =
      leaving last (membersReading levels rest)) :
    reading levels (text ++ [last]) =
      leaving last (reading levels text) := by
  rw [reading_eq, reading_eq levels text]
  simp only [after?_append blank, splitScalar?_skipBlanks_append blank]
  cases bracket : after? '[' text with
  | some rest =>
    simp only [Option.map_some, after?_append blank, items _ _ (length_of_after? bracket)]
    cases after? ']' rest <;> rfl
  | none =>
    cases brace : after? '\x7b' text with
    | some rest =>
      simp only [Option.map_none, Option.map_some, after?_append blank,
        members _ _ (length_of_after? brace)]
      cases after? '\x7d' rest <;> rfl
    | none => cases splitScalar? (skipBlanks text) <;> rfl

theorem itemsReading_append_of_first (blank : isJsonBlank last = true)
    (value : reading levels (text ++ [last]) =
      leaving last (reading levels text))
    (items : ∀ rest, rest.length < text.length → itemsReading levels (rest ++ [last]) =
      leaving last (itemsReading levels rest)) :
    itemsReading levels (text ++ [last]) =
      leaving last (itemsReading levels text) := by
  rw [itemsReading_eq, itemsReading_eq levels text, startsItem_append blank, value]
  rcases found : reading levels text with ⟨head, _ | behind⟩
  · split <;> rfl
  · simp only [leaving, Option.map_some, after?_append blank]
    split
    · cases after? ']' behind with
      | some rest => rfl
      | none =>
        cases comma : after? ',' behind with
        | none => rfl
        | some rest =>
          have shorter : rest.length < text.length :=
            (length_of_after? comma).trans (length_of_reading (congrArg Prod.snd found))
          simp only [Option.map_none, Option.map_some, items rest shorter, leaving]
    · rfl

theorem membersReading_append_of_first (blank : isJsonBlank last = true)
    (value : ∀ rest, rest.length < text.length → reading levels (rest ++ [last]) =
      leaving last (reading levels rest))
    (members : ∀ rest, rest.length < text.length → membersReading levels (rest ++ [last]) =
      leaving last (membersReading levels rest)) :
    membersReading levels (text ++ [last]) =
      leaving last (membersReading levels text) := by
  have noQuote : last ≠ '"' := ne_of_isJsonBlank rfl blank
  rw [membersReading_eq, membersReading_eq levels text, after?_append blank]
  cases quote : after? '"' text with
  | none => rfl
  | some name =>
    simp only [Option.map_some, Option.bind_some, splitJsonString?_append noQuote]
    cases named : splitJsonString? name with
    | none => rfl
    | some split =>
      obtain ⟨elements, afterName⟩ := split
      simp only [Option.map_some, after?_append blank]
      cases colon : after? ':' afterName with
      | none =>
        simp only [Option.map_none]
        split <;> rfl
      | some afterColon =>
        have ready : afterColon.length < text.length :=
          (length_of_after? colon).trans ((splitJsonString?_length named).trans
            (length_of_after? quote))
        simp only [Option.map_some, value afterColon ready]
        rcases found : reading levels afterColon with ⟨head, _ | behind⟩
        · rfl
        · simp only [leaving, Option.map_some, after?_append blank]
          cases after? '\x7d' behind with
          | some rest => rfl
          | none =>
            cases comma : after? ',' behind with
            | none => rfl
            | some rest =>
              have shorter : rest.length < text.length :=
                (length_of_after? comma).trans
                  ((length_of_reading (congrArg Prod.snd found)).trans ready)
              simp only [Option.map_none, Option.map_some, members rest shorter, leaving]

/-- A blank behind a text is behind everything that is read from it. -/
theorem reading_append (blank : isJsonBlank last = true) (levels : Nat) (text : List Char) :
    reading levels (text ++ [last]) =
      leaving last (reading levels text) := by
  refine (reading_induction
    (fun levels text => reading levels (text ++ [last]) =
      leaving last (reading levels text))
    (fun levels text => itemsReading levels (text ++ [last]) =
      leaving last (itemsReading levels text))
    (fun levels text => membersReading levels (text ++ [last]) =
      leaving last (membersReading levels text))
    ?_ ?_ ?_ levels text).1
  · exact fun levels text => reading_append_of_inner blank
  · exact fun levels text => itemsReading_append_of_first blank
  · exact fun levels text => membersReading_append_of_first blank

end Raw

end

/-- A blank behind a text changes nothing, whether the text is a document or not. -/
theorem Json.parse?_append_blank {blank : Char} (shown : isJsonBlank blank = true)
    (text : List Char) : Json.parse? (text ++ [blank]) = Json.parse? text := by
  unfold Json.parse?
  rw [Raw.ofText?_eq, Raw.ofText?_eq, Raw.reading_append shown, Raw.leaving]
  cases (Raw.reading Raw.maxDepth text).2 with
  | none => rfl
  | some rest =>
    cases start : skipBlanks rest with
    | nil => simp [skipBlanks_append_of_nil shown start, start]
    | cons c more => simp [skipBlanks_append_of_cons start, start]

end JsonShape
