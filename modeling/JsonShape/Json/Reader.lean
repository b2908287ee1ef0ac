import JsonShape.Json.Raw
import JsonShape.Number.Reading

/-!
# Reading JSON

`Raw.read` reads one JSON text (RFC 8259) from the start of a list of characters and says what is
behind it, unless the text is broken.  Containers nest at most `Raw.maxDepth` deep; deeper ones
are checked but yield no value.  `Json.parse?` reads a whole document: nothing but blanks may
stand around its value.

The splits of strings and numerals hand back a rest with a proof that it is shorter, which is what
makes the descent into containers end.
-/

namespace JsonShape

/-- The blanks of documents. -/
def isJsonBlank (c : Char) : Bool := c == ' ' || c == '\t' || c == '\n' || c == '\r'

/-- A text without the blanks that it starts with. -/
def skipBlanks (text : List Char) : List Char := text.dropWhile isJsonBlank

theorem skipBlanks_length (text : List Char) : (skipBlanks text).length ≤ text.length :=
  (List.dropWhile_suffix isJsonBlank).length_le

/-! ## Strings -/

/-- One element of a string literal: a character, or an escaped UTF-16 unit. -/
inductive StringElement where
  | char (c : Char)
  | unit (n : Nat)
  deriving DecidableEq, Repr

/-- The value of a hexadecimal digit. -/
def hexValue? (c : Char) : Option Nat :=
  if '0' ≤ c ∧ c ≤ '9' then some (c.toNat - '0'.toNat)
  else if 'a' ≤ c ∧ c ≤ 'f' then some (c.toNat - 'a'.toNat + 10)
  else if 'A' ≤ c ∧ c ≤ 'F' then some (c.toNat - 'A'.toNat + 10)
  else none

/-- The value of four hexadecimal digits. -/
def hexUnit? (a b c d : Char) : Option Nat :=
  (hexValue? a).bind fun a => (hexValue? b).bind fun b =>
    (hexValue? c).bind fun c => (hexValue? d).map fun d => ((a * 16 + b) * 16 + c) * 16 + d

/-- The character of an escape of one letter. -/
def jsonEscape? : Char → Option Char
  | '"' => some '"'
  | '\\' => some '\\'
  | '/' => some '/'
  | 'b' => some '\x08'
  | 'f' => some '\x0c'
  | 'n' => some '\n'
  | 'r' => some '\r'
  | 't' => some '\t'
  | _ => none

/-- The elements of a string literal up to its closing quote, and the text behind it. -/
def splitJsonString? : List Char → Option (List StringElement × List Char)
  | [] => none
  | '"' :: rest => some ([], rest)
  | '\\' :: 'u' :: a :: b :: c :: d :: rest =>
    (hexUnit? a b c d).bind fun n =>
      (splitJsonString? rest).map fun split => (.unit n :: split.1, split.2)
  | '\\' :: c :: rest =>
    (jsonEscape? c).bind fun value =>
      (splitJsonString? rest).map fun split => (.char value :: split.1, split.2)
  | c :: rest =>
    if c.toNat < 0x20 then none
    else (splitJsonString? rest).map fun split => (.char c :: split.1, split.2)

theorem splitJsonString?_length {text : List Char} {elements : List StringElement}
    {rest : List Char} (h : splitJsonString? text = some (elements, rest)) :
    rest.length < text.length := by
  fun_induction splitJsonString? text generalizing elements rest with
  | case1 => simp at h
  | case2 => simp at h; simp [h.2]
  | case3 a b c d tail ih =>
    simp only [Option.bind_eq_some_iff, Option.map_eq_some_iff, Prod.exists] at h
    obtain ⟨_, _, _, _, found, same⟩ := h
    have := ih found
    simp at same ⊢
    rw [← same.2]
    omega
  | case4 c tail _ ih =>
    simp only [Option.bind_eq_some_iff, Option.map_eq_some_iff, Prod.exists] at h
    obtain ⟨_, _, _, _, found, same⟩ := h
    have := ih found
    simp at same ⊢
    rw [← same.2]
    omega
  | case5 => simp at h
  | case6 c tail _ _ _ _ ih =>
    simp only [Option.map_eq_some_iff, Prod.exists] at h
    obtain ⟨_, _, found, same⟩ := h
    have := ih found
    simp at same ⊢
    rw [← same.2]
    omega

/-- Whether a UTF-16 unit is the first half of a surrogate pair. -/
def isHighSurrogate (n : Nat) : Bool := 0xd800 ≤ n && n < 0xdc00

/-- Whether a UTF-16 unit is the second half of a surrogate pair. -/
def isLowSurrogate (n : Nat) : Bool := 0xdc00 ≤ n && n < 0xe000

/-- The characters of a string literal: escaped surrogates stand in pairs, each pair for one
character. -/
def joinElements? : List StringElement → Option (List Char)
  | [] => some []
  | .char c :: rest => (joinElements? rest).map (c :: ·)
  | .unit n :: rest =>
    if isLowSurrogate n then none
    else if isHighSurrogate n then
      match rest with
      | .unit m :: behind =>
        if isLowSurrogate m then
          (joinElements? behind).map
            (Char.ofNat (0x10000 + (n - 0xd800) * 0x400 + (m - 0xdc00)) :: ·)
        else none
      | _ => none
    else (joinElements? rest).map (Char.ofNat n :: ·)

/-- The string of a literal's elements. -/
def stringOf? (elements : List StringElement) : Option String :=
  (joinElements? elements).map String.ofList

/-! ## Numbers -/

/-- A numeral of a document at the start of a text, and the text behind it.  Its first digit is
zero only if it is the only one before the point, and a point or an exponent that is begun must
have its digits. -/
def splitJsonNumeral? (text : List Char) : Option (Numeral × List Char) :=
  (splitNumeral? text).bind fun ((_, numeral), rest) =>
    if numeral.whole.head? = some '0' ∧ numeral.whole.length ≠ 1 then none
    else if numeral.isCutShort rest then none
    else some (numeral, rest)

theorem splitJsonNumeral?_length {text rest : List Char} {numeral : Numeral}
    (h : splitJsonNumeral? text = some (numeral, rest)) : rest.length < text.length := by
  simp only [splitJsonNumeral?, Option.bind_eq_some_iff, Prod.exists] at h
  obtain ⟨taken, _, behind, found, kept⟩ := h
  have lossless := congrArg List.length (splitNumeral?_append found)
  have nonempty := List.length_pos_iff.mpr (splitNumeral?_ne_nil found)
  simp only [List.length_append] at lossless
  split at kept
  · cases kept
  · split at kept
    · cases kept
    · cases kept
      omega

/-! ## Values -/

/-- The value of a document's number. -/
def rawNumber (numeral : Numeral) : Raw :=
  match numeral.stepwise? with
  | some n => .number n
  | none => .unreadable

/-- The value of a document's string. -/
def rawString (elements : List StringElement) : Raw :=
  match stringOf? elements with
  | some s => .string s
  | none => .unreadable

/-- The three words of documents and their values. -/
def jsonWord? : List Char → Option (Raw × List Char)
  | 'n' :: 'u' :: 'l' :: 'l' :: rest => some (.null, rest)
  | 't' :: 'r' :: 'u' :: 'e' :: rest => some (.bool true, rest)
  | 'f' :: 'a' :: 'l' :: 's' :: 'e' :: rest => some (.bool false, rest)
  | _ => none

theorem jsonWord?_length {text rest : List Char} {value : Raw}
    (h : jsonWord? text = some (value, rest)) : rest.length < text.length := by
  unfold jsonWord? at h
  split at h <;> cases h <;> simp <;> omega

/-- A string, a number or a word at the start of a text, and the text behind it. -/
def splitScalar? : List Char → Option (Raw × List Char)
  | '"' :: rest => (splitJsonString? rest).map fun split => (rawString split.1, split.2)
  | text =>
    match splitJsonNumeral? text with
    | some (numeral, rest) => some (rawNumber numeral, rest)
    | none => jsonWord? text

theorem splitScalar?_length {text rest : List Char} {value : Raw}
    (h : splitScalar? text = some (value, rest)) : rest.length < text.length := by
  unfold splitScalar? at h
  split at h
  · simp only [Option.map_eq_some_iff, Prod.exists, Prod.mk.injEq] at h
    obtain ⟨_, _, found, _, same⟩ := h
    have := splitJsonString?_length found
    rw [← same]
    simp
    omega
  · split at h
    · rename_i found
      cases h
      exact splitJsonNumeral?_length found
    · exact jsonWord?_length h

/-- The text behind a piece of a text, shorter than the whole; none where the text is broken. -/
abbrev Rest (text : List Char) := Option { rest : List Char // rest.length < text.length }

/-- A rest of a shorter text, as one of a longer. -/
def Rest.weaken {shorter longer : List Char} (h : shorter.length ≤ longer.length) :
    Rest shorter → Rest longer
  | some ⟨rest, smaller⟩ => some ⟨rest, Nat.lt_of_lt_of_le smaller h⟩
  | none => none

namespace Raw

/-- The deepest nesting of containers that yield a value. -/
def maxDepth : Nat := 127

/-- Whether an item stands at the start of a text, well formed or not: neither the end of the text
nor a closing bracket. -/
def startsItem (text : List Char) : Bool :=
  match skipBlanks text with
  | [] => false
  | ']' :: _ => false
  | _ => true

/-- A container, or the mark of one that is nested too deep. -/
def bounded (allowed : Bool) (container : Raw) : Raw :=
  if allowed then container else if container.isWellFormed then unreadable else broken

theorem skipBlanks_cons_length {text rest : List Char} {c : Char}
    (h : skipBlanks text = c :: rest) : rest.length < text.length := by
  have shorter := skipBlanks_length text
  rw [h] at shorter
  simp at shorter
  omega

mutual

/-- The value at the start of a text and what is behind it, with so many more levels of
containers allowed. -/
def read (levels : Nat) (text : List Char) : Raw × Rest text :=
  match start : skipBlanks text with
  | '[' :: rest =>
    have shorter := skipBlanks_cons_length start
    match empty : skipBlanks rest with
    | ']' :: behind =>
      (bounded (0 < levels) (.array [] true),
        some ⟨behind, Nat.lt_trans (skipBlanks_cons_length empty) shorter⟩)
    | _ =>
      let inner := readItems (levels - 1) rest
      (bounded (0 < levels) (.array inner.1.1 inner.1.2), inner.2.weaken (Nat.le_of_lt shorter))
  | '{' :: rest =>
    have shorter := skipBlanks_cons_length start
    match empty : skipBlanks rest with
    | '}' :: behind =>
      (bounded (0 < levels) (.object [] true),
        some ⟨behind, Nat.lt_trans (skipBlanks_cons_length empty) shorter⟩)
    | _ =>
      let inner := readMembers (levels - 1) rest
      (bounded (0 < levels) (.object inner.1.1 inner.1.2), inner.2.weaken (Nat.le_of_lt shorter))
  | scalar =>
    match found : splitScalar? scalar with
    | some (value, behind) =>
      (value, some ⟨behind, by
        have := splitScalar?_length found
        have := skipBlanks_length text
        rw [start] at this
        omega⟩)
    | none => (broken, none)
termination_by (text.length, 0)

/-- The items at the start of a text up to the closing bracket, and whether there is one. -/
def readItems (levels : Nat) (text : List Char) : (List Raw × Bool) × Rest text :=
  if startsItem text then
    let head := read levels text
    match head.2 with
    | none => (([head.1], false), none)
    | some ⟨behind, shorter⟩ =>
      match next : skipBlanks behind with
      | ']' :: rest =>
        (([head.1], true), some ⟨rest, Nat.lt_trans (skipBlanks_cons_length next) shorter⟩)
      | ',' :: rest =>
        have smaller := Nat.lt_trans (skipBlanks_cons_length next) shorter
        let tail := readItems levels rest
        ((head.1 :: tail.1.1, tail.1.2), tail.2.weaken (Nat.le_of_lt smaller))
      | _ => (([head.1], false), none)
  else (([], false), none)
termination_by (text.length, 1)

/-- The members at the start of a text up to the closing brace, and whether there is one. -/
def readMembers (levels : Nat) (text : List Char) :
    (List (Option String × Raw) × Bool) × Rest text :=
  match start : skipBlanks text with
  | '"' :: rest =>
    match named : splitJsonString? rest with
    | some (elements, afterName) =>
      have named := Nat.lt_trans (splitJsonString?_length named) (skipBlanks_cons_length start)
      match colon : skipBlanks afterName with
      | ':' :: afterColon =>
        have ready := Nat.lt_trans (skipBlanks_cons_length colon) named
        let value := read levels afterColon
        match value.2 with
        | none => (([(stringOf? elements, value.1)], false), none)
        | some ⟨behind, shorter⟩ =>
          match next : skipBlanks behind with
          | '}' :: rest =>
            (([(stringOf? elements, value.1)], true),
              some ⟨rest, Nat.lt_trans (skipBlanks_cons_length next) (Nat.lt_trans shorter ready)⟩)
          | ',' :: rest =>
            have smaller :=
              Nat.lt_trans (skipBlanks_cons_length next) (Nat.lt_trans shorter ready)
            let tail := readMembers levels rest
            (((stringOf? elements, value.1) :: tail.1.1, tail.1.2),
              tail.2.weaken (Nat.le_of_lt smaller))
          | _ => (([(stringOf? elements, value.1), (none, broken)], false), none)
      | _ =>
        if (stringOf? elements).isSome then (([], false), none)
        else (([(none, broken)], false), none)
    | none => (([(none, broken)], false), none)
  | _ => (([(none, broken)], false), none)
termination_by (text.length, 2)

end

/-- A whole text: its value, where nothing but blanks is behind it. -/
def ofText? (text : List Char) : Option Raw :=
  match read maxDepth text with
  | (raw, some ⟨rest, _⟩) => if skipBlanks rest = [] then some raw else none
  | (_, none) => none

end Raw

/-- The value of a document. -/
def Json.parse? (text : List Char) : Option Json := (Raw.ofText? text).bind Raw.value?

end JsonShape
