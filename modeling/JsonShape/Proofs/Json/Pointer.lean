import JsonShape.Json.Pointer

/-!
# Pointers and their texts

* `Pointer.parse?_chars`: the text of a pointer reads back as the pointer, whatever characters its
  names hold.
* `Pointer.unescape_eq_replace`: a name is read back in one pass, and this is the same as to
  replace `~1` throughout and then `~0`.
-/

namespace JsonShape.Pointer

/-! ## Names -/

theorem unescape_cons {c : Char} (plain : c ≠ '~') (rest : List Char) :
    unescape (c :: rest) = c :: unescape rest := by
  rw [unescape.eq_def]
  split
  · contradiction
  · exact absurd (List.cons.inj ‹_›).1 plain
  · exact absurd (List.cons.inj ‹_›).1 plain
  · next same =>
    obtain ⟨rfl, rfl⟩ := List.cons.inj same
    rfl

theorem unescape_escape (name : List Char) : unescape (escape name) = name := by
  induction name with
  | nil => rfl
  | cons c rest ih =>
    have step : escape (c :: rest) = escapeChar c ++ escape rest := List.flatMap_cons
    rw [step, escapeChar]
    split
    · next tilde => rw [tilde, List.cons_append, List.cons_append, List.nil_append, unescape, ih]
    · next plain =>
      split
      · next slash => rw [slash, List.cons_append, List.cons_append, List.nil_append, unescape, ih]
      · rw [List.cons_append, List.nil_append, unescape_cons plain, ih]

theorem slash_not_mem_escape (name : List Char) : '/' ∉ escape name := by
  intro member
  obtain ⟨c, _, listed⟩ := List.mem_flatMap.mp member
  rw [escapeChar] at listed
  split at listed
  · simp at listed
  · split at listed
    · simp at listed
    · next other => exact other (List.mem_singleton.mp listed).symm

/-- A text with every pair of two characters replaced by a third, from the left. -/
def replacePair (first second value : Char) : List Char → List Char
  | [] => []
  | [c] => [c]
  | c :: d :: rest =>
    if c = first ∧ d = second then value :: replacePair first second value rest
    else c :: replacePair first second value (d :: rest)

theorem replacePair_cons {first second value c : Char} {rest : List Char}
    (other : ¬(c = first ∧ rest.head? = some second)) :
    replacePair first second value (c :: rest) = c :: replacePair first second value rest := by
  cases rest with
  | nil => rfl
  | cons d more =>
    rw [replacePair, if_neg]
    simpa using other

/-- Replacing pairs by a character that is not looked for does not bring that one to the front. -/
theorem head?_replacePair {first second value wanted : Char} (other : value ≠ wanted)
    (text : List Char) (found : (replacePair first second value text).head? = some wanted) :
    text.head? = some wanted := by
  cases text with
  | nil => exact found
  | cons c rest =>
    cases rest with
    | nil => exact found
    | cons d more =>
      rw [replacePair] at found
      split at found
      · exact absurd (Option.some.inj found) other
      · exact found

/-- To read the escapes of a name in one pass is to replace `~1` by a slash and then `~0` by a
tilde. -/
theorem unescape_eq_replace (text : List Char) :
    unescape text = replacePair '~' '0' '~' (replacePair '~' '1' '/' text) := by
  fun_induction unescape text with
  | case1 => rfl
  | case2 rest ih =>
    have outer : replacePair '~' '1' '/' ('~' :: '0' :: rest) =
        '~' :: '0' :: replacePair '~' '1' '/' rest := by
      rw [replacePair_cons (by simp), replacePair_cons (by simp)]
    rw [outer, ih, replacePair, if_pos ⟨rfl, rfl⟩]
  | case3 rest ih =>
    have outer : replacePair '~' '1' '/' ('~' :: '1' :: rest) =
        '/' :: replacePair '~' '1' '/' rest := by
      rw [replacePair, if_pos ⟨rfl, rfl⟩]
    rw [outer, ih, replacePair_cons (by simp)]
  | case4 c rest noTilde noSlash ih =>
    have slash : ¬(c = '~' ∧ rest.head? = some '1') := by
      rintro ⟨rfl, head⟩
      obtain ⟨more, rfl⟩ := List.head?_eq_some_iff.mp head
      exact noSlash more rfl rfl
    have tilde : ¬(c = '~' ∧ (replacePair '~' '1' '/' rest).head? = some '0') := by
      rintro ⟨rfl, head⟩
      obtain ⟨more, rfl⟩ := List.head?_eq_some_iff.mp (head?_replacePair (by decide) rest head)
      exact noTilde more rfl rfl
    rw [replacePair_cons slash, replacePair_cons tilde, ih]

/-! ## Texts -/

theorem segments_of_not_mem {text : List Char} (plain : '/' ∉ text) : segments text = [text] := by
  induction text with
  | nil => rfl
  | cons c rest ih =>
    rw [List.mem_cons, not_or] at plain
    rw [segments, if_neg (Ne.symm plain.1), ih plain.2]

theorem segments_ne_nil (text : List Char) : segments text ≠ [] := by
  cases text with
  | nil => exact List.cons_ne_nil _ _
  | cons c rest =>
    rw [segments]
    split
    · exact List.cons_ne_nil _ _
    · split <;> exact List.cons_ne_nil _ _

/-- A slash between two texts keeps their parts apart. -/
theorem segments_append_slash (text rest : List Char) :
    segments (text ++ '/' :: rest) = segments text ++ segments rest := by
  induction text with
  | nil => rfl
  | cons c more ih =>
    rw [List.cons_append, segments, segments, ih]
    split
    · rfl
    · obtain ⟨first, others, same⟩ := List.exists_cons_of_ne_nil (segments_ne_nil more)
      rw [same]
      rfl

theorem segments_append {text : List Char} (plain : '/' ∉ text) (rest : List Char) :
    segments (text ++ '/' :: rest) = text :: segments rest := by
  rw [segments_append_slash, segments_of_not_mem plain, List.singleton_append]

theorem segments_chars (name : String) (pointer : Pointer) :
    segments (escape name.toList ++ chars pointer) =
      (name :: pointer).map fun name => escape name.toList := by
  induction pointer generalizing name with
  | nil => simp [chars, segments_of_not_mem (slash_not_mem_escape name.toList)]
  | cons next rest ih =>
    have step : chars (next :: rest) = '/' :: (escape next.toList ++ chars rest) := rfl
    rw [step, segments_append (slash_not_mem_escape name.toList), ih next]
    rfl

/-- The text of a pointer leads to where the pointer does. -/
theorem parse?_chars (pointer : Pointer) : parse? pointer.chars = some pointer := by
  cases pointer with
  | nil => rfl
  | cons name rest =>
    have step : chars (name :: rest) = '/' :: (escape name.toList ++ chars rest) := rfl
    rw [step, parse?, if_pos rfl, segments_chars, List.map_map]
    simp [Function.comp_def, unescape_escape]

/-- Two texts of pointers, one behind the other, lead where the two pointers lead in turn.  What the
first text ends in, a tilde included, does not meet the second, which starts with a slash. -/
theorem parse?_append {text more : List Char} {first second : Pointer}
    (read : parse? text = some first) (readMore : parse? more = some second) :
    parse? (text ++ more) = some (first ++ second) := by
  cases text with
  | nil =>
    cases read
    exact readMore
  | cons c rest =>
    cases more with
    | nil =>
      cases readMore
      rw [List.append_nil, List.append_nil, read]
    | cons d others =>
      rw [parse?] at read readMore
      split at read
      · split at readMore
        · next slash next =>
          cases read
          cases readMore
          rw [List.cons_append, parse?, if_pos slash, next, segments_append_slash, List.map_append]
        · cases readMore
      · cases read

end JsonShape.Pointer

namespace JsonShape.Json

theorem at?_append (value : Json) (first second : Pointer) :
    value.at? (first ++ second) = (value.at? first).bind (·.at? second) := by
  induction first generalizing value with
  | nil => rfl
  | cons name rest ih =>
    rw [List.cons_append, at?, at?]
    cases value.child? name with
    | none => rfl
    | some part => exact ih part

/-- The part of a value that the text of a pointer leads to. -/
def pointed? (value : Json) (text : String) : Option Json :=
  (Pointer.parse? text.toList).bind value.at?

theorem pointed?_render (value : Json) (pointer : Pointer) :
    value.pointed? pointer.render = value.at? pointer := by
  rw [pointed?, Pointer.render, String.toList_ofList, Pointer.parse?_chars, Option.bind_some]

/-- The text of a pointer behind another one leads from where that one leads. -/
theorem pointed?_append {value part : Json} {text : String} (found : value.pointed? text = some part)
    (pointer : Pointer) : value.pointed? (text ++ pointer.render) = part.at? pointer := by
  obtain ⟨first, read, leads⟩ := Option.bind_eq_some_iff.mp found
  rw [pointed?, String.toList_append, Pointer.render, String.toList_ofList,
    Pointer.parse?_append read (Pointer.parse?_chars pointer), Option.bind_some, at?_append, leads,
    Option.bind_some]

end JsonShape.Json
