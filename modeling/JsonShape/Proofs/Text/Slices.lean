import JsonShape.Text.Position

/-!
# Slices of a text

Which byte offsets of a text can be cut at, and what is cut out between two of them.

* `Boundary text offset`: an offset of the text that is not inside a character.  It is one exactly
  if a part of the text is in front of it (`boundary_iff`), and then it has a location
  (`boundary_iff_ofOffset?`).
* `slice? text start stop`: the part of a text between two offsets.  There is one exactly if both
  are boundaries, in order (`slice?_isSome_iff`).
-/

namespace JsonShape

/-! ## Boundaries -/

/-- A byte offset of a text, not behind its end and not inside a character. -/
def Boundary (text : List Char) (offset : Nat) : Prop :=
  String.Pos.Raw.IsValid (String.ofList text) ⟨offset⟩

theorem byteLength_append (a b : List Char) :
    byteLength (a ++ b) = byteLength a + byteLength b := by
  induction a with
  | nil => exact (Nat.zero_add _).symm
  | cons c rest ih => rw [List.cons_append, byteLength, byteLength, ih, Nat.add_assoc]

theorem utf8ByteSize_ofList (text : List Char) :
    (String.ofList text).utf8ByteSize = byteLength text := by
  induction text with
  | nil => rfl
  | cons c rest ih =>
    rw [← List.singleton_append, String.ofList_append, String.utf8ByteSize_append, ih,
      ← String.singleton_eq_ofList, String.utf8ByteSize_singleton]
    rfl

theorem boundary_iff {text : List Char} {offset : Nat} :
    Boundary text offset ↔ ∃ before rest, text = before ++ rest ∧ offset = byteLength before := by
  rw [Boundary, String.Pos.Raw.isValid_iff_exists_append]
  constructor
  · rintro ⟨front, back, whole, size⟩
    have chars := congrArg String.toList whole
    rw [String.toList_ofList, String.toList_append] at chars
    refine ⟨front.toList, back.toList, chars, ?_⟩
    rw [← utf8ByteSize_ofList, String.ofList_toList]
    exact congrArg String.Pos.Raw.byteIdx size
  · rintro ⟨before, rest, rfl, rfl⟩
    refine ⟨String.ofList before, String.ofList rest, String.ofList_append, ?_⟩
    rw [← utf8ByteSize_ofList]
    rfl

theorem Boundary.le {text : List Char} {offset : Nat} (boundary : Boundary text offset) :
    offset ≤ byteLength text := by
  obtain ⟨before, rest, rfl, rfl⟩ := boundary_iff.mp boundary
  rw [byteLength_append]
  exact Nat.le_add_right _ _

/-- Within a text, the characters before an offset are in front of it, and take as many bytes. -/
theorem eq_append_of_charsBefore? {text before : List Char} {offset : Nat}
    (found : charsBefore? text offset = some before) (inside : offset ≤ byteLength text) :
    ∃ rest, text = before ++ rest ∧ offset = byteLength before := by
  fun_induction charsBefore? text offset generalizing before with
  | case1 text =>
    cases found
    exact ⟨text, rfl, rfl⟩
  | case2 offset => cases inside
  | case3 c rest offset fits ih =>
    obtain ⟨more, others, rfl⟩ := Option.map_eq_some_iff.mp found
    rw [byteLength] at inside
    obtain ⟨behind, rfl, size⟩ := ih others (by omega)
    refine ⟨behind, rfl, ?_⟩
    rw [byteLength, ← size]
    omega
  | case4 => cases found

theorem Location.ofOffset?_byteLength (before rest : List Char) :
    ofOffset? (before ++ rest) (byteLength before) = some (start.past before) := by
  rw [ofOffset?, charsBefore?_byteLength]
  rfl

/-- The offsets of a text that have a location are its boundaries. -/
theorem boundary_iff_ofOffset? {text : List Char} {offset : Nat} :
    Boundary text offset ↔
      offset ≤ byteLength text ∧ (Location.ofOffset? text offset).isSome = true := by
  constructor
  · intro boundary
    refine ⟨boundary.le, ?_⟩
    obtain ⟨before, rest, rfl, rfl⟩ := boundary_iff.mp boundary
    rw [Location.ofOffset?_byteLength]
    rfl
  · rintro ⟨inside, located⟩
    rw [Location.ofOffset?, Option.isSome_map, Option.isSome_iff_exists] at located
    obtain ⟨before, found⟩ := located
    obtain ⟨rest, whole, size⟩ := eq_append_of_charsBefore? found inside
    exact boundary_iff.mpr ⟨before, rest, whole, size⟩

/-! ## Slices -/

/-- The part of a text between two byte offsets.  There is none where they are in the wrong order,
or one of them is behind the end or inside a character. -/
def slice? (text : List Char) (start stop : Nat) : Option (List Char) :=
  if start ≤ stop ∧ stop ≤ byteLength text then do
    let before ← charsBefore? text start
    charsBefore? (text.drop before.length) (stop - start)
  else none

theorem slice?_eq_some_iff {text part : List Char} {start stop : Nat} :
    slice? text start stop = some part ↔
      ∃ before rest, text = before ++ (part ++ rest) ∧ start = byteLength before ∧
        stop = start + byteLength part := by
  constructor
  · intro sliced
    rw [slice?] at sliced
    split at sliced
    · next range =>
      obtain ⟨before, front, found⟩ := Option.bind_eq_some_iff.mp sliced
      obtain ⟨behind, rfl, rfl⟩ := eq_append_of_charsBefore? front (Nat.le_trans range.1 range.2)
      rw [List.drop_left] at found
      rw [byteLength_append] at range
      obtain ⟨rest, rfl, size⟩ := eq_append_of_charsBefore? found (by omega)
      exact ⟨before, rest, rfl, rfl, by omega⟩
    · cases sliced
  · rintro ⟨before, rest, rfl, rfl, rfl⟩
    have range : byteLength before ≤ byteLength before + byteLength part ∧
        byteLength before + byteLength part ≤ byteLength (before ++ (part ++ rest)) := by
      simp only [byteLength_append]
      omega
    rw [slice?, if_pos range, charsBefore?_byteLength, Option.bind_eq_bind, Option.bind_some,
      List.drop_left, Nat.add_sub_cancel_left, charsBefore?_byteLength]

/-- A text can be cut between two offsets exactly if both are boundaries, in order. -/
theorem slice?_isSome_iff {text : List Char} {start stop : Nat} :
    (slice? text start stop).isSome = true ↔
      start ≤ stop ∧ Boundary text start ∧ Boundary text stop := by
  rw [Option.isSome_iff_exists]
  simp only [slice?_eq_some_iff]
  constructor
  · rintro ⟨part, before, rest, rfl, rfl, rfl⟩
    refine ⟨Nat.le_add_right _ _, boundary_iff.mpr ⟨before, part ++ rest, rfl, rfl⟩,
      boundary_iff.mpr ⟨before ++ part, rest, (List.append_assoc ..).symm, ?_⟩⟩
    rw [byteLength_append]
  · rintro ⟨order, first, second⟩
    obtain ⟨before, behind, whole, rfl⟩ := boundary_iff.mp first
    obtain ⟨through, rest, same, rfl⟩ := boundary_iff.mp second
    -- Of two parts in front of one text, the one with fewer bytes is in front of the other.
    have nested : before <+: through := by
      rcases List.prefix_or_prefix_of_prefix ⟨behind, whole.symm⟩ ⟨rest, same.symm⟩ with
        front | ⟨more, rfl⟩
      · exact front
      · rw [byteLength_append] at order
        cases more with
        | nil => exact ⟨[], by simp⟩
        | cons c others =>
          have size := c.utf8Size_pos
          rw [byteLength] at order
          omega
    obtain ⟨part, rfl⟩ := nested
    exact ⟨part, before, rest, by rw [same, List.append_assoc], rfl, byteLength_append _ _⟩

example : slice? "aéb".toList 1 3 = some ['é'] ∧ slice? "aéb".toList 2 3 = none := by decide

end JsonShape
