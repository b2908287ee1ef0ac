import Mathlib.Data.List.DropRight
import Mathlib.Data.List.Induction
import JsonShape.Proofs.Text.Position
import JsonShape.Proofs.Text.Slices

/-!
# Locations and offsets

A location says as much as the offset that it belongs to.

* `Location.past_start`: the one walk over a text finds what three passes over it find: the number
  of its line feeds, the last of them, and the number of characters behind that.
* `Location.offsetIn?` goes the way back, first over whole lines and then over characters;
  `Location.offsetIn?_past`.
* `Location.exists_lt_iff_before`: offsets are in the order of their locations.
* `Location.ofOffset?_of_le`: behind the end there is only the location of the end.
-/

namespace JsonShape

/-! ## Lines of a text -/

/-- The characters of a text behind its last line feed. -/
def lastLine (text : List Char) : List Char := text.rtakeWhile (· != '\n')

/-- The characters of a text up to its last line feed. -/
def wholeLines (text : List Char) : List Char := text.rdropWhile (· != '\n')

theorem wholeLines_append_lastLine (text : List Char) :
    wholeLines text ++ lastLine text = text := List.rdropWhile_append_rtakeWhile

theorem feed_not_mem_lastLine (text : List Char) : '\n' ∉ lastLine text := by
  intro listed
  have other := List.mem_rtakeWhile_imp listed
  simp at other

theorem getLast_wholeLines (text : List Char) (nonempty : wholeLines text ≠ []) :
    (wholeLines text).getLast nonempty = '\n' := by
  have last := List.rdropWhile_last_not (· != '\n') text nonempty
  exact Decidable.of_not_not fun other => last (bne_iff_ne.mpr other)

theorem lastLine_concat_feed (text : List Char) : lastLine (text ++ ['\n']) = [] :=
  List.rtakeWhile_concat_neg (· != '\n') text '\n' (by decide)

theorem lastLine_concat (text : List Char) {c : Char} (other : c ≠ '\n') :
    lastLine (text ++ [c]) = lastLine text ++ [c] :=
  List.rtakeWhile_concat_pos (· != '\n') text c (bne_iff_ne.mpr other)

theorem count_wholeLines (text : List Char) :
    (wholeLines text).count '\n' = text.count '\n' := by
  have none : (lastLine text).count '\n' = 0 :=
    List.count_eq_zero_of_not_mem (feed_not_mem_lastLine text)
  calc (wholeLines text).count '\n'
      = (wholeLines text).count '\n' + (lastLine text).count '\n' := by rw [none, Nat.add_zero]
    _ = text.count '\n' := by rw [← List.count_append, wholeLines_append_lastLine]

/-- A text split behind its first so many line feeds; none where it has fewer. -/
def splitFeeds? : Nat → List Char → Option (List Char × List Char)
  | 0, text => some ([], text)
  | _ + 1, [] => none
  | feeds + 1, c :: rest =>
    (splitFeeds? (if c = '\n' then feeds else feeds + 1) rest).map fun split =>
      (c :: split.1, split.2)

/-- Whole lines are split off by their number. -/
theorem splitFeeds?_append {lines : List Char}
    (whole : ∀ nonempty : lines ≠ [], lines.getLast nonempty = '\n') (rest : List Char) :
    splitFeeds? (lines.count '\n') (lines ++ rest) = some (lines, rest) := by
  induction lines with
  | nil => rw [List.count_nil, List.nil_append, splitFeeds?]
  | cons c more ih =>
    cases more with
    | nil =>
      obtain rfl : c = '\n' := whole (List.cons_ne_nil c [])
      rw [List.count_singleton_self, List.singleton_append, splitFeeds?, if_pos rfl, splitFeeds?]
      rfl
    | cons d others =>
      have last : ∀ nonempty : d :: others ≠ [], (d :: others).getLast nonempty = '\n' :=
        fun _ => whole (List.cons_ne_nil c _)
      have feeds : 0 < (d :: others).count '\n' :=
        List.count_pos_iff.mpr (last (List.cons_ne_nil d others) ▸ List.getLast_mem _)
      by_cases feed : c = '\n'
      · rw [feed, List.count_cons_self, List.cons_append, splitFeeds?, if_pos rfl, ih last]
        rfl
      · obtain ⟨fewer, count⟩ := Nat.exists_eq_add_one_of_ne_zero feeds.ne'
        rw [List.count_cons_of_ne feed, count, List.cons_append, splitFeeds?, if_neg feed, ← count,
          ih last]
        rfl

/-! ## From a text to its location -/

namespace Location

theorem past_concat (location : Location) (text : List Char) (c : Char) :
    location.past (text ++ [c]) = (location.past text).advance c := List.foldl_append

/-- Behind a text, the line counts its line feeds, and the column the characters behind the last of
them. -/
theorem past_start (text : List Char) :
    start.past text = ⟨text.count '\n' + 1, (lastLine text).length + 1⟩ := by
  induction text using List.reverseRecOn with
  | nil => rfl
  | append_singleton text c ih =>
    rw [past_concat, ih, advance, List.count_append]
    by_cases feed : c = '\n'
    · rw [if_pos feed, feed, lastLine_concat_feed]
      rfl
    · rw [if_neg feed, lastLine_concat text feed, List.count_singleton,
        if_neg (by simpa using feed), List.length_append]
      rfl

/-! ## From a location to its offset -/

/-- The offset in a text to which a location leads: behind so many line feeds as there are lines
above it, and then behind so many characters as there are columns before it. -/
def offsetIn? (text : List Char) (location : Location) : Option Nat :=
  (splitFeeds? (location.line - 1) text).map fun split =>
    byteLength split.1 + byteLength (split.2.take (location.column - 1))

/-- The location behind a part of a text leads back behind that part. -/
theorem offsetIn?_past (before rest : List Char) :
    (start.past before).offsetIn? (before ++ rest) = some (byteLength before) := by
  have split : splitFeeds? (before.count '\n') (before ++ rest) =
      some (wholeLines before, lastLine before ++ rest) := by
    have found := splitFeeds?_append (getLast_wholeLines before) (lastLine before ++ rest)
    rwa [count_wholeLines, ← List.append_assoc, wholeLines_append_lastLine] at found
  rw [offsetIn?, past_start, Nat.add_sub_cancel, Nat.add_sub_cancel, split, Option.map_some,
    List.take_left, ← byteLength_append, wholeLines_append_lastLine]

/-! ## Order -/

/-- Of two boundaries of a text, the first has the location that is read first. -/
theorem before_of_lt {text : List Char} {first second : Nat} (cut : Boundary text first)
    (later : Boundary text second) (order : first < second) :
    ∃ a b, ofOffset? text first = some a ∧ ofOffset? text second = some b ∧ a.Before b := by
  obtain ⟨part, sliced⟩ :=
    Option.isSome_iff_exists.mp (slice?_isSome_iff.mpr ⟨Nat.le_of_lt order, cut, later⟩)
  obtain ⟨before, rest, rfl, rfl, rfl⟩ := slice?_eq_some_iff.mp sliced
  have nonempty : part ≠ [] := by
    rintro rfl
    exact Nat.lt_irrefl _ order
  refine ⟨start.past before, (start.past before).past part, ofOffset?_byteLength before _, ?_,
    before_past _ nonempty⟩
  rw [← byteLength_append, ← List.append_assoc, ofOffset?_byteLength, past, List.foldl_append]
  rfl

/-- The boundaries of a text are in the order of their locations. -/
theorem exists_lt_iff_before {text : List Char} {first second : Nat} (cut : Boundary text first)
    (other : Boundary text second) :
    ∃ a b, ofOffset? text first = some a ∧ ofOffset? text second = some b ∧
      (first < second ↔ a.Before b) ∧ (a = b → first = second) := by
  rcases Nat.lt_trichotomy first second with less | rfl | more
  · obtain ⟨a, b, here, there, before⟩ := before_of_lt cut other less
    exact ⟨a, b, here, there, iff_of_true less before,
      fun same => absurd (same ▸ before) (Before.irrefl b)⟩
  · obtain ⟨a, here⟩ := Option.isSome_iff_exists.mp (boundary_iff_ofOffset?.mp cut).2
    exact ⟨a, a, here, here, iff_of_false (Nat.lt_irrefl _) (Before.irrefl a), fun _ => rfl⟩
  · obtain ⟨b, a, there, here, before⟩ := before_of_lt other cut more
    exact ⟨a, b, here, there,
      iff_of_false (Nat.lt_asymm more) fun after => Before.irrefl a (after.trans before),
      fun same => absurd (same ▸ before) (Before.irrefl b)⟩

end Location

/-! ## Behind the end -/

theorem charsBefore?_of_le {text : List Char} {offset : Nat} (behind : byteLength text ≤ offset) :
    charsBefore? text offset = some text := by
  fun_induction charsBefore? text offset with
  | case1 text =>
    cases text with
    | nil => rfl
    | cons c rest =>
      have size := c.utf8Size_pos
      rw [byteLength] at behind
      omega
  | case2 => rfl
  | case3 c rest offset fits ih =>
    rw [byteLength] at behind
    rw [ih (by omega), Option.map_some]
  | case4 c rest offset inside =>
    rw [byteLength] at behind
    omega

theorem Location.ofOffset?_of_le {text : List Char} {offset : Nat}
    (behind : byteLength text ≤ offset) : ofOffset? text offset = some (start.past text) := by
  rw [ofOffset?, charsBefore?_of_le behind, Option.map_some]

/-- Locations identify positions.  Of two offsets of a text, none of them inside a character, the
first has the location that is read first, so offsets with one location are one; and an offset is
found from its location, behind the line feeds of the lines above and the characters of the columns
before.  An offset behind the end has the location of the end. -/
theorem locations_identify_offsets (text : List Char) :
    (∀ first second, Boundary text first → Boundary text second →
      ∃ a b, Location.ofOffset? text first = some a ∧ Location.ofOffset? text second = some b ∧
        (first < second ↔ a.Before b) ∧ (a = b → first = second)) ∧
    (∀ offset, Boundary text offset →
      ∃ location, Location.ofOffset? text offset = some location ∧
        location.offsetIn? text = some offset) ∧
    ∀ offset, byteLength text < offset →
      ∃ finish, Location.ofOffset? text offset = some finish ∧
        Location.ofOffset? text (byteLength text) = some finish := by
  refine ⟨fun _ _ => Location.exists_lt_iff_before, fun offset cut => ?_, fun offset behind => ?_⟩
  · obtain ⟨before, rest, rfl, rfl⟩ := boundary_iff.mp cut
    exact ⟨Location.start.past before, Location.ofOffset?_byteLength before rest,
      Location.offsetIn?_past before rest⟩
  · exact ⟨Location.start.past text, Location.ofOffset?_of_le (Nat.le_of_lt behind),
      Location.ofOffset?_of_le (Nat.le_refl _)⟩

-- Behind a line that ends in two characters, and behind a character of two bytes.
example : Location.ofOffset? "a\r\né\n".toList 5 = some ⟨2, 2⟩ ∧
    (⟨2, 2⟩ : Location).offsetIn? "a\r\né\n".toList = some 5 := by decide

end JsonShape
