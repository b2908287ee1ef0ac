import JsonShape.Text.Position
import Mathlib.Data.List.Count

/-!
# Positions behind a text

Where a position of a text is, once another text stands in front of it.

* `Position.behind before` moves a position; going on from there is going on and then moving
  (`Position.behind_past`), so the start is moved to the end of the text in front
  (`Position.behind_start`).
* `Location.behind_lines`: behind whole lines only the line changes.
* `Location.behind_inLine`: behind a text of one line only columns of the first line change.
* `Location.before_past`: behind a text that is not empty is behind its start.
-/

namespace JsonShape

/-- The line and column, behind a text, of what is at a location of its own text. -/
def Location.behind (before : List Char) (location : Location) : Location :=
  let base := Location.start.past before
  ⟨base.line + location.line - 1,
    if location.line = 1 then base.column + location.column - 1 else location.column⟩

/-- The position, behind a text, of what is at a position of its own text. -/
def Position.behind (before : List Char) (position : Position) : Position :=
  ⟨position.toLocation.behind before, byteLength before + position.offset⟩

namespace Location

theorem line_pos_past (location : Location) (text : List Char) (counted : 0 < location.line) :
    0 < (location.past text).line := by
  induction text generalizing location with
  | nil => exact counted
  | cons c rest ih =>
    apply ih
    unfold advance
    split
    · exact Nat.succ_pos _
    · exact counted

theorem column_pos_past (location : Location) (text : List Char) (counted : 0 < location.column) :
    0 < (location.past text).column := by
  induction text generalizing location with
  | nil => exact counted
  | cons c rest ih =>
    apply ih
    unfold advance
    split
    · exact Nat.one_pos
    · exact Nat.succ_pos _

theorem behind_start (before : List Char) : start.behind before = start.past before := by
  unfold behind
  simp only [start]
  rfl

theorem behind_advance (before : List Char) (location : Location) (c : Char)
    (counted : 0 < location.line) :
    (location.advance c).behind before = (location.behind before).advance c := by
  have line := line_pos_past start before Nat.one_pos
  have column := column_pos_past start before Nat.one_pos
  unfold behind advance
  dsimp only
  generalize start.past before = base at *
  by_cases feed : c = '\n'
  · rw [if_pos feed, if_pos feed]
    simp only [mk.injEq]
    constructor
    · omega
    · rw [if_neg (by omega)]
  · rw [if_neg feed, if_neg feed]
    simp only [mk.injEq, true_and]
    split
    · omega
    · rfl

theorem behind_past (before : List Char) (location : Location) (text : List Char)
    (counted : 0 < location.line) :
    (location.past text).behind before = (location.behind before).past text := by
  induction text generalizing location with
  | nil => rfl
  | cons c rest ih =>
    have next : 0 < (location.advance c).line := line_pos_past location [c] counted
    have moved := ih (location.advance c) next
    rw [behind_advance before location c counted] at moved
    exact moved

theorem line_past (location : Location) (text : List Char) :
    (location.past text).line = location.line + text.count '\n' := by
  induction text generalizing location with
  | nil => rfl
  | cons c rest ih =>
    have step : location.past (c :: rest) = (location.advance c).past rest := rfl
    rw [step, ih, advance]
    by_cases feed : c = '\n'
    · rw [if_pos feed, feed, List.count_cons_self, Nat.add_right_comm, Nat.add_assoc]
    · rw [if_neg feed, List.count_cons_of_ne feed]

theorem past_inLine {text : List Char} (oneLine : '\n' ∉ text) (location : Location) :
    location.past text = ⟨location.line, location.column + text.length⟩ := by
  induction text generalizing location with
  | nil => rfl
  | cons c rest ih =>
    obtain ⟨notFeed, others⟩ := not_or.mp (mt List.mem_cons.mpr oneLine)
    have step : location.past (c :: rest) = (location.advance c).past rest := rfl
    rw [step, ih others, advance, if_neg (Ne.symm notFeed), List.length_cons, Nat.add_assoc,
      Nat.add_comm 1]

/-- Behind whole lines, lines are counted on and columns stay. -/
theorem behind_lines (before : List Char) (location : Location) :
    location.behind (before ++ ['\n']) =
      ⟨location.line + (1 + before.count '\n'), location.column⟩ := by
  have last : start.past (before ++ ['\n']) = ⟨(start.past before).line + 1, 1⟩ := by
    rw [past, List.foldl_append]
    rfl
  have feeds : (start.past before).line = 1 + before.count '\n' := line_past start before
  unfold behind
  rw [last]
  simp only [mk.injEq]
  constructor
  · omega
  · split
    · omega
    · rfl

/-- Behind a text of one line the line stays, and columns of the first line are counted on. -/
theorem behind_inLine {before : List Char} (oneLine : '\n' ∉ before) (location : Location) :
    location.behind before =
      ⟨location.line,
        if location.line = 1 then before.length + location.column else location.column⟩ := by
  unfold behind
  rw [past_inLine oneLine]
  simp only [start, mk.injEq]
  constructor
  · omega
  · split
    · omega
    · rfl

/-! ## Reading order -/

theorem Before.irrefl (location : Location) : ¬location.Before location := by
  unfold Before
  omega

theorem Before.trans {a b c : Location} (first : a.Before b) (second : b.Before c) :
    a.Before c := by
  unfold Before at *
  omega

theorem before_advance (location : Location) (c : Char) : location.Before (location.advance c) := by
  unfold Before advance
  split
  · exact .inl (Nat.lt_succ_self _)
  · exact .inr ⟨rfl, Nat.lt_succ_self _⟩

/-- Every text leads on. -/
theorem before_past (location : Location) {text : List Char} (nonempty : text ≠ []) :
    location.Before (location.past text) := by
  induction text generalizing location with
  | nil => exact absurd rfl nonempty
  | cons c rest ih =>
    have first := before_advance location c
    cases rest with
    | nil => exact first
    | cons d more => exact first.trans (ih (location.advance c) (List.cons_ne_nil d more))

end Location

namespace Position

/-- A position is its location and its offset. -/
theorem ext_of_location {a b : Position} (location : a.toLocation = b.toLocation)
    (offset : a.offset = b.offset) : a = b := by
  cases a
  cases b
  cases location
  cases offset
  rfl

@[simp] theorem toLocation_behind (before : List Char) (position : Position) :
    (position.behind before).toLocation = position.toLocation.behind before := rfl

/-- Behind a text, the start is where the text ends. -/
theorem behind_start (before : List Char) : start.behind before = start.past before := by
  apply ext_of_location
  · rw [toLocation_past]
    exact Location.behind_start before
  · rw [offset_past]
    exact Nat.add_comm _ _

/-- Going on from a moved position is going on and then moving. -/
theorem behind_past (before : List Char) (position : Position) (text : List Char)
    (counted : 0 < position.line) :
    (position.past text).behind before = (position.behind before).past text := by
  apply ext_of_location
  · rw [toLocation_past, toLocation_behind, toLocation_past]
    exact Location.behind_past before position.toLocation text counted
  · rw [offset_past]
    exact (congrArg _ (offset_past position text)).trans (Nat.add_assoc _ _ _).symm

end Position

end JsonShape
