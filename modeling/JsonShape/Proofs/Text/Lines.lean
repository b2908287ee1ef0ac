import Mathlib.Order.Monotone.Basic
import Mathlib.Data.List.Basic
import JsonShape.Text.Blank

/-!
# Lines

A text by its lines, and texts whose lines differ in how they end and in blank lines between them.

* `linesOf_feed`, `linesOf_unended`: the lines of a text, one after the other.
* `Respaced text changed`: some line ends of `text` are written with a carriage return, and blank
  lines are put at its start, between its lines and at its end.
* `Respaced.interspersed`: its lines are still there, in their order and up to a carriage return
  that a line may have more at its end, and all other lines are blank.  `MovesLines` says the same
  by the places of the lines.
-/

namespace JsonShape

/-! ## The lines of a text -/

theorem dropReturn_concat (line : List Char) : dropReturn (line ++ ['\r']) = line := by
  simp [dropReturn]

theorem dropReturn_or (line : List Char) :
    dropReturn line = line ∨ line = dropReturn line ++ ['\r'] := by
  unfold dropReturn
  split
  · next returned =>
    obtain ⟨whole, rfl⟩ := List.getLast?_eq_some_iff.mp returned
    exact .inr (by simp)
  · exact .inl rfl

theorem linesOf_go {line : List Char} (whole : '\n' ∉ line) (begun rest : List Char) :
    linesOf.go begun (line ++ rest) = linesOf.go (line.reverse ++ begun) rest := by
  induction line generalizing begun with
  | nil => rfl
  | cons c more ih =>
    obtain ⟨first, others⟩ := not_or.mp (List.mem_cons.not.mp whole)
    rw [List.cons_append, linesOf.go, if_neg (Ne.symm first), ih others]
    simp

/-- A line that is ended is the first of its text. -/
theorem linesOf_feed {line : List Char} (whole : '\n' ∉ line) (rest : List Char) :
    linesOf (line ++ '\n' :: rest) = dropReturn line :: linesOf rest := by
  rw [linesOf, linesOf_go whole, linesOf.go, if_pos rfl]
  simp [linesOf]

/-- What is not ended is one line, if it is anything. -/
theorem linesOf_unended {line : List Char} (whole : '\n' ∉ line) :
    linesOf line = if line = [] then [] else [line] := by
  have same := linesOf_go whole [] []
  rw [List.append_nil, List.append_nil] at same
  rw [linesOf, same, linesOf.go]
  simp

/-- Lines that are ended one by one are the lines of their text. -/
theorem linesOf_flatMap {lines : List (List Char)} (whole : ∀ line ∈ lines, '\n' ∉ line)
    (plain : ∀ line ∈ lines, dropReturn line = line) :
    linesOf (lines.flatMap (· ++ ['\n'])) = lines := by
  induction lines with
  | nil => rfl
  | cons line rest ih =>
    obtain ⟨wholeFirst, wholeRest⟩ := List.forall_mem_cons.mp whole
    obtain ⟨plainFirst, plainRest⟩ := List.forall_mem_cons.mp plain
    rw [List.flatMap_cons, List.append_assoc, List.singleton_append, linesOf_feed wholeFirst,
      plainFirst, ih wholeRest plainRest]

/-! ## Lines that differ in a carriage return -/

/-- Lines of which one may have a carriage return more at its end. -/
def SameButReturn (line other : List Char) : Prop :=
  other = line ∨ other = line ++ ['\r'] ∨ line = other ++ ['\r']

theorem sameButReturn_dropReturn (line : List Char) : SameButReturn line (dropReturn line) :=
  (dropReturn_or line).imp_right .inr

theorem SameButReturn.symm {line other : List Char} (same : SameButReturn line other) :
    SameButReturn other line :=
  same.imp Eq.symm Or.symm

theorem isBlankText_append_return (line : List Char) :
    isBlankText (line ++ ['\r']) = isBlankText line := by
  have blank : isBlankChar '\r' = true := rfl
  simp [isBlankText, blank]

theorem SameButReturn.isBlankText_eq {line other : List Char} (same : SameButReturn line other) :
    isBlankText other = isBlankText line := by
  rcases same with rfl | rfl | rfl
  · rfl
  · exact isBlankText_append_return line
  · exact (isBlankText_append_return other).symm

/-! ## Respaced texts -/

/-- A line end: a line feed, with a carriage return before it or without. -/
def IsLineEnd (ending : List Char) : Prop := ending = ['\n'] ∨ ending = ['\r', '\n']

/-- A text, and the same text with carriage returns put before some of its line feeds and with
lines of white space put before and behind its lines.  A last line without an end has to be ended
before another can stand behind it. -/
inductive Respaced : List Char → List Char → Prop
  | unended {line : List Char} (whole : '\n' ∉ line) : Respaced line line
  | line {line ending text changed : List Char} (whole : '\n' ∉ line) (ends : IsLineEnd ending)
      (rest : Respaced text changed) :
    Respaced (line ++ '\n' :: text) (line ++ ending ++ changed)
  | blank {line ending text changed : List Char} (whole : '\n' ∉ line)
      (blank : isBlankText line = true) (ends : IsLineEnd ending) (rest : Respaced text changed) :
    Respaced text (line ++ ending ++ changed)
  | lastBlank {line : List Char} (whole : '\n' ∉ line) (blank : isBlankText line = true) :
    Respaced [] line
  | ended {line ending changed : List Char} (whole : '\n' ∉ line) (ends : IsLineEnd ending)
      (rest : Respaced [] changed) : Respaced line (line ++ ending ++ changed)

/-- Lines, and the same lines up to carriage returns with blank lines between them. -/
inductive Interspersed : List (List Char) → List (List Char) → Prop
  | nil : Interspersed [] []
  | line {line other : List Char} {lines others : List (List Char)}
      (same : SameButReturn line other) (rest : Interspersed lines others) :
    Interspersed (line :: lines) (other :: others)
  | blank {line : List Char} {lines others : List (List Char)} (blank : isBlankText line = true)
      (rest : Interspersed lines others) : Interspersed lines (line :: others)

theorem Interspersed.refl (lines : List (List Char)) : Interspersed lines lines := by
  induction lines with
  | nil => exact .nil
  | cons line rest ih => exact .line (.inl rfl) ih

/-- Whatever ends a line, it is the first of its text, with its carriage return or without. -/
theorem linesOf_ended {line ending : List Char} (whole : '\n' ∉ line) (ends : IsLineEnd ending)
    (rest : List Char) :
    ∃ first, (first = line ∨ first = dropReturn line) ∧
      linesOf (line ++ ending ++ rest) = first :: linesOf rest := by
  rcases ends with rfl | rfl
  · refine ⟨dropReturn line, .inr rfl, ?_⟩
    rw [List.append_assoc, List.singleton_append, linesOf_feed whole]
  · refine ⟨line, .inl rfl, ?_⟩
    have wholeToo : '\n' ∉ line ++ ['\r'] := by simp [whole]
    have step := linesOf_feed wholeToo rest
    rw [dropReturn_concat] at step
    simpa using step

theorem sameButReturn_of_ended {line first : List Char}
    (same : first = line ∨ first = dropReturn line) :
    SameButReturn line first ∧ SameButReturn (dropReturn line) first := by
  rcases same with rfl | rfl
  · exact ⟨.inl rfl, (sameButReturn_dropReturn first).symm⟩
  · exact ⟨sameButReturn_dropReturn line, .inl rfl⟩

/-- The lines of a respaced text. -/
theorem Respaced.interspersed {text changed : List Char} (respaced : Respaced text changed) :
    Interspersed (linesOf text) (linesOf changed) := by
  induction respaced with
  | unended whole => exact .refl _
  | @line line ending text changed whole ends rest ih =>
    obtain ⟨first, same, lines⟩ := linesOf_ended whole ends changed
    rw [linesOf_feed whole, lines]
    exact .line (sameButReturn_of_ended same).2 ih
  | @blank line ending text changed whole blank ends rest ih =>
    obtain ⟨first, same, lines⟩ := linesOf_ended whole ends changed
    rw [lines]
    exact .blank ((sameButReturn_of_ended same).1.isBlankText_eq.trans blank) ih
  | lastBlank whole blank =>
    rw [linesOf_unended whole]
    split
    · exact .nil
    · exact .blank blank .nil
  | @ended line ending changed whole ends rest ih =>
    obtain ⟨first, same, lines⟩ := linesOf_ended whole ends changed
    rw [linesOf_unended whole, lines]
    have sameLine := (sameButReturn_of_ended same).1
    split
    · next empty =>
      rw [empty] at sameLine
      exact .blank sameLine.isBlankText_eq ih
    · exact .line sameLine ih

/-- Where the lines of a text stand in another text: every line is kept, in order and up to a
carriage return, and all other lines are blank.  Lines are counted from zero. -/
structure MovesLines (lines others : List (List Char)) (move : Nat → Nat) : Prop where
  inOrder : StrictMono move
  kept : ∀ index line, lines[index]? = some line →
    ∃ other, others[move index]? = some other ∧ SameButReturn line other
  blank : ∀ place other, others[place]? = some other → isBlankText other = false →
    ∃ index < lines.length, move index = place

namespace MovesLines

variable {lines others : List (List Char)} {line other : List Char} {move : Nat → Nat}

/-- A place behind a first line. -/
def behindFirst (move : Nat → Nat) : Nat → Nat
  | 0 => 0
  | index + 1 => move index + 1

theorem nil : MovesLines [] [] id where
  inOrder := strictMono_id
  kept := fun _ _ found => by cases found
  blank := fun _ _ found => by cases found

theorem cons (same : SameButReturn line other) (moves : MovesLines lines others move) :
    MovesLines (line :: lines) (other :: others) (behindFirst move) where
  inOrder := by
    refine strictMono_nat_of_lt_succ fun index => ?_
    cases index with
    | zero => exact Nat.succ_pos _
    | succ index => exact Nat.succ_lt_succ (moves.inOrder (Nat.lt_succ_self index))
  kept := by
    intro index wanted found
    cases index with
    | zero =>
      cases found
      exact ⟨other, rfl, same⟩
    | succ index => exact moves.kept index wanted found
  blank := by
    intro place wanted found shown
    cases place with
    | zero => exact ⟨0, Nat.succ_pos _, rfl⟩
    | succ place =>
      obtain ⟨index, listed, moved⟩ := moves.blank place wanted found shown
      exact ⟨index + 1, Nat.succ_lt_succ listed, congrArg (· + 1) moved⟩

theorem consBlank (hidden : isBlankText other = true) (moves : MovesLines lines others move) :
    MovesLines lines (other :: others) (move · + 1) where
  inOrder := fun _ _ before => Nat.succ_lt_succ (moves.inOrder before)
  kept := moves.kept
  blank := by
    intro place wanted found shown
    cases place with
    | zero =>
      cases found
      rw [hidden] at shown
      cases shown
    | succ place =>
      obtain ⟨index, listed, moved⟩ := moves.blank place wanted found shown
      exact ⟨index, listed, congrArg (· + 1) moved⟩

end MovesLines

end JsonShape
