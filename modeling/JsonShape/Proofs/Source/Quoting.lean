import JsonShape.Proofs.Source.Joining

/-!
# Quoted strings in front of a text

What a string in quotes is scanned as does not depend on what the string holds, nor on what stands
behind it.

* `Quoting.feed_notMem_write`: a string in quotes stands on one line, also if it has line feeds;
  and it is longer than the string (`Quoting.write_ne_self`).
* `scan_quoted_append`: a text behind a string in quotes is scanned as it is alone, behind the token
  of the string.
-/

namespace JsonShape

namespace Quoting

/-- A character is written without a line feed, also if it is one. -/
theorem feed_notMem_char (c : Char) : '\n' ∉ source.char c := by
  rcases written : source c with _ | escape
  · have plain := source_eq_none_iff.mp written
    rw [char, written]
    exact fun listed => plain.2.2.1 (List.mem_singleton.mp listed).symm
  · obtain ⟨e, rfl, _, inLine⟩ := source_eq_some written
    rw [char, written]
    simpa using inLine.symm

/-- A text in quotes stands on one line. -/
theorem feed_notMem_write (text : List Char) : '\n' ∉ source.write text := by
  intro listed
  rcases List.mem_cons.mp listed with quote | inside
  · cases quote
  · rcases List.mem_append.mp inside with body | quote
    · obtain ⟨c, _, own⟩ := List.mem_flatMap.mp body
      exact feed_notMem_char c own
    · cases List.mem_singleton.mp quote

theorem length_le_body (text : List Char) : text.length ≤ (source.body text).length := by
  induction text with
  | nil => exact Nat.le_refl 0
  | cons c rest ih =>
    rcases written : source c with _ | escape
    · rw [body_plain written]
      exact Nat.succ_le_succ ih
    · obtain ⟨e, rfl, _⟩ := source_eq_some written
      rw [body_escaped written]
      exact Nat.succ_le_succ (Nat.le_succ_of_le ih)

/-- No text is written as itself. -/
theorem write_ne_self (text : List Char) : source.write text ≠ text := by
  intro same
  have longer := length_le_body text
  have lengths := congrArg List.length same
  simp only [write, List.length_cons, List.length_append] at lengths
  omega

end Quoting

/-- Quoting is self-delimiting.  A string in quotes in front of any text is scanned as one token,
the string, which takes exactly the quotes and what is between them; then the text is scanned as it
is alone, faults included, with everything moved.  What is moved comes that many bytes later; it
stays on its line, and on the first line it comes that many columns later. -/
theorem scan_quoted_append (s : String) (rest : List Char) :
    let quoted := Quoting.source.write s.toList
    scan (quoted ++ rest) = .ok ⟨.string s, .start, Position.start.past quoted⟩ ::
        (scan rest).map (answerBehind quoted (Lexeme.behind quoted)) ∧
      (∀ position : Position,
        (position.behind quoted).offset = byteLength quoted + position.offset) ∧
      ∀ location : Location, location.behind quoted =
        ⟨location.line,
          if location.line = 1 then quoted.length + location.column else location.column⟩ := by
  intro quoted
  refine ⟨?_, fun _ => rfl, Location.behind_inLine (Quoting.feed_notMem_write s.toList)⟩
  have whole : quoted ++ rest = '"' :: (Quoting.source.body s.toList ++ '"' :: rest) := by
    simp only [quoted, Quoting.write, List.cons_append, List.append_assoc, List.nil_append]
  have sequel := @scanFrom_behind quoted .start Nat.one_pos rest
  rw [Position.behind_start] at sequel
  rw [scan, whole, scanFrom_of_shown rfl (fun slashes => absurd slashes.1 (by decide)),
    firstPiece_quoted, scan, ← sequel]
  rfl

end JsonShape
