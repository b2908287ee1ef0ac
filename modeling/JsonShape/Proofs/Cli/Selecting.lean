import JsonShape.Cli.Check
import JsonShape.Proofs.Normalize.Refusal
import JsonShape.Query.Builtin

/-!
# Refusals behind a selection

A document that a pointer selects is refused with a path of its own.  The pointer and the path, one
behind the other, are the text of a pointer into the whole document, and lead to the part that is
refused.
-/

namespace JsonShape

theorem Rule.exists_of_mem_refused {rule : Rule} {documents : List Document} {refusal : Refusal}
    (listed : refusal ∈ rule.refused documents) :
    ∃ document ∈ documents, refusal.origin = document.origin ∧
      rule.normalize document.value = .error refusal.mismatch := by
  obtain ⟨document, among, answer⟩ := List.mem_filterMap.mp listed
  split at answer
  · cases answer
  · next mismatch refused =>
    cases answer
    exact ⟨document, among, rfl, refused⟩

namespace Selection

variable {selection : Selection} {engine : QueryEngine} {pointer origin : String} {value : Json}

/-- A pointer alone selects one document, the part that it leads to. -/
theorem documents_of_pointer (asked : selection.pointer = some pointer)
    (unqueried : selection.query = none) {documents : List Document}
    (selected : selection.documents engine origin value = .ok documents) :
    ∃ part, value.pointed? pointer = some part ∧ documents = [⟨origin, part⟩] := by
  simp only [Selection.documents, follow, asked, unqueried] at selected
  split at selected
  · cases selected
  · next part followed =>
    cases selected
    split at followed
    · next found =>
      cases followed
      exact ⟨_, found, rfl⟩
    · cases followed

/-- Where a selected document is refused, the text of the pointer and behind it the path of the
refusal lead from the whole document to the part that the path leads to in the selected one.  This
part is what is refused: a rule that stands in the rule under the names of the path refuses it by
itself, for the reason that is given. -/
theorem refusal_in_whole (asked : selection.pointer = some pointer)
    (unqueried : selection.query = none) {documents : List Document}
    (selected : selection.documents engine origin value = .ok documents) {rule : Rule}
    {refusal : Refusal} (refused : refusal ∈ rule.refused documents) :
    ∃ part rejected, value.pointed? pointer = some part ∧
      rule.normalize part = .error refusal.mismatch ∧
      part.pointed? refusal.mismatch.path.render = some rejected ∧
      value.pointed? (pointer ++ refusal.mismatch.path.render) = some rejected ∧
      ∃ own, rule.Reaches refusal.mismatch.path own ∧
        own.normalize rejected = .error ⟨[], refusal.mismatch.reason⟩ := by
  obtain ⟨part, leads, rfl⟩ := documents_of_pointer asked unqueried selected
  obtain ⟨document, listed, _, fails⟩ := Rule.exists_of_mem_refused refused
  rw [List.mem_singleton.mp listed] at fails
  obtain ⟨own, rejected, reaches, inside, here⟩ := Rule.refusal_reaches fails
  have found := Json.at?_of_memberAt? inside
  refine ⟨part, rejected, leads, fails, ?_, ?_, own, reaches, here⟩
  · rw [Json.pointed?_render, found]
  · rw [Json.pointed?_append leads, found]

/-- A member behind an escaped slash, an item, and a member whose name has a tilde alone. -/
def tildeSelection : Selection := ⟨false, some "/a~1b/1/x~y", none⟩

/-- A document with all of these. -/
def nestedBoxes : Json :=
  .object [("a/b", .array [.null, .object [("x~y", .object [("~0", .object [("k", .null)])])]])]

/-- A pattern with a tilde in a name. -/
def tildePattern : Rule := .pattern [⟨"~0", some (.pattern [⟨"k", some .string⟩])⟩]

/-- The text of the selection, which is read leniently, and the path of the refusal, which has its
tilde escaped, are joined to one text. -/
theorem refusal_behind_tilde :
    tildeSelection.documents .builtin "d" nestedBoxes =
        .ok [⟨"d", .object [("~0", .object [("k", .null)])]⟩] ∧
      tildePattern.refused [⟨"d", .object [("~0", .object [("k", .null)])]⟩] =
        [⟨"d", ⟨["~0", "k"], .wrongKind [.string] .null⟩⟩] ∧
      nestedBoxes.pointed? "/a~1b/1/x~y/~00/k" = some .null := by
  have selected : tildeSelection.documents .builtin "d" nestedBoxes =
      .ok [⟨"d", .object [("~0", .object [("k", .null)])]⟩] := by rfl
  have refused : tildePattern.refused [⟨"d", .object [("~0", .object [("k", .null)])]⟩] =
      [⟨"d", ⟨["~0", "k"], .wrongKind [.string] .null⟩⟩] := by rfl
  have listed : ⟨"d", ⟨["~0", "k"], .wrongKind [.string] .null⟩⟩ ∈
      tildePattern.refused [⟨"d", .object [("~0", .object [("k", .null)])]⟩] := by
    rw [refused]
    exact List.mem_singleton_self _
  obtain ⟨part, rejected, leads, _, inPart, inWhole, _⟩ :=
    refusal_in_whole (show tildeSelection.pointer = some "/a~1b/1/x~y" from rfl) rfl selected listed
  have own : nestedBoxes.pointed? "/a~1b/1/x~y" = some (.object [("~0", .object [("k", .null)])]) := by
    rfl
  cases own.symm.trans leads
  have inside : (Json.object [("~0", .object [("k", .null)])]).pointed? (Pointer.render ["~0", "k"]) =
      some .null := by rfl
  cases inside.symm.trans inPart
  exact ⟨selected, refused, inWhole⟩

end Selection

end JsonShape
