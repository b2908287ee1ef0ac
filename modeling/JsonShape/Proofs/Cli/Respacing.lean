import JsonShape.Proofs.Cli.Checking
import JsonShape.Proofs.Json.Reading
import JsonShape.Proofs.Text.Lines

/-!
# Respaced inputs

Where lines are documents, it does not matter how they end and how many blank lines are between
them; only the numbers of the lines are told as they are.

* `Document.Renamed` and `Renamed` say that documents, or the failure to load them, come from other
  places and are the same otherwise.
* `Selection.exists_renamed`: lines with blank lines between them give what the lines give, from the
  places that they have moved to.
* `Surroundings.loadDocuments_respaced` says so of inputs.
-/

namespace JsonShape

/-! ## The same from another place -/

/-- One document with two origins, those of a line at two places. -/
inductive Document.Renamed (before after : Nat → String) : Document → Document → Prop
  | whole (index : Nat) (value : Json) :
    Document.Renamed before after ⟨before index, value⟩ ⟨after index, value⟩
  | result (index position : Nat) (value : Json) :
    Document.Renamed before after (.ofResult (before index) position value)
      (.ofResult (after index) position value)

/-- The same documents, or the same failure, from lines at two places. -/
inductive Renamed (before after : Nat → String) :
    Except CliFailure (List Document) → Except CliFailure (List Document) → Prop
  | loaded {documents others : List Document}
      (each : List.Forall₂ (Document.Renamed before after) documents others) :
    Renamed before after (.ok documents) (.ok others)
  | malformed (index : Nat) :
    Renamed before after (.error (.malformedLine (before index)))
      (.error (.malformedLine (after index)))
  | nothingSelected (index : Nat) (pointer : String) :
    Renamed before after (.error (.nothingSelected pointer (before index)))
      (.error (.nothingSelected pointer (after index)))
  | queryFails (index : Nat) (failure : QueryFailure) :
    Renamed before after (.error (.query (before index) failure))
      (.error (.query (after index) failure))

section

variable {before after former latter : Nat → String}

theorem Document.Renamed.reindex (place : Nat → Nat)
    (source : ∀ index, before index = former (place index))
    (target : ∀ index, after index = latter (place index)) {document other : Document}
    (renamed : Document.Renamed before after document other) :
    Document.Renamed former latter document other := by
  cases renamed with
  | whole index value =>
    rw [source, target]
    exact .whole _ value
  | result index position value =>
    rw [source, target]
    exact .result _ position value

theorem Renamed.reindex (place : Nat → Nat)
    (source : ∀ index, before index = former (place index))
    (target : ∀ index, after index = latter (place index))
    {result other : Except CliFailure (List Document)}
    (renamed : Renamed before after result other) : Renamed former latter result other := by
  cases renamed with
  | loaded each => exact .loaded (each.imp fun _ _ renamed => renamed.reindex place source target)
  | malformed index =>
    rw [source, target]
    exact .malformed _
  | nothingSelected index pointer =>
    rw [source, target]
    exact .nothingSelected _ pointer
  | queryFails index failure =>
    rw [source, target]
    exact .queryFails _ failure

/-- Documents of one line and then those of the others. -/
theorem Renamed.append {own ownToo result other : Except CliFailure (List Document)}
    (first : Renamed before after own ownToo) (rest : Renamed before after result other) :
    Renamed before after (own.bind fun documents => result.map (documents ++ ·))
      (ownToo.bind fun documents => other.map (documents ++ ·)) := by
  cases first with
  | loaded each =>
    cases rest with
    | loaded more => exact .loaded (List.rel_append each more)
    | malformed index => exact .malformed index
    | nothingSelected index pointer => exact .nothingSelected index pointer
    | queryFails index failure => exact .queryFails index failure
  | malformed index => exact .malformed index
  | nothingSelected index pointer => exact .nothingSelected index pointer
  | queryFails index failure => exact .queryFails index failure

end

namespace Selection

variable {engine : QueryEngine} {selection : Selection}

theorem renamed_numbered (before after : Nat → String) (index position : Nat) (values : List Json) :
    List.Forall₂ (Document.Renamed before after) (numbered (before index) position values)
      (numbered (after index) position values) := by
  induction values generalizing position with
  | nil => exact .nil
  | cons value rest ih => exact .cons (.result index position value) (ih (position + 1))

/-- What a value holds does not depend on where the value is from. -/
theorem renamed_documents (before after : Nat → String) (index : Nat) (value : Json) :
    Renamed before after (selection.documents engine (before index) value)
      (selection.documents engine (after index) value) := by
  have queried (part : Json) (target : selection.follow (before index) value = .ok part)
      (same : selection.follow (after index) value = .ok part) :
      Renamed before after (selection.documents engine (before index) value)
        (selection.documents engine (after index) value) := by
    unfold Selection.documents
    rw [target, same]
    dsimp only
    cases selection.query with
    | none => exact .loaded (.cons (.whole index part) .nil)
    | some code =>
      dsimp only
      cases engine.documents code part with
      | error failure => exact .queryFails index failure
      | ok values => exact .loaded (renamed_numbered before after index 0 values)
  cases asked : selection.pointer with
  | none => exact queried value (by simp only [follow, asked]) (by simp only [follow, asked])
  | some pointer =>
    cases found : (Pointer.parse? pointer.toList).bind value.at? with
    | none =>
      simp only [Selection.documents, follow, asked, found]
      exact .nothingSelected index pointer
    | some part =>
      exact queried part (by simp only [follow, asked, found]) (by simp only [follow, asked, found])

end Selection

theorem SameButReturn.parse?_eq {line other : List Char} (same : SameButReturn line other) :
    Json.parse? other = Json.parse? line := by
  have blank : isJsonBlank '\r' = true := rfl
  rcases same with rfl | rfl | rfl
  · rfl
  · exact Json.parse?_append_blank blank line
  · exact (Json.parse?_append_blank blank other).symm

/-- The origin of what is on a line, the first line having a number. -/
def lineOrigin (path : String) (number index : Nat) : String :=
  path ++ ":" ++ toString (number + index)

namespace Selection

variable {engine : QueryEngine} {selection : Selection} {path : String}

/-- What a line holds comes before what the others hold. -/
theorem lineDocuments_of_parse? {line : List Char} (shown : ¬isBlankText line = true) {value : Json}
    (read : Json.parse? line = some value) (number : Nat) (rest : List (List Char)) :
    selection.lineDocuments engine path number (line :: rest) =
      (selection.documents engine (path ++ ":" ++ toString number) value).bind fun documents =>
        (selection.lineDocuments engine path (number + 1) rest).map (documents ++ ·) := by
  rw [lineDocuments, if_neg shown, read]
  dsimp only
  cases selection.documents engine (path ++ ":" ++ toString number) value <;> rfl

/-- Lines with blank lines between them give what the lines give, or fail where the lines do. -/
theorem exists_renamed (engine : QueryEngine) (selection : Selection) (path : String)
    {lines others : List (List Char)} (spread : Interspersed lines others) (number first : Nat) :
    ∃ move, MovesLines lines others move ∧
      Renamed (lineOrigin path number) (fun index => lineOrigin path first (move index))
        (selection.lineDocuments engine path number lines)
        (selection.lineDocuments engine path first others) := by
  induction spread generalizing number first with
  | nil => exact ⟨id, .nil, .loaded .nil⟩
  | @line line other lines others same rest ih =>
    obtain ⟨move, moves, renamed⟩ := ih (number + 1) (first + 1)
    have later : Renamed (lineOrigin path number)
        (fun index => lineOrigin path first (MovesLines.behindFirst move index))
        (selection.lineDocuments engine path (number + 1) lines)
        (selection.lineDocuments engine path (first + 1) others) := by
      refine renamed.reindex (· + 1) (fun index => ?_) fun index => ?_
      · simp only [lineOrigin, Nat.add_assoc, Nat.add_comm 1]
      · simp only [lineOrigin, MovesLines.behindFirst, Nat.add_assoc, Nat.add_comm 1]
    refine ⟨_, .cons same moves, ?_⟩
    by_cases hidden : isBlankText line = true
    · rw [lineDocuments, lineDocuments, same.isBlankText_eq, if_pos hidden, if_pos hidden]
      exact later
    · have hiddenToo : ¬isBlankText other = true := by rwa [same.isBlankText_eq]
      cases read : Json.parse? line with
      | none =>
        rw [lineDocuments, lineDocuments, if_neg hidden, if_neg hiddenToo, same.parse?_eq, read]
        exact .malformed 0
      | some value =>
        rw [lineDocuments_of_parse? hidden read,
          lineDocuments_of_parse? hiddenToo (same.parse?_eq.trans read)]
        exact (renamed_documents _ _ 0 value).append later
  | @blank line lines others hidden rest ih =>
    obtain ⟨move, moves, renamed⟩ := ih number (first + 1)
    refine ⟨_, .consBlank hidden moves, ?_⟩
    rw [lineDocuments, if_pos hidden]
    refine renamed.reindex id (fun index => rfl) fun index => ?_
    simp only [lineOrigin, id, Nat.add_assoc, Nat.add_comm 1]

end Selection

namespace Surroundings

variable {surroundings after : Surroundings} {selection : Selection} {input path text : String}

/-- Where lines are documents, a text with its lines ended in another way and blank lines between
them gives the documents of the text in their order, or fails on the same document.  The lines of
the text, up to a carriage return, are the lines of the other text that are not blank; each bears
the number of the place that it has there, and so does all that comes of it. -/
theorem loadDocuments_respaced (engine : QueryEngine) {others afterOthers : Surroundings}
    {changed : String} (lines : selection.lines = true)
    (stands : surroundings.files.StandsFor input [path])
    (standsToo : others.files.StandsFor input [path])
    (read : surroundings.read path = .ok (text, after))
    (readToo : others.read path = .ok (changed, afterOthers))
    (respaced : Respaced text.toList changed.toList) :
    ∃ move, MovesLines (linesOf text.toList) (linesOf changed.toList) move ∧
      Renamed (fun index => path ++ ":" ++ toString (index + 1))
        (fun index => path ++ ":" ++ toString (move index + 1))
        (surroundings.loadDocuments engine selection [input])
        (others.loadDocuments engine selection [input]) := by
  obtain ⟨move, moves, renamed⟩ :=
    Selection.exists_renamed engine selection path respaced.interspersed 1 1
  refine ⟨move, moves, ?_⟩
  rw [loadDocuments_of_stands stands read, loadDocuments_of_stands standsToo readToo,
    Selection.textDocuments, Selection.textDocuments, if_pos lines, if_pos lines]
  refine renamed.reindex id (fun index => ?_) fun index => ?_
  · rw [lineOrigin, Nat.add_comm]
    rfl
  · rw [lineOrigin, Nat.add_comm]
    rfl

/-- Two lines on the standard input, of which the last has no end. -/
def twoLines : Surroundings := ⟨⟨.directory [], []⟩, "[true]\n\"s\""⟩

/-- The lines of `twoLines` with other ends, and lines of white space around them. -/
def spreadLines : Surroundings :=
  ⟨⟨.directory [], []⟩, "\u00a0\n[true]\r\n\t\n\"s\"\r\n\x0c"⟩

theorem spreadLines_respaced : Respaced twoLines.input.toList spreadLines.input.toList := by
  have respaced : Respaced ("[true]".toList ++ '\n' :: "\"s\"".toList)
      ("\u00a0".toList ++ ['\n'] ++ ("[true]".toList ++ ['\r', '\n'] ++ ("\t".toList ++ ['\n'] ++
        ("\"s\"".toList ++ ['\r', '\n'] ++ "\x0c".toList)))) :=
    .blank (by decide) rfl (.inl rfl) (.line (by decide) (.inr rfl)
      (.blank (by decide) rfl (.inl rfl) (.ended (by decide) (.inr rfl)
        (.lastBlank (by decide) rfl))))
  exact respaced

/-- The second line of `twoLines` is the fourth of `spreadLines`, and each gives one document. -/
theorem spreadLines_documents :
    twoLines.loadDocuments .builtin ⟨true, none, none⟩ ["-"] =
        .ok [⟨"-:1", .array [.bool true]⟩, ⟨"-:2", .string "s"⟩] ∧
      ∃ move, MovesLines ["[true]".toList, "\"s\"".toList]
          ["\u00a0".toList, "[true]".toList, "\t".toList, "\"s\"".toList, "\x0c".toList] move ∧
        Renamed (fun index => "-" ++ ":" ++ toString (index + 1))
          (fun index => "-" ++ ":" ++ toString (move index + 1))
          (.ok [⟨"-:1", .array [.bool true]⟩, ⟨"-:2", .string "s"⟩])
          (spreadLines.loadDocuments .builtin ⟨true, none, none⟩ ["-"]) := by
  have stands : twoLines.files.StandsFor "-" ["-"] := FileSystem.standsFor_self rfl
  have standsToo : spreadLines.files.StandsFor "-" ["-"] := FileSystem.standsFor_self rfl
  have read : twoLines.read "-" = .ok (twoLines.input, { twoLines with input := "" }) := rfl
  have readToo : spreadLines.read "-" =
      .ok (spreadLines.input, { spreadLines with input := "" }) := rfl
  have lines : linesOf twoLines.input.toList = ["[true]".toList, "\"s\"".toList] := by decide
  have spread : linesOf spreadLines.input.toList =
      ["\u00a0".toList, "[true]".toList, "\t".toList, "\"s\"".toList, "\x0c".toList] := by decide
  have loaded : twoLines.loadDocuments .builtin ⟨true, none, none⟩ ["-"] =
      .ok [⟨"-:1", .array [.bool true]⟩, ⟨"-:2", .string "s"⟩] := by
    have parsed : Json.parse? "[true]".toList = some (.array [.bool true]) := by cbv
    have parsedLast : Json.parse? "\"s\"".toList = some (.string "s") := by cbv
    have blank : isBlankText "[true]".toList = false ∧ isBlankText "\"s\"".toList = false := by
      decide
    rw [loadDocuments_of_stands stands read]
    simp only [Selection.textDocuments, lines, Selection.lineDocuments, parsed, parsedLast, blank,
      Selection.documents, Selection.follow, Except.map]
    rfl
  have moved := loadDocuments_respaced .builtin
    (show Selection.lines ⟨true, none, none⟩ = true from rfl) stands standsToo read readToo
    spreadLines_respaced
  rw [lines, spread, loaded] at moved
  exact ⟨loaded, moved⟩

end Surroundings

end JsonShape
