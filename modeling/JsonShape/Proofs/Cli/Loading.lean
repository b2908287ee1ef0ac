import JsonShape.Cli.Documents
import JsonShape.Proofs.Query.Engine
import JsonShape.Proofs.Registry.History

/-!
# Loading

What a run loads, stage by stage, said without the loops that load it.

* `Surroundings.texts` are the texts that some paths lead to when they are read in turn, and
  `Selection.passages` the parts of such a text that are documents, each with its origin.
  `Selection.Yields` says which documents a part gives with an engine for queries, and
  `Selection.Spoils` that it gives none.
* `Surroundings.loadDocuments_eq_ok_iff`: documents are loaded exactly if every path stands for
  something and can be read and every part yields, and then they are gathered from the parts.
* `Surroundings.loadDefinitions_eq_ok_iff` says the same of definitions.
-/

namespace JsonShape

/-! ## Paths -/

/-- What a path stands for: itself, or the paths that it matches, of which there is one. -/
def FileSystem.StandsFor (files : FileSystem) (path : String) (found : List String) : Prop :=
  resolvePath files path = .ok found

/-- A path without wildcards stands for itself. -/
theorem FileSystem.standsFor_self {files : FileSystem} {path : String}
    (plain : Glob.isPattern path = false) : files.StandsFor path [path] := by
  rw [StandsFor, resolvePath, plain]
  rfl

theorem FileSystem.StandsFor.unique {files : FileSystem} {path : String} {own other : List String}
    (left : files.StandsFor path own) (right : files.StandsFor path other) : own = other :=
  Except.ok.inj (left.symm.trans right)

/-- Several paths stand for what each of them stands for, in turn. -/
theorem resolvePaths_eq_ok_iff {files : FileSystem} {paths found : List String} :
    resolvePaths files paths = .ok found ↔ Gathers files.StandsFor paths found := by
  induction paths generalizing found with
  | nil => simp [resolvePaths, Gathers.nil_iff, eq_comm]
  | cons path rest ih =>
    simp only [Gathers.cons_iff, resolvePaths, FileSystem.StandsFor, ← ih]
    cases resolvePath files path with
    | error failure => simp
    | ok own => simp [map_eq_ok_iff]

namespace Surroundings

/-- A path that can be read: a file that is there and holds text, or the standard input. -/
def Readable (surroundings : Surroundings) (path : String) : Prop :=
  path = standardInput ∨ ∃ text, surroundings.files.read path = .ok text

/-- What can be read after some paths are read: the standard input is empty from then on. -/
def behind (surroundings : Surroundings) (paths : List String) : Surroundings :=
  if standardInput ∈ paths then { surroundings with input := "" } else surroundings

/-- The texts that some paths lead to when they are read in turn, without those of paths that
cannot be read. -/
def texts (surroundings : Surroundings) : List String → List (String × String)
  | [] => []
  | path :: rest =>
    match surroundings.read path with
    | .ok (text, after) => (path, text) :: after.texts rest
    | .error _ => surroundings.texts rest

variable {surroundings after : Surroundings} {path text : String}

theorem read_ok (read : surroundings.read path = .ok (text, after)) :
    surroundings.Readable path ∧ after = surroundings.behind [path] := by
  unfold Surroundings.read at read
  split at read
  · rename_i input
    cases read
    exact ⟨.inl input, by simp [behind, input]⟩
  · rename_i other
    split at read
    · cases read
    · rename_i found
      cases read
      exact ⟨.inr ⟨_, found⟩, by simp [behind, Ne.symm other]⟩

theorem read_error {failure : CliFailure} (read : surroundings.read path = .error failure) :
    ¬surroundings.Readable path := by
  unfold Surroundings.read at read
  split at read
  · cases read
  · rename_i other
    split at read
    · rename_i missing
      rw [Readable, missing]
      simp [other]
    · cases read

@[simp] theorem files_behind (paths : List String) :
    (surroundings.behind paths).files = surroundings.files := by
  unfold behind
  split <;> rfl

@[simp] theorem behind_nil : surroundings.behind [] = surroundings := by simp [behind]

theorem behind_append (first second : List String) :
    surroundings.behind (first ++ second) = (surroundings.behind first).behind second := by
  unfold behind
  by_cases left : standardInput ∈ first <;> by_cases right : standardInput ∈ second <;>
    simp [left, right]

@[simp] theorem readable_behind (paths : List String) :
    (surroundings.behind paths).Readable path ↔ surroundings.Readable path := by
  simp [Readable]

end Surroundings

/-! ## Parts of a text -/

/-- A text that is one document, and its origin. -/
structure Passage where
  origin : String
  text : List Char

/-- A value that does not stand alone bears its position. -/
def Document.ofResult (origin : String) (position : Nat) (value : Json) : Document :=
  ⟨origin ++ "#" ++ toString position, value⟩

namespace Selection

/-- The lines that are not blank, the first line bearing a number. -/
def linePassages (path : String) (number : Nat) (lines : List (List Char)) : List Passage :=
  ((lines.zipIdx number).filter fun line => !isBlankText line.1).map fun line =>
    ⟨path ++ ":" ++ toString line.2, line.1⟩

/-- The parts of a text that are documents. -/
def passages (selection : Selection) (entry : String × String) : List Passage :=
  if selection.lines then linePassages entry.1 1 (linesOf entry.2.toList)
  else [⟨entry.1, entry.2.toList⟩]

/-- The documents of a part: what the pointer selects in its value, or what the query answers with
on that. -/
inductive Yields (selection : Selection) (engine : QueryEngine) (passage : Passage) :
    List Document → Prop
  | whole {value part : Json} (read : Json.parse? passage.text = some value)
      (followed : selection.follow passage.origin value = .ok part)
      (plain : selection.query = none) : Yields selection engine passage [⟨passage.origin, part⟩]
  | results {value part : Json} {code : String} {values : List Json}
      (read : Json.parse? passage.text = some value)
      (followed : selection.follow passage.origin value = .ok part)
      (asked : selection.query = some code) (answered : engine.Answers code part values) :
    Yields selection engine passage (values.mapIdx (Document.ofResult passage.origin))

/-- A part that gives no documents: it is malformed, the pointer selects nothing in it, or the
query fails on what is selected. -/
inductive Spoils (selection : Selection) (engine : QueryEngine) (passage : Passage) : Prop
  | malformed (broken : Json.parse? passage.text = none) : Spoils selection engine passage
  | nothingSelected {value : Json} {failure : CliFailure}
      (read : Json.parse? passage.text = some value)
      (missed : selection.follow passage.origin value = .error failure) :
    Spoils selection engine passage
  | queryFails {value part : Json} {code : String}
      (read : Json.parse? passage.text = some value)
      (followed : selection.follow passage.origin value = .ok part)
      (asked : selection.query = some code) (failed : engine.Fails code part) :
    Spoils selection engine passage

variable {selection : Selection} {engine : QueryEngine} {passage : Passage}

theorem numbered_eq (origin : String) (position : Nat) (values : List Json) :
    numbered origin position values =
      values.mapIdx fun index => Document.ofResult origin (position + index) := by
  induction values generalizing position with
  | nil => rfl
  | cons value rest ih =>
    rw [numbered, ih, List.mapIdx_cons]
    simp [Document.ofResult, Nat.add_assoc, Nat.add_comm 1]

/-- What is read from a part, selected and queried, is what the part yields. -/
theorem documents_eq_ok_iff (passage : Passage) {value : Json}
    (read : Json.parse? passage.text = some value) {documents : List Document} :
    selection.documents engine passage.origin value = .ok documents ↔
      selection.Yields engine passage documents := by
  unfold Selection.documents
  constructor
  · intro loaded
    cases followed : selection.follow passage.origin value with
    | error failure => simp [followed] at loaded
    | ok part =>
      cases asked : selection.query with
      | none =>
        simp only [followed, asked] at loaded
        cases loaded
        exact .whole read followed asked
      | some code =>
        cases answered : engine.documents code part with
        | error failure => simp [followed, asked, answered] at loaded
        | ok values =>
          simp only [followed, asked, answered, numbered_eq, Nat.zero_add] at loaded
          cases loaded
          exact .results read followed asked (QueryEngine.documents_eq_ok_iff.mp answered)
  · intro yields
    cases yields with
    | whole again followed plain =>
      cases read.symm.trans again
      simp only [followed, plain]
    | results again followed asked answered =>
      cases read.symm.trans again
      simp only [followed, asked, QueryEngine.documents_eq_ok_iff.mpr answered, numbered_eq,
        Nat.zero_add]

theorem exists_yields_iff : (∃ documents, selection.Yields engine passage documents) ↔
    ¬selection.Spoils engine passage := by
  constructor
  · intro ⟨documents, yields⟩ spoils
    cases spoils with
    | malformed broken => cases yields <;> simp_all
    | nothingSelected read missed => cases yields <;> simp_all
    | queryFails read followed asked failed =>
      cases yields with
      | whole _ _ plain => cases plain.symm.trans asked
      | results again followedToo askedToo answered =>
        cases read.symm.trans again
        cases followed.symm.trans followedToo
        cases asked.symm.trans askedToo
        exact QueryEngine.exists_answers_iff.mp ⟨_, answered⟩ failed
  · intro sound
    cases read : Json.parse? passage.text with
    | none => exact absurd (.malformed read) sound
    | some value =>
      cases followed : selection.follow passage.origin value with
      | error failure => exact absurd (.nothingSelected read followed) sound
      | ok part =>
        cases asked : selection.query with
        | none => exact ⟨_, .whole read followed asked⟩
        | some code =>
          obtain ⟨values, answered⟩ := QueryEngine.exists_answers_iff.mpr fun failed =>
            sound (.queryFails read followed asked failed)
          exact ⟨_, .results read followed asked answered⟩

/-- The documents of lines are gathered from those that are not blank. -/
theorem lineDocuments_eq_ok_iff {path : String} {number : Nat} {lines : List (List Char)}
    {documents : List Document} :
    selection.lineDocuments engine path number lines = .ok documents ↔
      Gathers (selection.Yields engine) (linePassages path number lines) documents := by
  induction lines generalizing number documents with
  | nil => simp [lineDocuments, linePassages, Gathers.nil_iff, eq_comm]
  | cons line rest ih =>
    rw [lineDocuments]
    by_cases blank : isBlankText line = true
    · have skipped : linePassages path number (line :: rest) =
          linePassages path (number + 1) rest := by
        simp [linePassages, List.zipIdx_cons, blank]
      rw [if_pos blank, skipped, ih]
    · have kept : linePassages path number (line :: rest) =
          ⟨path ++ ":" ++ toString number, line⟩ :: linePassages path (number + 1) rest := by
        simp [linePassages, List.zipIdx_cons, blank]
      rw [if_neg blank, kept, Gathers.cons_iff]
      cases read : Json.parse? line with
      | none =>
        have spoils : selection.Spoils engine ⟨path ++ ":" ++ toString number, line⟩ :=
          .malformed read
        constructor
        · intro loaded
          cases loaded
        · intro ⟨own, _, yields, _⟩
          exact absurd spoils (exists_yields_iff.mp ⟨own, yields⟩)
      | some value =>
        simp only [← ih, ← documents_eq_ok_iff ⟨_, line⟩ read]
        cases selection.documents engine (path ++ ":" ++ toString number) value with
        | error failure => simp
        | ok own => simp [map_eq_ok_iff]

/-- The documents of a text are gathered from its parts. -/
theorem textDocuments_eq_ok_iff {path text : String} {documents : List Document} :
    selection.textDocuments engine path text.toList = .ok documents ↔
      Gathers (selection.Yields engine) (selection.passages (path, text)) documents := by
  unfold Selection.textDocuments Selection.passages
  split
  · exact lineDocuments_eq_ok_iff
  · rw [Gathers.singleton_iff]
    cases read : Json.parse? text.toList with
    | none =>
      have spoils : selection.Spoils engine ⟨path, text.toList⟩ := .malformed read
      constructor
      · intro loaded
        cases loaded
      · intro yields
        exact absurd spoils (exists_yields_iff.mp ⟨_, yields⟩)
    | some value => exact documents_eq_ok_iff ⟨path, text.toList⟩ read

end Selection

/-! ## Texts in turn -/

namespace Surroundings

variable {surroundings last : Surroundings} {engine : QueryEngine} {selection : Selection}

/-- The documents of files are gathered from the parts of their texts. -/
theorem readDocuments_eq_ok_iff {paths : List String} {documents : List Document} :
    surroundings.readDocuments engine selection paths = .ok documents ↔
      (∀ path ∈ paths, surroundings.Readable path) ∧
        Gathers (selection.Yields engine) ((surroundings.texts paths).flatMap selection.passages)
          documents := by
  induction paths generalizing surroundings documents with
  | nil => simp [readDocuments, texts, Gathers.nil_iff, eq_comm]
  | cons path rest ih =>
    rw [readDocuments, texts]
    cases read : surroundings.read path with
    | error failure => simp [read_error read]
    | ok result =>
      obtain ⟨text, after⟩ := result
      obtain ⟨readable, rfl⟩ := read_ok read
      simp only [List.forall_mem_cons, readable, true_and, List.flatMap_cons, Gathers.append_iff,
        ← Selection.textDocuments_eq_ok_iff]
      cases selection.textDocuments engine path text.toList with
      | error failure => simp
      | ok own =>
        simp only [map_eq_ok_iff, ih, readable_behind, Except.ok.injEq, exists_and_left,
          exists_eq_left', and_assoc]

/-- Documents are loaded exactly if their paths stand for something, all of it can be read, and
every part of what is read yields. -/
theorem loadDocuments_eq_ok_iff {paths : List String} {documents : List Document} :
    surroundings.loadDocuments engine selection paths = .ok documents ↔
      ∃ found, Gathers (surroundings.files.StandsFor) paths found ∧
        (∀ path ∈ found, surroundings.Readable path) ∧
        Gathers (selection.Yields engine) ((surroundings.texts found).flatMap selection.passages)
          documents := by
  simp only [← resolvePaths_eq_ok_iff, ← readDocuments_eq_ok_iff]
  unfold loadDocuments
  cases resolvePaths surroundings.files paths <;> simp

/-- The definitions of a text. -/
def Defines (entry : String × String) (definitions : List Definition) : Prop :=
  parseDefinitions entry.2.toList = .ok definitions

/-- Definitions are added file by file, all those of one text before those of the next. -/
theorem addDefinitions_eq_ok_iff {registry result : Registry} {paths : List String} :
    surroundings.addDefinitions registry paths = .ok (result, last) ↔
      (∀ path ∈ paths, surroundings.Readable path) ∧
        (∃ definitions, Gathers Defines (surroundings.texts paths) definitions ∧
          result = registry.defineAll definitions) ∧
        last = surroundings.behind paths := by
  induction paths generalizing surroundings registry with
  | nil =>
    have none : registry.defineAll [] = registry := rfl
    simp [addDefinitions, texts, Gathers.nil_iff, none, eq_comm]
  | cons path rest ih =>
    rw [addDefinitions, texts]
    cases read : surroundings.read path with
    | error failure => simp [read_error read]
    | ok result =>
      obtain ⟨text, after⟩ := result
      obtain ⟨readable, rfl⟩ := read_ok read
      have onward : surroundings.behind (path :: rest) =
          (surroundings.behind [path]).behind rest := by
        rw [← behind_append, List.singleton_append]
      simp only [List.forall_mem_cons, readable, true_and, Gathers.cons_iff, onward]
      cases parsed : parseDefinitions text.toList with
      | error fault => simp [Registry.addSource, Except.map, Defines, parsed]
      | ok own =>
        simp only [Registry.addSource_of_ok registry parsed, ih, readable_behind, Defines, parsed]
        simp [Registry.defineAll_append]

/-- Definitions are loaded exactly if their paths stand for something, all of it can be read, and
every text can be parsed. -/
theorem loadDefinitions_eq_ok_iff {registry : Registry} {paths : List String} :
    surroundings.loadDefinitions paths = .ok (registry, last) ↔
      ∃ found, Gathers (surroundings.files.StandsFor) paths found ∧
        (∀ path ∈ found, surroundings.Readable path) ∧
        (∃ definitions, Gathers Defines (surroundings.texts found) definitions ∧
          registry = .defineAll .empty definitions) ∧
        last = surroundings.behind found := by
  simp only [← resolvePaths_eq_ok_iff, ← addDefinitions_eq_ok_iff]
  unfold loadDefinitions
  cases resolvePaths surroundings.files paths <;> simp

end Surroundings

end JsonShape
