import JsonShape.Proofs.Cli.Respacing
import JsonShape.Proofs.Json.ReadBack
import JsonShape.Proofs.Normalize.Contents
import JsonShape.Proofs.Registry.Reload

/-!
# Checking again

What a check of lines prints is lines again.  Checked once more, they are all accepted and printed
as they are.

* `Surroundings.readable_of_loadDocuments`: every document that is loaded can be read from a text.
* `Selection.exists_lineDocuments`: values that are read back from their texts are loaded from their
  texts, line by line.
* `Command.recheck_of_steady` puts this together with the idempotence of rules, for numbers that
  are read back, and `Command.recheck` states it for integers.
-/

namespace JsonShape

/-! ## Documents that are loaded -/

theorem Selection.readable_of_follow {selection : Selection} {origin : String} {value part : Json}
    {levels : Nat} (readable : value.Readable levels)
    (followed : selection.follow origin value = .ok part) : part.Readable levels := by
  unfold follow at followed
  split at followed
  · cases followed
    exact readable
  · split at followed
    · next found =>
      cases followed
      obtain ⟨pointer, _, leads⟩ := Option.bind_eq_some_iff.mp found
      exact readable.at? leads
    · cases followed

/-- What is loaded is read from a text, or is a part of what is. -/
theorem Surroundings.readable_of_loadDocuments {surroundings : Surroundings}
    {engine : QueryEngine} {selection : Selection} {inputs : List String}
    {documents : List Document} {document : Document}
    (loaded : surroundings.loadDocuments engine selection inputs = .ok documents)
    (listed : document ∈ documents) : document.value.Readable Raw.maxDepth := by
  obtain ⟨_, _, _, gathers⟩ := loadDocuments_eq_ok_iff.mp loaded
  obtain ⟨passage, _, own, yields, among⟩ := gathers.exists_of_mem listed
  cases yields with
  | whole read followed plain =>
    rw [List.mem_singleton.mp among]
    exact Selection.readable_of_follow (Json.readable_of_parse? read) followed
  | results read followed asked answered =>
    obtain ⟨index, inside, rfl⟩ := List.mem_mapIdx.mp among
    obtain ⟨text, parsed⟩ := answered.exists_text _ (List.getElem_mem inside)
    exact Json.readable_of_parse? parsed

/-- The rules of definitions that are loaded name every property once. -/
theorem Surroundings.namesOnce_of_loadDefinitions {surroundings last : Surroundings}
    {paths : List String} {registry : Registry} {typeName : String} {rule : Rule}
    (defined : surroundings.loadDefinitions paths = .ok (registry, last))
    (known : registry.get? typeName = some rule) : rule.NamesOnce := by
  obtain ⟨_, _, _, ⟨definitions, gathers, rfl⟩, _⟩ := loadDefinitions_eq_ok_iff.mp defined
  rcases Entries.mem_putAll (Entries.mem_of_get? known) with absent | listed
  · cases absent
  · obtain ⟨_, _, _, parsed, among⟩ := gathers.exists_of_mem listed
    exact (writable_of_parseDefinitions parsed among).wellFormed.1.namesOnce

/-! ## Lines that are printed -/

namespace Json

theorem isBlankChar_of_startsValue {c : Char} (starts : startsValue c = true) :
    isBlankChar c = false := by
  rcases Bool.or_eq_true_iff.mp starts with digit | mark
  · have bounds : 48 ≤ c.toNat ∧ c.toNat ≤ 57 := Char.isDigit_iff_toNat.mp digit
    simp only [isBlankChar, Bool.or_eq_false_iff, Bool.and_eq_false_iff, decide_eq_false_iff_not,
      beq_eq_false_iff_ne, ne_eq]
    omega
  · have marks : ['-', '"', '[', '\x7b', 'n', 't', 'f'].all (fun d => !isBlankChar d) = true := rfl
    simpa using List.all_eq_true.mp marks c (List.contains_iff_mem.mp mark)

theorem isBlankText_compactChars (value : Json) : isBlankText value.compactChars = false := by
  obtain ⟨c, more, same, starts⟩ := value.exists_compactChars_eq_cons
  rw [same, isBlankText, List.all_cons, isBlankChar_of_startsValue starts, Bool.false_and]

theorem notMem_compactChars (value : Json) {c : Char} (control : c.toNat < 0x20) :
    c ∉ value.compactChars := fun listed => value.noControls_compactChars c listed control

theorem dropReturn_compactChars (value : Json) :
    dropReturn value.compactChars = value.compactChars := by
  refine if_neg fun last => ?_
  exact value.notMem_compactChars (c := '\r') (by decide) (List.mem_of_getLast? last)

/-- Values that are written on lines of their own are found on these lines. -/
theorem linesOf_written (values : List Json) :
    linesOf (String.join (values.map (writeDocument true))).toList = values.map compactChars := by
  have text : (String.join (values.map (writeDocument true))).toList =
      (values.map compactChars).flatMap (· ++ ['\n']) := by
    rw [String.toList_join, List.flatMap_map, List.flatMap_map]
    congr 1
    funext value
    rw [writeDocument, if_pos rfl, String.toList_append, compact, String.toList_ofList]
    rfl
  rw [text]
  refine linesOf_flatMap ?_ ?_
  · intro line listed
    obtain ⟨value, _, rfl⟩ := List.mem_map.mp listed
    exact value.notMem_compactChars (by decide)
  · intro line listed
    obtain ⟨value, _, rfl⟩ := List.mem_map.mp listed
    exact value.dropReturn_compactChars

end Json

/-- Values that are read back from their texts are the documents of lines with these texts. -/
theorem Selection.exists_lineDocuments (engine : QueryEngine) (path : String) (number : Nat)
    {values : List Json} (each : ∀ value ∈ values, Json.parse? value.compactChars = some value) :
    ∃ documents,
      lineDocuments ⟨true, none, none⟩ engine path number (values.map Json.compactChars) =
          .ok documents ∧
        documents.map Document.value = values := by
  induction values generalizing number with
  | nil => exact ⟨[], rfl, rfl⟩
  | cons value rest ih =>
    obtain ⟨first, others⟩ := List.forall_mem_cons.mp each
    obtain ⟨documents, loaded, same⟩ := ih (number + 1) others
    refine ⟨⟨path ++ ":" ++ toString number, value⟩ :: documents, ?_, ?_⟩
    · have shown : ¬isBlankText value.compactChars = true := by
        simp [value.isBlankText_compactChars]
      rw [List.map_cons, lineDocuments_of_parse? shown first, loaded]
      rfl
    · rw [List.map_cons, same]

namespace Rule

variable {rule : Rule} {documents : List Document}

/-- The accepted documents are the answers of the rule. -/
theorem exists_of_mem_accepted {normal : Json} (listed : normal ∈ rule.accepted documents) :
    ∃ document ∈ documents, rule.normalize document.value = .ok normal := by
  obtain ⟨document, among, answer⟩ := List.mem_filterMap.mp listed
  split at answer
  · next normalized =>
    cases answer
    exact ⟨document, among, normalized⟩
  · cases answer

/-- Documents that the rule leaves as they are are all accepted. -/
theorem accepted_of_normal (normal : ∀ document ∈ documents,
    rule.normalize document.value = .ok document.value) :
    rule.accepted documents = documents.map Document.value ∧ rule.refused documents = [] := by
  induction documents with
  | nil => exact ⟨rfl, rfl⟩
  | cons document rest ih =>
    obtain ⟨first, others⟩ := List.forall_mem_cons.mp normal
    obtain ⟨accepted, refused⟩ := ih others
    simp only [Rule.accepted, Rule.refused] at accepted refused
    simp [Rule.accepted, Rule.refused, first, accepted, refused]

end Rule

/-! ## The second check -/

/-- A number that is written as an integer. -/
def Number.IsInteger (n : Number) : Prop := ∃ value fits, n = integer value fits

theorem Number.IsInteger.steady {n : Number} (isInteger : n.IsInteger) : n.Steady := by
  obtain ⟨value, fits, rfl⟩ := isInteger
  exact steady_integer value fits

namespace Command

variable {engine : QueryEngine} {first second ready again last : Surroundings}
  {definitions inputs : List String}
  {selection : Selection} {typeName input path : String} {registry : Registry} {rule : Rule}

/-- What is printed when no document can be loaded: nothing. -/
theorem printed_of_failure {failure : CliFailure}
    (defined : first.loadDefinitions definitions = .ok (registry, ready))
    (known : registry.get? typeName = some rule)
    (failed : ready.loadDocuments engine selection inputs = .error failure) :
    ((check definitions inputs selection typeName none).run engine first).printed = "" := by
  simp only [run, prepare, defined, Registry.resolve, known, failed, Outcome.failed]

/-- Answers of a rule that are read back from their texts pass a check of these texts as they are. -/
theorem check_of_normal (values : List Json) {text : String}
    (defined : second.loadDefinitions definitions = .ok (registry, again))
    (known : registry.get? typeName = some rule)
    (normal : ∀ value ∈ values, rule.normalize value = .ok value)
    (each : ∀ value ∈ values, Json.parse? value.compactChars = some value)
    (written : text = String.join (values.map (writeDocument true)))
    (stands : again.files.StandsFor input [path]) (read : again.read path = .ok (text, last)) :
    ((check definitions [input] ⟨true, none, none⟩ typeName none).run engine second).exitCode = 0 ∧
      ((check definitions [input] ⟨true, none, none⟩ typeName none).run engine second).printed =
        text := by
  obtain ⟨documents, lines, same⟩ := Selection.exists_lineDocuments engine path 1 each
  have loaded : again.loadDocuments engine ⟨true, none, none⟩ [input] = .ok documents := by
    rw [Surroundings.loadDocuments_of_stands stands read, Selection.textDocuments, if_pos rfl,
      written, Json.linesOf_written, lines]
  have stays : ∀ document ∈ documents,
      rule.normalize document.value = .ok document.value := by
    intro document listed
    exact normal _ (same ▸ List.mem_map_of_mem listed)
  obtain ⟨accepted, refused⟩ := Rule.accepted_of_normal stays
  rw [run_check defined known loaded, accepted, refused, same, written]
  exact ⟨rfl, rfl⟩

/-- What a check prints passes a second check as it is, if the numbers that are printed are read
back from their texts. -/
theorem recheck_of_steady (defined : first.loadDefinitions definitions = .ok (registry, ready))
    (known : registry.get? typeName = some rule)
    (literals : ∀ path n, rule.Reaches path (.numberLiteral n) → n.Steady)
    (lines : selection.lines = true)
    (steady : ∀ documents, ready.loadDocuments engine selection inputs = .ok documents →
      ∀ document ∈ documents, document.value.AllNumbers Number.Steady)
    (definedToo : second.loadDefinitions definitions = .ok (registry, again))
    (stands : again.files.StandsFor input [path])
    (read : again.read path =
      .ok (((check definitions inputs selection typeName none).run engine first).printed, last)) :
    ((check definitions [input] ⟨true, none, none⟩ typeName none).run engine second).exitCode = 0 ∧
      ((check definitions [input] ⟨true, none, none⟩ typeName none).run engine second).printed =
        ((check definitions inputs selection typeName none).run engine first).printed := by
  cases loaded : ready.loadDocuments engine selection inputs with
  | error failure =>
    refine check_of_normal [] definedToo known (by simp) (by simp) ?_ stands read
    exact printed_of_failure defined known loaded
  | ok documents =>
    have printed :
        ((check definitions inputs selection typeName none).run engine first).printed =
          String.join ((rule.accepted documents).map (writeDocument true)) := by
      rw [run_check defined known loaded, lines]
    refine check_of_normal _ definedToo known ?_ ?_ printed stands read
    · intro normal listed
      obtain ⟨document, _, accepted⟩ := Rule.exists_of_mem_accepted listed
      have once := Surroundings.namesOnce_of_loadDefinitions defined known
      obtain ⟨answer, again, before⟩ := Rule.normalize_narrowed once (.same rule) accepted
      rw [again, ← before, accepted]
    · intro normal listed
      obtain ⟨document, among, accepted⟩ := Rule.exists_of_mem_accepted listed
      have readable := Rule.readable_normalize
        (Surroundings.readable_of_loadDocuments loaded among) accepted
      have numbers := Rule.allNumbers_normalize (steady documents loaded document among) literals
        accepted
      rw [Json.parse?_compactChars readable]
      exact congrArg some (Json.reread_eq_self_iff.mpr numbers)

/-- The lines that a check prints, given as the only input to a check with the same definitions and
the same type, are all accepted and printed back as they are, whatever the first check selected.
Number literals and the numbers of the documents have to be integers. -/
theorem recheck (defined : first.loadDefinitions definitions = .ok (registry, ready))
    (known : registry.get? typeName = some rule)
    (literals : ∀ path n, rule.Reaches path (.numberLiteral n) → n.IsInteger)
    (lines : selection.lines = true)
    (integers : ∀ documents, ready.loadDocuments engine selection inputs = .ok documents →
      ∀ document ∈ documents, document.value.AllNumbers Number.IsInteger)
    (definedToo : second.loadDefinitions definitions = .ok (registry, again))
    (stands : again.files.StandsFor input [path])
    (read : again.read path =
      .ok (((check definitions inputs selection typeName none).run engine first).printed, last)) :
    ((check definitions [input] ⟨true, none, none⟩ typeName none).run engine second).exitCode = 0 ∧
      ((check definitions [input] ⟨true, none, none⟩ typeName none).run engine second).printed =
        ((check definitions inputs selection typeName none).run engine first).printed := by
  refine recheck_of_steady defined known (fun path n reaches => (literals path n reaches).steady)
    lines (fun documents loaded document listed => ?_) definedToo stands read
  exact (integers documents loaded document listed).imp fun _ isInteger => isInteger.steady

/-- Rows on the standard input, a refused one and a blank line among them. -/
def ledger : Surroundings where
  files := ⟨.directory [("t", .file "type Row = \x7bn: 7 s: string\x7d")], []⟩
  input := "\x7b\"s\":\"a\\n\",\"n\":7\x7d\r\n \n[]"

/-- The rows that are accepted, as they are printed. -/
def tidyLedger : Surroundings := { ledger with input := "\x7b\"n\":7,\"s\":\"a\\n\"\x7d\n" }

/-- A number. -/
def seven : Number := .integer 7 (by decide)

/-- A property with a number and one with a string. -/
def row : Rule := .pattern [⟨"n", some (.numberLiteral seven)⟩, ⟨"s", some .string⟩]

theorem isInteger_seven : seven.IsInteger := ⟨7, _, rfl⟩

theorem literals_row : ∀ path n, row.Reaches path (.numberLiteral n) → n.IsInteger := by
  intro path n reaches
  cases reaches with
  | property listed inner =>
    simp only [List.mem_cons, Field.mk.injEq, List.not_mem_nil, or_false] at listed
    rcases listed with ⟨_, same⟩ | ⟨_, same⟩
    · cases same
      cases inner
      exact isInteger_seven
    · cases same
      cases inner

/-- The first row of the ledger. -/
def firstRow : Json := .object [("s", .string "a\n"), ("n", .number seven)]

theorem readable_firstRow : firstRow.Readable 1 := by
  refine .object (by decide) fun member listed => ?_
  simp only [List.mem_cons, List.not_mem_nil, or_false] at listed
  rcases listed with rfl | rfl
  · exact .string 0 _
  · exact .number 0 _

theorem allNumbers_firstRow : firstRow.AllNumbers Number.IsInteger := by
  refine .object fun member listed => ?_
  simp only [List.mem_cons, List.not_mem_nil, or_false] at listed
  rcases listed with rfl | rfl
  · exact .string _
  · exact .number isInteger_seven

theorem ledger_loads : ledger.loadDocuments .builtin ⟨true, none, none⟩ ["-"] =
    .ok [⟨"-:1", firstRow⟩, ⟨"-:3", .array []⟩] := by
  have read : ledger.read "-" = .ok (ledger.input, { ledger with input := "" }) := rfl
  have lines : linesOf ledger.input.toList =
      [firstRow.compactChars, [' '], (Json.array []).compactChars] := by decide
  have parsed : Json.parse? firstRow.compactChars = some firstRow := by
    rw [Json.parse?_compactChars (readable_firstRow.mono (by decide)), Option.some.injEq, Json.reread_eq_self_iff]
    exact allNumbers_firstRow.imp fun _ isInteger => isInteger.steady
  have empty : (Json.array []).Readable 1 := .array (by simp)
  have parsedLast : Json.parse? (Json.array []).compactChars = some (.array []) :=
    Json.parse?_compactChars (empty.mono (by decide))
  have blank : isBlankText [' '] = true := rfl
  rw [Surroundings.loadDocuments_of_stands (FileSystem.standsFor_self rfl) read]
  simp only [Selection.textDocuments, lines, Selection.lineDocuments, parsed, parsedLast, blank,
    Json.isBlankText_compactChars, Selection.documents, Selection.follow, Except.map]
  rfl

/-- One row of the ledger is accepted, and printed as it is in `tidyLedger`. -/
theorem recheck_ledger :
    ledger.loadDefinitions ["t"] = .ok (⟨[("Row", row)], by simp⟩, ledger) ∧
      ((check ["t"] ["-"] ⟨true, none, none⟩ "Row" none).run .builtin ledger).printed =
        "\x7b\"n\":7,\"s\":\"a\\n\"\x7d\n" ∧
      ((check ["t"] ["-"] ⟨true, none, none⟩ "Row" none).run .builtin ledger).exitCode ≠ 0 ∧
      ((check ["t"] ["-"] ⟨true, none, none⟩ "Row" none).run .builtin tidyLedger).exitCode = 0 ∧
      ((check ["t"] ["-"] ⟨true, none, none⟩ "Row" none).run .builtin tidyLedger).printed =
        "\x7b\"n\":7,\"s\":\"a\\n\"\x7d\n" := by
  have defined : ledger.loadDefinitions ["t"] = .ok (⟨[("Row", row)], by simp⟩, ledger) := by cbv
  have definedToo : tidyLedger.loadDefinitions ["t"] =
      .ok (⟨[("Row", row)], by simp⟩, tidyLedger) := by cbv
  have known : Registry.get? ⟨[("Row", row)], by simp⟩ "Row" = some row := rfl
  have answer : row.normalize firstRow = .ok (.object [("n", .number seven), ("s", .string "a\n")]) := by
    rfl
  have outcome := run_check defined known ledger_loads
  have printed : ((check ["t"] ["-"] ⟨true, none, none⟩ "Row" none).run .builtin ledger).printed =
      "\x7b\"n\":7,\"s\":\"a\\n\"\x7d\n" := by
    rw [outcome]
    decide
  have integers : ∀ documents,
      ledger.loadDocuments .builtin ⟨true, none, none⟩ ["-"] = .ok documents →
      ∀ document ∈ documents, document.value.AllNumbers Number.IsInteger := by
    intro documents loaded document listed
    cases ledger_loads.symm.trans loaded
    simp only [List.mem_cons, List.not_mem_nil, or_false] at listed
    rcases listed with rfl | rfl
    · exact allNumbers_firstRow
    · exact .array (by simp)
  have again := recheck defined known literals_row rfl integers definedToo
    (FileSystem.standsFor_self rfl) (show tidyLedger.read "-" = .ok (_, _) by rw [printed]; rfl)
  rw [printed] at again
  refine ⟨defined, printed, ?_, again⟩
  rw [outcome]
  decide

end Command

end JsonShape
