import JsonShape.Cli.Run
import JsonShape.Proofs.Cli.Rechecking
import JsonShape.Proofs.Normalize.SameText

/-!
# The query that gives its input

The query `.` has one result, the text of its input.  This much is asked of an engine, and the
built-in engine has it.  The text is read again, so what comes out is the input with its numbers
read again.

* `QueryEngine.KeepsInput` says what is asked of an engine.
* `QueryEngine.keepsInput_builtin`: the built-in engine has it, as the text of a value that is a
  document is the document's own.
* `QueryEngine.documents_identity`: the query gives exactly one document, and never fails.
* `Surroundings.loadDocuments_identity`: with the query the same documents are loaded, or the same
  failure is met, but numbers are read again and origins end in a position.
* `Command.check_identity` says what is left of a check without the query: all of it but the
  origins, if the numbers are steady.
-/

namespace JsonShape

/-! ## Texts of results -/

/-- An integer has the same text in a query, with 64 bits or beyond. -/
theorem QueryNumber.chars_ofNumber (n : Number) : (ofNumber n).chars = n.chars := by
  cases n with
  | integer n fits =>
    unfold ofNumber ofNumeral
    dsimp only
    split
    · rw [Number.signedValue_toDigits]
      rfl
    · simp [chars, Numeral.chars, Number.chars, integerText]
  | double d => rfl

namespace QueryValue

theorem itemChars_ofItems {items : List Json}
    (each : ∀ item ∈ items, (ofJson item).chars = item.compactChars) :
    itemChars (ofItems items) = Json.compactItems items := by
  induction items with
  | nil => rfl
  | cons item rest ih =>
    obtain ⟨first, others⟩ := List.forall_mem_cons.mp each
    rw [ofItems, itemChars, Json.compactItems, first, ih others]

theorem memberChars_ofMembers {members : List (String × Json)}
    (each : ∀ member ∈ members, (ofJson member.2).chars = member.2.compactChars) :
    memberChars (ofMembers members) = Json.compactMembers members := by
  induction members with
  | nil => rfl
  | cons member rest ih =>
    obtain ⟨first, others⟩ := List.forall_mem_cons.mp each
    rw [ofMembers, memberChars, Json.compactMembers, first, ih others]

/-- A document has the same text in a query. -/
theorem chars_ofJson (value : Json) : (ofJson value).chars = value.compactChars := by
  induction value using Json.inductionOn with
  | null => rfl
  | bool b => rfl
  | number n => exact QueryNumber.chars_ofNumber n
  | string s => rfl
  | array items ih =>
    cases items with
    | nil => rfl
    | cons item rest =>
      obtain ⟨first, others⟩ := List.forall_mem_cons.mp ih
      rw [ofJson, ofItems, chars, Json.compactChars, first, itemChars_ofItems others]
  | object members ih =>
    cases members with
    | nil => rfl
    | cons member rest =>
      obtain ⟨first, others⟩ := List.forall_mem_cons.mp ih
      rw [ofJson, ofMembers, chars, Json.compactChars, first, memberChars_ofMembers others]

end QueryValue

/-! ## One document -/

namespace QueryEngine

/-- The query for the input. -/
def identityText : String := "."

/-- An engine knows the query for the input: a filter with one result, the text of the input. -/
def KeepsInput (engine : QueryEngine) : Prop :=
  ∃ filter, engine.compile identityText = .ok filter ∧
    ∀ input : Json, input.Readable Raw.maxDepth → filter input = [some input.compactChars]

theorem keepsInput_builtin : builtin.KeepsInput := by
  have compiled : builtin.compile identityText = .ok Query.identity.filter := rfl
  refine ⟨_, compiled, fun input _ => ?_⟩
  rw [← QueryValue.chars_ofJson]
  rfl

/-- The query for the input gives one document, the input with its numbers read again. -/
theorem documents_identity {engine : QueryEngine} (keeps : engine.KeepsInput) {value : Json}
    (readable : value.Readable Raw.maxDepth) :
    engine.documents identityText value = .ok [value.reread] := by
  obtain ⟨filter, compiled, results⟩ := keeps
  simp only [documents, compiled, results value readable, readResults,
    Json.parse?_compactChars readable, Except.map]

end QueryEngine

/-! ## Documents of inputs -/

/-- A selection with the query for the input in place of its own. -/
def Selection.withIdentity (selection : Selection) : Selection :=
  { selection with query := some QueryEngine.identityText }

/-- A document behind the query for the input: its numbers are read again, and its origin ends in
its position among the results. -/
def Document.reread (document : Document) : Document :=
  ⟨document.origin ++ "#" ++ toString 0, document.value.reread⟩

namespace Selection

variable {engine : QueryEngine} {selection : Selection}

theorem documents_withIdentity (keeps : engine.KeepsInput) {origin : String} {value : Json}
    (plain : selection.query = none) (readable : value.Readable Raw.maxDepth) :
    selection.withIdentity.documents engine origin value =
      (selection.documents engine origin value).map (·.map Document.reread) := by
  have follows : selection.withIdentity.follow origin value = selection.follow origin value := rfl
  unfold documents
  rw [follows, plain]
  cases followed : selection.follow origin value with
  | error failure => rfl
  | ok part =>
    simp only [withIdentity,
      QueryEngine.documents_identity keeps (readable_of_follow readable followed)]
    rfl

theorem lineDocuments_withIdentity (keeps : engine.KeepsInput) {path : String} {number : Nat}
    {lines : List (List Char)} (plain : selection.query = none) :
    selection.withIdentity.lineDocuments engine path number lines =
      (selection.lineDocuments engine path number lines).map (·.map Document.reread) := by
  induction lines generalizing number with
  | nil => rfl
  | cons line rest ih =>
    unfold lineDocuments
    split
    · exact ih
    · cases parsed : Json.parse? line with
      | none => rfl
      | some value =>
        simp only [documents_withIdentity keeps plain (Json.readable_of_parse? parsed), ih]
        cases selection.documents engine (path ++ ":" ++ toString number) value with
        | error failure => rfl
        | ok own =>
          cases selection.lineDocuments engine path (number + 1) rest <;> simp [Except.map]

theorem textDocuments_withIdentity (keeps : engine.KeepsInput) {path : String} {text : List Char}
    (plain : selection.query = none) :
    selection.withIdentity.textDocuments engine path text =
      (selection.textDocuments engine path text).map (·.map Document.reread) := by
  have lines : selection.withIdentity.lines = selection.lines := rfl
  unfold textDocuments
  rw [lines]
  split
  · exact lineDocuments_withIdentity keeps plain
  · cases parsed : Json.parse? text with
    | none => rfl
    | some value => exact documents_withIdentity keeps plain (Json.readable_of_parse? parsed)

end Selection

namespace Surroundings

variable {engine : QueryEngine} {selection : Selection}

theorem readDocuments_withIdentity (keeps : engine.KeepsInput) {surroundings : Surroundings}
    {paths : List String} (plain : selection.query = none) :
    surroundings.readDocuments engine selection.withIdentity paths =
      (surroundings.readDocuments engine selection paths).map (·.map Document.reread) := by
  induction paths generalizing surroundings with
  | nil => rfl
  | cons path rest ih =>
    unfold readDocuments
    cases surroundings.read path with
    | error failure => rfl
    | ok found =>
      simp only [Selection.textDocuments_withIdentity keeps plain, ih]
      cases selection.textDocuments engine path found.1.toList with
      | error failure => rfl
      | ok own => cases found.2.readDocuments engine selection rest <;> simp [Except.map]

/-- With the query for the input the same documents are loaded, with their numbers read again, or
the same failure is met. -/
theorem loadDocuments_withIdentity (keeps : engine.KeepsInput) (surroundings : Surroundings)
    (inputs : List String) (plain : selection.query = none) :
    surroundings.loadDocuments engine selection.withIdentity inputs =
      (surroundings.loadDocuments engine selection inputs).map (·.map Document.reread) := by
  unfold loadDocuments
  cases resolvePaths surroundings.files inputs with
  | error failure => rfl
  | ok found => exact readDocuments_withIdentity keeps plain

end Surroundings

/-! ## The check -/

/-- A refusal behind the query for the input. -/
def Refusal.reread (refusal : Refusal) : Refusal :=
  ⟨refusal.origin ++ "#" ++ toString 0, refusal.mismatch⟩

theorem Document.value_reread {document : Document}
    (steady : document.value.AllNumbers Number.Steady) :
    document.reread.value = document.value := Json.reread_eq_self_iff.mpr steady

namespace Rule

variable {rule : Rule} {documents : List Document}

/-- A rule accepts the same documents behind the query. -/
theorem accepted_reread
    (steady : ∀ document ∈ documents, document.value.AllNumbers Number.Steady) :
    rule.accepted (documents.map Document.reread) = rule.accepted documents := by
  rw [accepted, accepted, List.filterMap_map]
  refine List.filterMap_congr fun document listed => ?_
  simp only [Function.comp_apply, Document.value_reread (steady document listed)]

/-- A rule refuses the same documents behind the query, for the same reasons. -/
theorem refused_reread
    (steady : ∀ document ∈ documents, document.value.AllNumbers Number.Steady) :
    rule.refused (documents.map Document.reread) = (rule.refused documents).map Refusal.reread := by
  rw [refused, refused, List.filterMap_map, List.map_filterMap]
  refine List.filterMap_congr fun document listed => ?_
  simp only [Function.comp_apply, Document.value_reread (steady document listed)]
  cases rule.normalize document.value <;> rfl

end Rule

/-- What is delivered behind the query differs in the origins of refusals. -/
theorem checkDelivery_reread (rule : Rule) {documents : List Document} (typeName : String)
    (lines : Bool) (output : Option String)
    (steady : ∀ document ∈ documents, document.value.AllNumbers Number.Steady) :
    checkDelivery rule typeName lines (documents.map Document.reread) output =
      { checkDelivery rule typeName lines documents output with
        before := String.join (((rule.refused documents).map Refusal.reread).map
          Refusal.notice) } := by
  simp only [checkDelivery, Rule.accepted_reread steady, Rule.refused_reread steady,
    List.length_map, List.isEmpty_map]

/-- Outcomes that differ in their notices at most, and not even there in a success. -/
structure Outcome.Alike (a b : Outcome) : Prop where
  exitCode : a.exitCode = b.exitCode
  printed : a.printed = b.printed
  files : a.files = b.files
  written : a.written = b.written
  notices : b.exitCode = 0 → a.notices = b.notices

theorem Outcome.Alike.of_eq {a b : Outcome} (same : a = b) : a.Alike b :=
  same ▸ ⟨rfl, rfl, rfl, rfl, fun _ => rfl⟩

/-- Where a delivery succeeds, nothing was refused. -/
theorem Rule.refused_of_exitCode {rule : Rule} {documents : List Document} {typeName : String}
    {lines : Bool} {output : Option String} {files : FileSystem}
    (success : ((checkDelivery rule typeName lines documents output).deliver files).exitCode = 0) :
    rule.refused documents = [] := by
  rw [← List.isEmpty_iff]
  by_contra refuses
  have failed : (checkDelivery rule typeName lines documents output).exitCode ≠ 0 := by
    simp [Delivery.exitCode, checkDelivery, refuses]
  cases output with
  | none => exact failed success
  | some path =>
    simp only [Delivery.deliver, checkDelivery] at success
    split at success
    · exact failed success
    · cases success

/-- Other notices of refusals change nothing else. -/
theorem Delivery.alike_deliver {delivery : Delivery} {files : FileSystem} {before : String}
    (quiet : (delivery.deliver files).exitCode = 0 → before = delivery.before) :
    ({ delivery with before := before }.deliver files).Alike (delivery.deliver files) := by
  have notices (success : (delivery.deliver files).exitCode = 0) :
      ({ delivery with before := before }.deliver files).notices =
        (delivery.deliver files).notices := by
    rw [quiet success]
  obtain ⟨text, output, own, after, succeeded⟩ := delivery
  cases output with
  | none => exact ⟨rfl, rfl, rfl, rfl, notices⟩
  | some path =>
    simp only [deliver] at notices ⊢
    generalize files.writeOutput path text = written at notices ⊢
    obtain ⟨left, _ | failure⟩ := written
    · exact ⟨rfl, rfl, rfl, rfl, notices⟩
    · exact ⟨rfl, rfl, rfl, rfl, notices⟩

namespace Command

/-- With steady numbers the query changes at most the notices of a check, and none of a success. -/
theorem alike_withIdentity {engine : QueryEngine} (keeps : engine.KeepsInput)
    {surroundings : Surroundings} {definitions inputs : List String} {selection : Selection}
    {typeName : String} {output : Option String} (plain : selection.query = none)
    (steady : ∀ registry ready documents,
      surroundings.loadDefinitions definitions = .ok (registry, ready) →
      ready.loadDocuments engine selection inputs = .ok documents →
      ∀ document ∈ documents, document.value.AllNumbers Number.Steady) :
    ((check definitions inputs selection.withIdentity typeName output).run engine
        surroundings).Alike
      ((check definitions inputs selection typeName output).run engine surroundings) := by
  cases defined : surroundings.loadDefinitions definitions with
  | error failure => exact .of_eq (by simp only [run, prepare, defined])
  | ok found =>
    obtain ⟨registry, ready⟩ := found
    cases known : registry.resolve typeName with
    | error missing => exact .of_eq (by simp only [run, prepare, defined, known])
    | ok rule =>
      have loads := ready.loadDocuments_withIdentity keeps inputs plain
      cases loaded : ready.loadDocuments engine selection inputs with
      | error failure =>
        rw [loaded] at loads
        exact .of_eq (by simp only [run, prepare, defined, known, loaded, loads, Except.map])
      | ok documents =>
        rw [loaded] at loads
        have lines : selection.withIdentity.lines = selection.lines := rfl
        have delivers := checkDelivery_reread rule typeName selection.lines output
          (steady registry ready documents defined loaded)
        simp only [run, prepare, defined, known, loaded, loads, Except.map, lines, delivers]
        refine Delivery.alike_deliver fun success => ?_
        rw [Rule.refused_of_exitCode success]
        simp only [checkDelivery, Rule.refused_of_exitCode success, List.map_nil]

/-- The query for the input gives one document for each, and never fails.  This document has the
members, the strings and the integers of its input, and its other numbers are those that their
texts are read as: the document is its input exactly if all these are steady.  Doubles are steady
if reading their digits and scaling them rounds once at most.

A check with this query loads the same documents as without it, with such numbers, or meets the
same failure.  If the numbers of the documents are steady, both checks end alike, and in a success
they tell the same. -/
theorem check_identity {engine : QueryEngine} (keeps : engine.KeepsInput)
    (surroundings : Surroundings) (definitions inputs : List String) (selection : Selection)
    (typeName : String) (output : Option String) (plain : selection.query = none) :
    (∀ text value, Json.parse? text = some value →
      engine.documents "." value = .ok [value.reread] ∧
        (value.reread = value ↔ value.AllNumbers Number.Steady)) ∧
    (∀ n : Number, n.IsInteger ∨ n.numeral.RoundedOnce → n.Steady) ∧
    (∀ ready : Surroundings, ready.loadDocuments engine selection.withIdentity inputs =
      (ready.loadDocuments engine selection inputs).map (·.map Document.reread)) ∧
    (∀ (rule : Rule) (documents : List Document),
      (∀ document ∈ documents, document.value.AllNumbers Number.Steady) →
      rule.accepted (documents.map Document.reread) = rule.accepted documents ∧
        rule.refused (documents.map Document.reread) =
          (rule.refused documents).map Refusal.reread) ∧
    ((∀ registry ready documents,
        surroundings.loadDefinitions definitions = .ok (registry, ready) →
        ready.loadDocuments engine selection inputs = .ok documents →
        ∀ document ∈ documents, document.value.AllNumbers Number.Steady) →
      ((check definitions inputs selection.withIdentity typeName output).run engine
          surroundings).Alike
        ((check definitions inputs selection typeName output).run engine surroundings)) := by
  refine ⟨fun text value parsed => ⟨?_, Json.reread_eq_self_iff⟩, ?_,
    fun ready => ready.loadDocuments_withIdentity keeps inputs plain,
    fun rule documents steady => ⟨Rule.accepted_reread steady, Rule.refused_reread steady⟩,
    alike_withIdentity keeps plain⟩
  · exact QueryEngine.documents_identity keeps (Json.readable_of_parse? parsed)
  · intro n exact
    rcases exact with isInteger | once
    · exact isInteger.steady
    · cases n with
      | integer value fits => exact Number.steady_integer value fits
      | double d => exact Number.steady_of_roundedOnce once

/-- A number in a file, and the definition of a type of numbers. -/
def scale (text : String) : Surroundings where
  files := ⟨.directory [("d", .file text), ("t", .file "type T = number")], []⟩
  input := ""

/-- The check of the number with a query or none. -/
def weigh (query : Option String) : Command := check ["t"] ["d"] ⟨false, none, query⟩ "T" none

theorem scale_defines (text : String) :
    (scale text).loadDefinitions ["t"] = .ok (⟨[("T", .number)], by simp⟩, scale text) := by cbv

theorem scale_loads (n : Number) :
    (scale n.render).loadDocuments .builtin ⟨false, none, none⟩ ["d"] =
      .ok [⟨"d", .number n.reread⟩] := by
  have read : (scale n.render).read "d" = .ok (n.render, scale n.render) := by cbv
  have chars : n.render.toList = (Json.number n).compactChars := String.toList_ofList
  rw [Surroundings.loadDocuments_of_stands (FileSystem.standsFor_self rfl) read]
  simp only [Selection.textDocuments, chars, Json.parse?_compactChars (.number _ n)]
  rfl

theorem printed_weigh {n a : Number} (query : Option String) {document : Document}
    (loaded : (scale n.render).loadDocuments .builtin ⟨false, none, query⟩ ["d"] = .ok [document])
    (value : document.value = .number a) :
    ((weigh query).run .builtin (scale n.render)).printed = a.render ++ "\n" := by
  have known : Registry.get? ⟨[("T", .number)], by simp⟩ "T" = some .number := rfl
  have accepted : Rule.accepted .number [document] = [.number a] := by
    obtain ⟨origin, own⟩ := document
    cases value
    rfl
  rw [weigh, run_check (scale_defines _) known loaded, accepted]
  simp [String.join, writeDocument, Json.pretty, Json.prettyChars, Number.render]

/-- The double nearest to a tenth. -/
def tenth : Number := .double Rule.tenth

/-- A tenth is read by one division and stays what it is behind the query. -/
theorem check_identity_tenth :
    (scale "0.1").loadDocuments .builtin ⟨false, none, none⟩ ["d"] = .ok [⟨"d", .number tenth⟩] ∧
      ((weigh none).run .builtin (scale "0.1")).printed = "0.1\n" ∧
      ((weigh (some ".")).run .builtin (scale "0.1")).printed = "0.1\n" := by
  have text : tenth.render = "0.1" := by decide +kernel
  obtain ⟨_, once, _, _, alike⟩ :=
    check_identity QueryEngine.keepsInput_builtin (scale "0.1") ["t"] ["d"] ⟨false, none, none⟩ "T"
      none rfl
  have steady : tenth.Steady := once tenth (.inr (.inr (.inr (by decide +kernel))))
  have loads := scale_loads tenth
  rw [text, Number.steady_iff.mp steady] at loads
  have printed : ((weigh none).run .builtin (scale "0.1")).printed = "0.1\n" := by
    have prints := printed_weigh none (n := tenth) (by rw [text]; exact loads) rfl
    rwa [text] at prints
  have same := alike fun registry ready documents defined loaded document listed => by
    cases (scale_defines "0.1").symm.trans defined
    cases loads.symm.trans loaded
    cases List.mem_singleton.mp listed
    exact .number steady
  exact ⟨loads, printed, same.printed.trans printed⟩

/-- The double nearest to `10 ^ -30`. -/
def slight : Number := .double ⟨false, 5708990770823840, 922, by decide⟩

/-- The double below that of `10 ^ -30`. -/
def slighter : Number := .double ⟨false, 5708990770823839, 922, by decide⟩

/-- Division by the double of `10 ^ 30` is rounded to the double below the nearest, and the digits
of that one are rounded up again. -/
theorem not_identity_slight :
    Json.parse? "1e-30".toList = some (.number slighter) ∧
      QueryEngine.builtin.documents "." (.number slighter) = .ok [.number slight] ∧
      slight ≠ slighter ∧
      ((weigh none).run .builtin (scale "1e-30")).printed = "9.999999999999999e-31\n" ∧
      ((weigh (some ".")).run .builtin (scale "1e-30")).printed = "1e-30\n" := by
  have text : slight.render = "1e-30" := by decide +kernel
  have textBelow : slighter.render = "9.999999999999999e-31" := by decide +kernel
  have down : slight.reread = slighter := by decide +kernel
  have up : slighter.reread = slight := by decide +kernel
  have plain : (⟨false, none, none⟩ : Selection).query = none := rfl
  have loads := scale_loads slight
  have asked := (scale slight.render).loadDocuments_withIdentity QueryEngine.keepsInput_builtin
    ["d"] plain
  rw [loads, down] at asked
  have read : (Json.number slight).reread = .number slighter := congrArg Json.number down
  have again : (Json.number slighter).reread = .number slight := congrArg Json.number up
  have first := printed_weigh none loads rfl
  have second := printed_weigh (some ".") asked again
  have parsed := Json.parse?_compactChars (.number Raw.maxDepth slight)
  have query := QueryEngine.documents_identity QueryEngine.keepsInput_builtin
    (.number Raw.maxDepth slighter)
  rw [down, textBelow, text] at first
  rw [text] at second
  rw [read] at parsed
  rw [again] at query
  refine ⟨?_, query, by decide +kernel, first, second⟩
  rw [← text, Number.render, String.toList_ofList]
  exact parsed

end Command

end JsonShape
