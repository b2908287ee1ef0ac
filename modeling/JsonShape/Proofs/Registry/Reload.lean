import JsonShape.Proofs.Registry.History
import JsonShape.Proofs.Rule.RoundTrip
import JsonShape.Proofs.Source.Words

/-!
# Registries read back

The canonical source of a registry is read as the definitions of the registry, in their order.

* `Definition.Writable` holds of the definitions that source text can make.  Source text makes no
  others (`writable_of_parseDefinitions`), and every change keeps a registry to them
  (`Registry.writable_apply`), so every registry that comes about from such changes consists of
  them (`Registry.writable_after`).
* `reads_definitions`: on their lines, definitions are scanned one after the other.
* `Registry.reload_after` is the round trip.
-/

namespace JsonShape

open Grammar

/-- A definition that source text can make: its name is an identifier, and its rule well formed. -/
structure Definition.Writable (definition : Definition) : Prop where
  bare : isBareWord definition.1 = true
  free : isKeyword definition.1 = false
  wellFormed : definition.2.WellFormed

/-! ## Parsed definitions -/

/-- A definition of some tokens has an identifier among them and a rule with distinct lists. -/
theorem Grammar.Definitions.identifier_mem {tokens : List Token} {definitions : List Definition}
    (derived : Definitions tokens definitions) {definition : Definition}
    (listed : definition ∈ definitions) :
    .identifier definition.1 ∈ tokens ∧ definition.2.Distinct := by
  induction derived with
  | nil => cases listed
  | @cons name own tokens rule definitions derived _ ih =>
    rcases List.mem_cons.mp listed with rfl | later
    · exact ⟨by simp, derived.distinct⟩
    · obtain ⟨among, distinct⟩ := ih later
      exact ⟨by simp [among], distinct⟩

theorem writable_of_parseDefinitions {source : List Char} {definitions : List Definition}
    (parsed : parseDefinitions source = .ok definitions) {definition : Definition}
    (listed : definition ∈ definitions) : Definition.Writable definition := by
  obtain ⟨lexemes, tokenized, run⟩ := parseDefinitions_eq_ok_iff.mp parsed
  obtain ⟨derived, shallow⟩ := run_declaration_iff.mp run
  obtain ⟨among, distinct⟩ := derived.identifier_mem listed
  obtain ⟨bare, free⟩ := identifier_of_tokenize tokenized among
  exact ⟨bare, free, distinct, shallow definition listed⟩

/-! ## Written definitions -/

namespace Registry

/-- The tokens of a definition's line. -/
def definitionTokens (definition : Definition) : List Token :=
  .keyword .type :: .identifier definition.1 :: .equals :: definition.2.tokens

theorem spelling_equals : Spelling ['='] .equals :=
  Spelling.mark rfl (by decide) rfl (by decide) rfl

/-- A line with a definition is scanned as its tokens, whatever is on the lines below. -/
theorem reads_definition {definition : Definition} (bare : isBareWord definition.1 = true)
    (free : isKeyword definition.1 = false) {rest : List Char} {more : List Token}
    (reads : Reads rest more) :
    Reads (definitionChars definition ++ rest) (definitionTokens definition ++ more) := by
  have feed : Reads ('\n' :: rest) more := reads.layout rfl
  have rule := Rule.reads_chars (.feed rest) feed definition.2
  have equals := Reads.token spelling_equals (.blank _) rule.blank
  have name := Reads.token (.identifier bare free) (.blank _) equals.blank
  rw [definitionChars, definitionTokens]
  simpa using Rule.reads_keyword .type (.blank _) name.blank

theorem reads_definitions {definitions : List Definition}
    (writable : ∀ definition ∈ definitions, Definition.Writable definition) :
    Reads (definitions.flatMap definitionChars) (definitions.flatMap definitionTokens) := by
  induction definitions with
  | nil => exact .nil
  | cons definition rest ih =>
    have own := writable definition List.mem_cons_self
    have others := ih fun other listed => writable other (List.mem_cons_of_mem _ listed)
    rw [List.flatMap_cons, List.flatMap_cons]
    exact reads_definition own.bare own.free others

theorem derives_definitions {definitions : List Definition}
    (writable : ∀ definition ∈ definitions, Definition.Writable definition) :
    Definitions (definitions.flatMap definitionTokens) definitions := by
  induction definitions with
  | nil => exact .nil
  | cons definition rest ih =>
    have own := writable definition List.mem_cons_self
    have others := ih fun other listed => writable other (List.mem_cons_of_mem _ listed)
    exact .cons (Rule.derives_tokens definition.2 own.wellFormed.1) others

/-- Definitions that source text can make are parsed back from their lines. -/
theorem parseDefinitions_lines {definitions : List Definition}
    (writable : ∀ definition ∈ definitions, Definition.Writable definition) :
    parseDefinitions (definitions.flatMap definitionChars) = .ok definitions := by
  obtain ⟨lexemes, tokenized, same⟩ := (reads_definitions writable).tokenize
  have derived := derives_definitions writable
  have shallow : Shallow definitions := fun definition listed =>
    (writable definition listed).wellFormed.2
  rw [← same] at derived
  exact parseDefinitions_eq_ok_iff.mpr
    ⟨lexemes, tokenized, run_declaration_iff.mpr ⟨derived, shallow⟩⟩

/-! ## Registries -/

/-- A change that makes only definitions that source text can make. -/
def Change.Writable : Change → Prop
  | .source _ => True
  | .definition name rule => Definition.Writable (name, rule)

theorem Change.writable_committed {change : Change} (writable : change.Writable) :
    ∀ definition ∈ change.committed, Definition.Writable definition := by
  cases change with
  | source text =>
    intro definition listed
    rcases parsed : parseDefinitions text with fault | definitions
    · rw [committed_of_error parsed] at listed
      cases listed
    · rw [committed_of_ok parsed] at listed
      exact writable_of_parseDefinitions parsed listed
  | definition name rule =>
    intro definition listed
    rw [List.mem_singleton.mp listed]
    exact writable

/-- A registry of definitions that source text can make. -/
def Writable (registry : Registry) : Prop :=
  ∀ definition ∈ registry.entries, Definition.Writable definition

/-- Every change that makes only such definitions leaves a registry of such definitions. -/
theorem writable_apply {registry : Registry} (writable : registry.Writable) {change : Change}
    (sound : change.Writable) : (registry.apply change).Writable := by
  intro definition listed
  rw [entries_apply] at listed
  rcases Entries.mem_putAll listed with earlier | added
  · exact writable definition earlier
  · exact Change.writable_committed sound definition added

theorem writable_after {changes : List Change} (sound : ∀ change ∈ changes, change.Writable) :
    (after changes).Writable := by
  induction changes using List.reverseRecOn with
  | nil =>
    intro definition listed
    cases listed
  | append_singleton changes change ih =>
    rw [after_concat]
    apply writable_apply
    · exact ih fun other listed => sound other (List.mem_append_left _ listed)
    · exact sound change (List.mem_append_right _ List.mem_cons_self)

/-- The canonical source of a registry that came about by adding texts, with or without faults,
and by definitions that source text can make, is parsed as the entries of the registry in their
order.  Added to the registry without rules, it gives the same registry again, and so the same
canonical source. -/
theorem reload_after (changes : List Change) (sound : ∀ change ∈ changes, change.Writable) :
    parseDefinitions (after changes).render.toList = .ok (after changes).entries ∧
      ofSource (after changes).render.toList = .ok (after changes) ∧
      (ofSource (after changes).render.toList).map render = .ok (after changes).render := by
  have parsed : parseDefinitions (after changes).render.toList = .ok (after changes).entries := by
    rw [render, String.toList_ofList]
    exact parseDefinitions_lines (writable_after sound)
  have loaded : ofSource (after changes).render.toList = .ok (after changes) := by
    have same : empty.defineAll (after changes).entries = after changes :=
      eq_of_entries_eq (Entries.collect_of_nodup (after changes).distinct)
    rw [ofSource, addSource_of_ok empty parsed, same]
  refine ⟨parsed, loaded, ?_⟩
  rw [loaded]
  rfl

/-- Changes of which one breaks off, one gives a name anew, and one makes a definition whose words
are quoted in canonical source. -/
def mixedChanges : List Change :=
  [.source "type Point = \x7b x: number y \x7d type Flag = true".toList, .source "type".toList,
    .definition "Kind" (.enumeration ["type", "a b"]), .source "type Flag = \"\\n\"".toList]

theorem reload_mixedChanges :
    (∀ change ∈ mixedChanges, change.Writable) ∧
      parseDefinitions (after mixedChanges).render.toList = .ok (after mixedChanges).entries ∧
      ofSource (after mixedChanges).render.toList = .ok (after mixedChanges) := by
  have kind : Definition.Writable ("Kind", .enumeration ["type", "a b"]) :=
    ⟨by decide, by decide, by simp [Rule.Distinct], Nat.zero_le _⟩
  have sound : ∀ change ∈ mixedChanges, change.Writable := by
    simp only [mixedChanges, List.forall_mem_cons, List.not_mem_nil]
    exact ⟨trivial, trivial, kind, trivial, nofun⟩
  obtain ⟨parsed, loaded, _⟩ := reload_after mixedChanges sound
  exact ⟨sound, parsed, loaded⟩

end Registry

end JsonShape
