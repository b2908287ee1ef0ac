import JsonShape.Proofs.Entries
import JsonShape.Proofs.Source.Parsing
import JsonShape.Registry
import Mathlib

/-!
# Histories of registries

A registry comes about by changes: the definitions of a source text are added, or a single name
is defined.  `Registry.after` is the registry that a list of changes leads to, and
`Registry.committed` lists, in order, all definitions that they make.  A source text with a fault
makes none.

* `Registry.entries_apply`: what one change does; `Registry.entries_after`: what many do.
* `Registry.after_keeps_last_committed`: a registry holds the last committed rule of each name, at
  the place where the name was first committed, and answers accordingly.
-/

namespace JsonShape.Registry

open Grammar

/-- A change of a registry. -/
inductive Change where
  | source (text : List Char)
  | definition (name : String) (rule : Rule)

/-- A registry after a change.  A source text with a fault changes nothing. -/
def apply (registry : Registry) : Change → Registry
  | .source text =>
    match registry.addSource text with
    | .ok added => added
    | .error _ => registry
  | .definition name rule => (registry.replace name rule).2

/-- The registry that changes lead to, from the one without rules. -/
def after (changes : List Change) : Registry := changes.foldl apply empty

/-- The definitions that a change makes. -/
def Change.committed : Change → List Definition
  | .source text =>
    match parseDefinitions text with
    | .ok definitions => definitions
    | .error _ => []
  | .definition name rule => [(name, rule)]

/-- The definitions that some changes make, in order. -/
def committed (changes : List Change) : List Definition := changes.flatMap Change.committed

theorem eq_of_entries_eq {a b : Registry} (same : a.entries = b.entries) : a = b := by
  cases a
  cases b
  cases same
  rfl

theorem defineAll_append (registry : Registry) (a b : List Definition) :
    registry.defineAll (a ++ b) = (registry.defineAll a).defineAll b :=
  eq_of_entries_eq (Entries.putAll_append registry.entries a b)

/-! ## One change -/

theorem replace_eq (registry : Registry) (name : String) (rule : Rule) :
    registry.replace name rule = (registry.get? name, registry.define name rule) := by
  have exchanged := Entries.exchange_eq registry.entries name rule
  have replaced : (registry.replace name rule).1 = registry.get? name :=
    congrArg Prod.fst exchanged
  have entries : (registry.replace name rule).2.entries = (registry.define name rule).entries :=
    congrArg Prod.snd exchanged
  exact Prod.ext replaced (eq_of_entries_eq entries)

section Source

variable {text : List Char}

theorem addSource_of_ok {definitions : List Definition} (registry : Registry)
    (parsed : parseDefinitions text = .ok definitions) :
    registry.addSource text = .ok (registry.defineAll definitions) := by
  rw [addSource, parsed]
  rfl

theorem apply_of_ok {definitions : List Definition} (registry : Registry)
    (parsed : parseDefinitions text = .ok definitions) :
    registry.apply (.source text) = registry.defineAll definitions := by
  rw [apply, addSource_of_ok registry parsed]

theorem apply_of_error {fault : Fault} (registry : Registry)
    (refused : parseDefinitions text = .error fault) :
    registry.apply (.source text) = registry := by
  rw [apply, addSource, refused]
  rfl

theorem committed_of_ok {definitions : List Definition}
    (parsed : parseDefinitions text = .ok definitions) :
    (Change.source text).committed = definitions := by
  rw [Change.committed, parsed]

theorem committed_of_error {fault : Fault} (refused : parseDefinitions text = .error fault) :
    (Change.source text).committed = [] := by
  rw [Change.committed, refused]

/-- A text whose tokens do not all derive definitions changes nothing. -/
theorem apply_of_not_derived (registry : Registry)
    (fails : ¬∃ lexemes definitions, tokenize text = .ok lexemes ∧
      Definitions (lexemes.map Lexeme.token) definitions ∧ Shallow definitions) :
    registry.apply (.source text) = registry := by
  rcases parsed : parseDefinitions text with fault | definitions
  · exact apply_of_error registry parsed
  · obtain ⟨lexemes, tokenized, run⟩ := parseDefinitions_eq_ok_iff.mp parsed
    exact absurd ⟨lexemes, definitions, tokenized, run_declaration_iff.mp run⟩ fails

end Source

/-- A change puts its definitions into the table, one after the other. -/
theorem entries_apply (registry : Registry) (change : Change) :
    (registry.apply change).entries = Entries.putAll registry.entries change.committed := by
  cases change with
  | source text =>
    rcases parsed : parseDefinitions text with fault | definitions
    · rw [apply_of_error registry parsed, committed_of_error parsed]
      rfl
    · rw [apply_of_ok registry parsed, committed_of_ok parsed]
      rfl
  | definition name rule =>
    rw [apply, replace_eq]
    rfl

/-! ## Many changes -/

theorem after_concat (changes : List Change) (change : Change) :
    after (changes ++ [change]) = (after changes).apply change := by
  rw [after, List.foldl_append]
  rfl

theorem committed_concat (changes : List Change) (change : Change) :
    committed (changes ++ [change]) = committed changes ++ change.committed := by
  simp [committed]

/-- The table of a registry is that of all definitions that were made. -/
theorem entries_after (changes : List Change) :
    (after changes).entries = Entries.collect (committed changes) := by
  induction changes using List.reverseRecOn with
  | nil => rfl
  | append_singleton changes change ih =>
    rw [after_concat, entries_apply, ih, committed_concat]
    exact (Entries.putAll_append [] _ _).symm

theorem get?_after (changes : List Change) (name : String) :
    (after changes).get? name = Entries.last? (committed changes) name := by
  rw [get?, entries_after, Entries.get?_collect]

theorem normalize_after (changes : List Change) (value : Json) (name : String) :
    (after changes).normalize value name =
      match Entries.last? (committed changes) name with
      | some rule => .ok (rule.normalize value)
      | none => .error ⟨name⟩ := by
  rw [normalize, resolve, get?_after]
  cases Entries.last? (committed changes) name with
  | none => rfl
  | some rule => rfl

theorem last?_committed_eq_none_iff (changes : List Change) (name : String) :
    Entries.last? (committed changes) name = none ↔
      ∀ change ∈ changes, name ∉ Entries.names change.committed := by
  rw [Entries.last?_eq_none_iff, Entries.names, committed, List.map_flatMap, List.mem_flatMap]
  constructor
  · intro absent change listed found
    exact absent ⟨change, listed, found⟩
  · rintro absent ⟨change, listed, found⟩
    exact absent change listed found

/-- Whatever was added and defined, with or without faults, a registry holds each committed name
once, in the order of first commitments, with the last rule that was committed for it.

A text whose tokens do not all derive definitions changes nothing; a definition answers with the
rule that it replaces; and what a value is normalized to depends on the last committed rule of
the name alone, which is missing if no change committed the name. -/
theorem after_keeps_last_committed (changes : List Change) :
    (after changes).entries = Entries.latest (committed changes) ∧
      (after changes).names.Nodup ∧
      (∀ text : List Char,
        (¬∃ lexemes definitions, tokenize text = .ok lexemes ∧
          Definitions (lexemes.map Lexeme.token) definitions ∧ Shallow definitions) →
        after (changes ++ [.source text]) = after changes) ∧
      (∀ (name : String) (rule : Rule),
        (after changes).replace name rule =
          (Entries.last? (committed changes) name, after (changes ++ [.definition name rule]))) ∧
      (∀ (value : Json) (name : String),
        (after changes).normalize value name =
          match Entries.last? (committed changes) name with
          | some rule => .ok (rule.normalize value)
          | none => .error ⟨name⟩) ∧
      ∀ (value : Json) (name : String),
        (after changes).normalize value name = .error ⟨name⟩ ↔
          ∀ change ∈ changes, name ∉ Entries.names change.committed := by
  refine ⟨?_, (after changes).distinct, ?_, ?_, normalize_after changes, ?_⟩
  · rw [entries_after, Entries.collect_eq_latest]
  · intro text fails
    rw [after_concat, apply_of_not_derived _ fails]
  · intro name rule
    rw [after_concat, apply, replace_eq, get?_after]
  · intro value name
    rw [normalize_after, ← last?_committed_eq_none_iff]
    cases Entries.last? (committed changes) name with
    | none => simp
    | some rule => simp

/-- Texts and definitions in turns; a name is repeated, and one text breaks off. -/
def turns : List Change :=
  [.source "type A = string type B = array type A = boolean".toList, .definition "C" .object,
    .source "type B = number type D = \x7b x".toList, .definition "A" .string]

/-- A text that breaks off in its last definition leaves the last rules as they are. -/
theorem turns_keep_last_committed :
    (¬∃ lexemes definitions, tokenize "type C = array type E =".toList = .ok lexemes ∧
        Definitions (lexemes.map Lexeme.token) definitions ∧ Shallow definitions) ∧
      after (turns ++ [.source "type C = array type E =".toList]) = after turns ∧
      (after turns).entries = [("A", .string), ("B", .array), ("C", .object)] := by
  have committed : committed turns =
      [("A", .string), ("B", .array), ("A", .boolean), ("C", .object), ("A", .string)] := by
    cbv
  have fails : ¬∃ lexemes definitions, tokenize "type C = array type E =".toList = .ok lexemes ∧
      Definitions (lexemes.map Lexeme.token) definitions ∧ Shallow definitions := by
    rintro ⟨lexemes, definitions, tokenized, derived⟩
    obtain ⟨fault, refused⟩ :
        ∃ fault, parseDefinitions "type C = array type E =".toList = .error fault := ⟨_, by cbv⟩
    rw [parseDefinitions_eq_ok_iff.mpr ⟨lexemes, tokenized, run_declaration_iff.mpr derived⟩]
      at refused
    cases refused
  obtain ⟨entries, _, unchanged, _⟩ := after_keeps_last_committed turns
  refine ⟨fails, unchanged _ fails, ?_⟩
  rw [entries, committed]
  rfl

end JsonShape.Registry
