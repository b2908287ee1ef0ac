import JsonShape.Proofs.Entries
import JsonShape.Proofs.Normalize.Acceptance
import Mathlib.Data.List.Perm.Subperm

/-!
# Narrower rules

`Rule.Narrows narrower rule` says that `narrower` is `rule` with properties dropped and reordered
in its patterns, at any depth.  Normalizing to a rule and then to a narrower one is normalizing to
the narrower one at once; in particular, normalizing twice is normalizing once.

* `normalizeField_narrowed`: one property, in an object and in the object that it normalizes to.
* `Rule.normalize_narrowed` puts the properties of a pattern together, by induction on the rule.
* `Rule.narrows_normalize` states the composition and what it says of the rule itself.
-/

namespace JsonShape

theorem Number.agrees_self (n : Number) : n.agrees n = true := by
  cases n <;> simp [agrees]

namespace Rule

mutual

/-- The narrower rule is the other one with some properties of its patterns, in any order, each
with its own rule narrowed. -/
inductive Narrows : Rule → Rule → Prop
  | same (rule : Rule) : Narrows rule rule
  | pattern {kept narrowed fields : List (Field Rule)} :
    NarrowsFields narrowed fields → kept.Subperm narrowed →
    Narrows (.pattern kept) (.pattern fields)

/-- Properties of the same names in the same order, their rules narrowed. -/
inductive NarrowsFields : List (Field Rule) → List (Field Rule) → Prop
  | nil : NarrowsFields [] []
  | untyped {narrowed fields : List (Field Rule)} (name : String) :
    NarrowsFields narrowed fields →
    NarrowsFields (⟨name, none⟩ :: narrowed) (⟨name, none⟩ :: fields)
  | typed {narrower rule : Rule} {narrowed fields : List (Field Rule)} (name : String) :
    Narrows narrower rule → NarrowsFields narrowed fields →
    NarrowsFields (⟨name, some narrower⟩ :: narrowed) (⟨name, some rule⟩ :: fields)

end

/-- A property that is narrowed to another one. -/
inductive NarrowsField : Field Rule → Field Rule → Prop
  | untyped (name : String) : NarrowsField ⟨name, none⟩ ⟨name, none⟩
  | typed {narrower rule : Rule} (name : String) :
    Narrows narrower rule → NarrowsField ⟨name, some narrower⟩ ⟨name, some rule⟩

theorem NarrowsFields.refl : ∀ fields : List (Field Rule), NarrowsFields fields fields
  | [] => .nil
  | ⟨name, none⟩ :: rest => .untyped name (refl rest)
  | ⟨name, some rule⟩ :: rest => .typed name (.same rule) (refl rest)

/-- Every narrowed property comes from one of the properties. -/
theorem NarrowsFields.exists_of_mem {narrowed fields : List (Field Rule)} {own : Field Rule} :
    NarrowsFields narrowed fields → own ∈ narrowed → ∃ field ∈ fields, NarrowsField own field
  | .untyped name rest, listed => by
    rcases List.mem_cons.mp listed with rfl | later
    · exact ⟨_, List.mem_cons_self, .untyped name⟩
    · obtain ⟨field, among, narrows⟩ := rest.exists_of_mem later
      exact ⟨field, List.mem_cons_of_mem _ among, narrows⟩
  | .typed name narrows rest, listed => by
    rcases List.mem_cons.mp listed with rfl | later
    · exact ⟨_, List.mem_cons_self, .typed name narrows⟩
    · obtain ⟨field, among, narrows⟩ := rest.exists_of_mem later
      exact ⟨field, List.mem_cons_of_mem _ among, narrows⟩

/-- A rule that narrows a pattern is a pattern of narrowed properties. -/
theorem Narrows.exists_pattern {narrower : Rule} {fields : List (Field Rule)}
    (narrows : Narrows narrower (.pattern fields)) :
    ∃ kept, narrower = .pattern kept ∧ ∀ own ∈ kept, ∃ field ∈ fields, NarrowsField own field := by
  cases narrows with
  | same => exact ⟨fields, rfl, fun own listed => (NarrowsFields.refl fields).exists_of_mem listed⟩
  | pattern narrowed part =>
    exact ⟨_, rfl, fun own listed => narrowed.exists_of_mem (part.subset listed)⟩

/-- Only patterns have narrower rules other than themselves. -/
theorem Narrows.eq_of_ne_pattern {narrower rule : Rule} (narrows : Narrows narrower rule)
    (leaf : ∀ fields, rule ≠ .pattern fields) : narrower = rule := by
  cases narrows with
  | same => rfl
  | pattern => exact absurd rfl (leaf _)

/-! ## Normal forms -/

/-- A rule that is neither a pattern nor a number literal takes a value over as it is. -/
theorem eq_of_normalize_leaf {rule : Rule} {value normal : Json}
    (notPattern : ∀ fields, rule ≠ .pattern fields) (notNumber : ∀ n, rule ≠ .numberLiteral n)
    (accepted : rule.normalize value = .ok normal) : normal = value := by
  have ofKind (same : (.ok value : Except Mismatch Json) = .ok normal) : normal = value :=
    (Except.ok.inj same).symm
  have ofValue {p : Prop} [Decidable p]
      (same : (if p then .ok value else notEqual rule value) = Except.ok normal) :
      normal = value := by
    split at same
    · exact ofKind same
    · cases same
  cases rule with
  | pattern fields => exact absurd rfl (notPattern fields)
  | numberLiteral n => exact absurd rfl (notNumber n)
  | _ =>
    cases value <;>
      first
      | exact ofKind accepted
      | exact ofValue accepted
      | cases accepted

/-- What a rule that is no pattern gives, it takes over as it is. -/
theorem normalize_normal_of_ne_pattern {rule : Rule} {value normal : Json}
    (notPattern : ∀ fields, rule ≠ .pattern fields)
    (accepted : rule.normalize value = .ok normal) : rule.normalize normal = .ok normal := by
  by_cases number : ∃ n, rule = .numberLiteral n
  · obtain ⟨n, rfl⟩ := number
    obtain ⟨m, rfl, same⟩ := accepts_numberLiteral.mp ⟨normal, accepted⟩
    simp only [normalize, same, if_true, Except.ok.injEq] at accepted
    rw [← accepted, normalize, if_pos n.agrees_self]
  · have same := eq_of_normalize_leaf notPattern (fun n isNumber => number ⟨n, isNumber⟩) accepted
    rw [← same] at accepted
    exact accepted

/-- The entries that a pattern gives stand under the names of its properties, in their order. -/
theorem names_eq_of_mapM {members entries : List (String × Json)} {fields : List (Field Rule)}
    (all : fields.mapM (normalizeField members) = .ok entries) :
    Entries.names entries = fields.map Field.name := by
  exact map_eq_of_mapM_eq_ok (fun field entry own => (normalizeField_ok own).1) all

/-- What a pattern accepts is an object, and it gives an object of the entries of its properties. -/
theorem exists_of_normalize_pattern {fields : List (Field Rule)} {value normal : Json}
    (accepted : (pattern fields).normalize value = .ok normal) :
    ∃ members entries, value = .object members ∧ normal = .object (Entries.collect entries) ∧
      fields.mapM (normalizeField members) = .ok entries := by
  by_cases kind : value.kind = .object
  · cases value with
    | object members =>
      rw [normalize_pattern] at accepted
      cases all : fields.mapM (normalizeField members) with
      | error mismatch =>
        rw [all] at accepted
        cases accepted
      | ok entries =>
        rw [all] at accepted
        exact ⟨members, entries, rfl, (Except.ok.inj accepted).symm, all⟩
    | _ => cases kind
  · rw [normalize_pattern_of_kind_ne fields kind] at accepted
    cases accepted

/-- Where the names of the properties are distinct, the entries stand in the object as they are. -/
theorem normalize_pattern_ok {fields : List (Field Rule)} {value normal : Json}
    (distinct : (fields.map Field.name).Nodup)
    (accepted : (pattern fields).normalize value = .ok normal) :
    ∃ members entries, value = .object members ∧ normal = .object entries ∧
      (Entries.names entries).Nodup ∧ fields.mapM (normalizeField members) = .ok entries := by
  obtain ⟨members, entries, isObject, given, all⟩ := exists_of_normalize_pattern accepted
  have once : (Entries.names entries).Nodup := names_eq_of_mapM all ▸ distinct
  exact ⟨members, entries, isObject,
    given.trans (congrArg Json.object (Entries.collect_of_nodup once)), once, all⟩

/-! ## Narrowing -/

/-- A property that is narrowed gives the same entry for an object as for what the object is
normalized to, if narrowing the property's own rule does. -/
theorem normalizeField_narrowed {members entries : List (String × Json)} {own field : Field Rule}
    {entry : String × Json} (narrows : NarrowsField own field)
    (accepted : normalizeField members field = .ok entry)
    (found : Entries.get? entries entry.1 = some entry.2)
    (inner : ∀ rule, field.rule = some rule → ∀ narrower : Rule, narrower.Narrows rule →
      ∀ part normal : Json, rule.normalize part = .ok normal →
        ∃ answer, narrower.normalize normal = .ok answer ∧ narrower.normalize part = .ok answer) :
    ∃ result,
      normalizeField entries own = .ok result ∧ normalizeField members own = .ok result := by
  obtain ⟨named, part, has, kept⟩ := normalizeField_ok accepted
  rw [named] at found
  cases narrows with
  | untyped name =>
    rcases kept with ⟨_, same⟩ | ⟨_, typed, _⟩
    · refine ⟨(name, part), ?_, ?_⟩
      · simp only [normalizeField, found, same]
      · simp only [normalizeField, has]
    · cases typed
  | typed name narrows =>
    rcases kept with ⟨untyped, _⟩ | ⟨_, typed, answers⟩
    · cases untyped
    · cases typed
      obtain ⟨answer, again, once⟩ := inner _ rfl _ narrows part entry.2 answers
      refine ⟨(name, answer), ?_, ?_⟩
      · simp only [normalizeField, found, again]
      · simp only [normalizeField, has, once]

/-- What a rule gives for a value, a narrower rule takes as it takes the value. -/
theorem normalize_narrowed {rule narrower : Rule} (once : rule.NamesOnce)
    (narrows : narrower.Narrows rule) {value normal : Json}
    (accepted : rule.normalize value = .ok normal) :
    ∃ answer, narrower.normalize normal = .ok answer ∧ narrower.normalize value = .ok answer := by
  induction rule using inductionOn generalizing narrower value normal with
  | pattern fields ih =>
    obtain ⟨distinct, onceInner⟩ := namesOnce_pattern.mp once
    obtain ⟨kept, rfl, origin⟩ := narrows.exists_pattern
    obtain ⟨members, entries, rfl, rfl, onceEntries, all⟩ := normalize_pattern_ok distinct accepted
    have alike : ∀ own ∈ kept, ∃ result, normalizeField entries own = .ok result ∧
        normalizeField members own = .ok result := by
      intro own listed
      obtain ⟨field, among, narrowsField⟩ := origin own listed
      obtain ⟨entry, given, answers⟩ := exists_mem_of_mapM_eq_ok all among
      -- Only because no name is listed twice, the entry is the one that is found under its name.
      refine normalizeField_narrowed narrowsField answers
        (Entries.get?_of_mem onceEntries given) ?_
      obtain ⟨name, option⟩ := field
      rintro rule rfl narrower narrows part normal
      exact ih name rule among (onceInner name rule among) narrows
    obtain ⟨results, success⟩ : ∃ results, kept.mapM (normalizeField members) = .ok results :=
      exists_mapM_eq_ok_iff.mpr fun own listed => (alike own listed).imp fun _ => And.right
    have again : kept.mapM (normalizeField entries) = .ok results := by
      rw [← success]
      refine mapM_eq_mapM fun own listed => ?_
      obtain ⟨result, first, second⟩ := alike own listed
      rw [first, second]
    exact ⟨.object (Entries.collect results), by rw [normalize_pattern, again]; rfl,
      by rw [normalize_pattern, success]; rfl⟩
  | _ =>
    have same := narrows.eq_of_ne_pattern (by simp)
    rw [same]
    exact ⟨normal, normalize_normal_of_ne_pattern (by simp) accepted, accepted⟩

/-- Normalizing to a rule that names nothing twice, and then to a narrower one, is normalizing to
the narrower one at once; and what is normal already stays as it is. -/
theorem narrows_normalize {rule narrower : Rule} (once : rule.NamesOnce)
    (narrows : narrower.Narrows rule) {value normal : Json}
    (accepted : rule.normalize value = .ok normal) :
    (∃ answer, narrower.normalize normal = .ok answer ∧ narrower.normalize value = .ok answer) ∧
      rule.normalize normal = .ok normal := by
  refine ⟨normalize_narrowed once narrows accepted, ?_⟩
  obtain ⟨answer, again, before⟩ := normalize_narrowed once (.same rule) accepted
  rw [again, ← before, accepted]

/-- A pattern with a pattern inside. -/
def widePattern : Rule :=
  pattern [⟨"a", some (pattern [⟨"b", none⟩, ⟨"c", some string⟩])⟩, ⟨"d", some boolean⟩,
    ⟨"e", none⟩]

/-- The same pattern in another order, without one property outside and one inside. -/
def narrowPattern : Rule :=
  pattern [⟨"e", none⟩, ⟨"a", some (pattern [⟨"c", some string⟩])⟩]

theorem narrowPattern_narrows : narrowPattern.Narrows widePattern := by
  have inner : Narrows (pattern [⟨"c", some string⟩]) (pattern [⟨"b", none⟩, ⟨"c", some string⟩]) :=
    .pattern (.refl _) (List.Sublist.cons _ (.refl _)).subperm
  have outer := NarrowsFields.typed "a" inner (.refl [⟨"d", some boolean⟩, ⟨"e", none⟩])
  refine .pattern outer ⟨[⟨"a", some (pattern [⟨"c", some string⟩])⟩, ⟨"e", none⟩], .swap .., ?_⟩
  exact .cons_cons _ (.cons _ (.refl _))

/-- An object that is normalized to the wide pattern and then to the narrow one. -/
theorem narrowPattern_normalize :
    widePattern.NamesOnce ∧ narrowPattern.Narrows widePattern ∧
      widePattern.normalize (.object [("x", .null), ("e", .null), ("d", .bool true),
        ("a", .object [("c", .string "s"), ("y", .null), ("b", .array [])])]) =
        .ok (.object [("a", .object [("b", .array []), ("c", .string "s")]), ("d", .bool true),
          ("e", .null)]) ∧
      narrowPattern.normalize (.object [("a", .object [("b", .array []), ("c", .string "s")]),
        ("d", .bool true), ("e", .null)]) =
        .ok (.object [("e", .null), ("a", .object [("c", .string "s")])]) := by
  have once : widePattern.NamesOnce := by simp [widePattern, NamesOnce, NamesOnceFields]
  have accepted : widePattern.normalize (.object [("x", .null), ("e", .null), ("d", .bool true),
      ("a", .object [("c", .string "s"), ("y", .null), ("b", .array [])])]) =
      .ok (.object [("a", .object [("b", .array []), ("c", .string "s")]), ("d", .bool true),
        ("e", .null)]) := by
    simp [widePattern, normalize, normalizeFields, Entries.get?, Entries.put, Except.map]
  have direct : narrowPattern.normalize (.object [("x", .null), ("e", .null), ("d", .bool true),
      ("a", .object [("c", .string "s"), ("y", .null), ("b", .array [])])]) =
      .ok (.object [("e", .null), ("a", .object [("c", .string "s")])]) := by
    simp [narrowPattern, normalize, normalizeFields, Entries.get?, Entries.put, Except.map]
  obtain ⟨⟨answer, after, before⟩, _⟩ := narrows_normalize once narrowPattern_narrows accepted
  rw [before] at direct
  exact ⟨once, narrowPattern_narrows, accepted, after.trans direct⟩

end Rule

end JsonShape
