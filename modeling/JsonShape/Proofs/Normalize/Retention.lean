import JsonShape.Proofs.Normalize.Narrowing
import JsonShape.Proofs.Normalize.Positions

/-!
# What normalization retains

The answer of a rule has what the rule lists, taken from the value, and nothing else.

* `Rule.Keeps own part kept` says what a rule makes of a part at its own position.  It holds at
  every position of a rule, between the value and the answer (`Rule.exists_normalize_of_reaches`
  with `Rule.keeps_of_normalize`).
* `Rule.Lists rule path`: the names of `path` lead through patterns that list them, as far as they
  lead through patterns at all.  All members of the answer are listed, and they are members of the
  value (`Rule.retained_of_memberAt?`).
* `Rule.normalize_retains` puts both together.
-/

namespace JsonShape

namespace Rule

/-- What a rule makes of a part at its own position.  A pattern builds an object of exactly the
members that it lists, in its order, and takes over those that have no rule; a number literal
answers with its own spelling for a number that agrees; all other rules take the part over. -/
def Keeps : Rule → Json → Json → Prop
  | pattern fields, part, kept =>
    ∃ members entries, part = .object members ∧ kept = .object entries ∧
      Entries.names entries = fields.map Field.name ∧
      ∀ name, ⟨name, none⟩ ∈ fields → ∃ inner,
        Entries.get? members name = some inner ∧ Entries.get? entries name = some inner
  | numberLiteral n, part, kept => kept = .number n ∧ ∃ m, part = .number m ∧ m.agrees n = true
  | _, part, kept => kept = part

/-- The key paths that a rule lists: a pattern lists the names of its properties, behind one that
has no rule all paths, and behind one that has a rule those that the rule lists; every other rule
lists all paths. -/
inductive Lists : Rule → List String → Prop
  | root (rule : Rule) : Lists rule []
  | whole {rule : Rule} (path : List String) : (∀ fields, rule ≠ pattern fields) → Lists rule path
  | untyped {fields : List (Field Rule)} {name : String} (path : List String) :
    ⟨name, none⟩ ∈ fields → Lists (pattern fields) (name :: path)
  | typed {fields : List (Field Rule)} {name : String} {inner : Rule} {path : List String} :
    ⟨name, some inner⟩ ∈ fields → Lists inner path → Lists (pattern fields) (name :: path)

/-! ## One position -/

/-- In the answer of a pattern a property is found under its name, as it has been accepted. -/
theorem exists_get?_of_mapM {members entries : List (String × Json)} {fields : List (Field Rule)}
    (distinct : (Entries.names entries).Nodup)
    (all : fields.mapM (normalizeField members) = .ok entries) {field : Field Rule}
    (among : field ∈ fields) :
    ∃ part kept, Entries.get? members field.name = some part ∧
      Entries.get? entries field.name = some kept ∧
      ((field.rule = none ∧ kept = part) ∨
        ∃ rule, field.rule = some rule ∧ rule.normalize part = .ok kept) := by
  obtain ⟨entry, given, accepted⟩ := exists_mem_of_mapM_eq_ok all among
  obtain ⟨named, part, found, kept⟩ := normalizeField_ok accepted
  have answer := Entries.get?_of_mem distinct given
  rw [named] at answer
  exact ⟨part, entry.2, found, answer, kept⟩

theorem keeps_of_normalize {rule : Rule} (once : rule.NamesOnce) {part kept : Json}
    (accepted : rule.normalize part = .ok kept) : rule.Keeps part kept := by
  cases rule with
  | pattern fields =>
    obtain ⟨members, entries, rfl, rfl, distinct, all⟩ :=
      normalize_pattern_ok (namesOnce_pattern.mp once).1 accepted
    refine ⟨members, entries, rfl, rfl, names_eq_of_mapM all, fun name among => ?_⟩
    obtain ⟨inner, _, found, answer, ⟨_, rfl⟩ | ⟨_, typed, _⟩⟩ :=
      exists_get?_of_mapM distinct all among
    · exact ⟨_, found, answer⟩
    · cases typed
  | numberLiteral n =>
    obtain ⟨m, rfl, agrees⟩ := accepts_numberLiteral.mp ⟨kept, accepted⟩
    simp only [normalize, agrees, if_true, Except.ok.injEq] at accepted
    exact ⟨accepted.symm, m, rfl, agrees⟩
  | _ => exact eq_of_normalize_leaf (by simp) (by simp) accepted

/-! ## All positions -/

/-- At every position of a rule, the answer has what the rule there makes of the value's part. -/
theorem exists_normalize_of_reaches {rule own : Rule} {path : List String}
    (reaches : rule.Reaches path own) (once : rule.NamesOnce) {value normal : Json}
    (accepted : rule.normalize value = .ok normal) :
    ∃ part kept, value.memberAt? path = some part ∧ normal.memberAt? path = some kept ∧
      own.NamesOnce ∧ own.normalize part = .ok kept := by
  induction reaches generalizing value normal with
  | root rule => exact ⟨value, normal, rfl, rfl, once, accepted⟩
  | @property fields name inner own path among _ ih =>
    obtain ⟨nodup, onceInner⟩ := namesOnce_pattern.mp once
    obtain ⟨members, entries, rfl, rfl, distinct, all⟩ := normalize_pattern_ok nodup accepted
    obtain ⟨child, answer, found, foundToo, ⟨untyped, _⟩ | ⟨_, same, answers⟩⟩ :=
      exists_get?_of_mapM distinct all among
    · cases untyped
    · cases same
      obtain ⟨part, kept, inValue, inNormal, normal⟩ := ih (onceInner name inner among) answers
      exact ⟨part, kept, Json.memberAt?_cons_eq_some.mpr ⟨_, child, rfl, found, inValue⟩,
        Json.memberAt?_cons_eq_some.mpr ⟨_, answer, rfl, foundToo, inNormal⟩, normal⟩

/-- What stands in the answer is listed by the rule, and comes from the same place in the value. -/
theorem retained_of_memberAt? {rule : Rule} (once : rule.NamesOnce) {value normal : Json}
    (accepted : rule.normalize value = .ok normal) {path : List String} {kept : Json}
    (found : normal.memberAt? path = some kept) :
    rule.Lists path ∧ ∃ part, value.memberAt? path = some part ∧
      (kept = part ∨ ∃ own, rule.Reaches path own ∧ own.Keeps part kept) := by
  induction rule using inductionOn generalizing value normal path with
  | pattern fields ih =>
    cases path with
    | nil =>
      cases found
      exact ⟨.root _, value, rfl, .inr ⟨_, .root _, keeps_of_normalize once accepted⟩⟩
    | cons name rest =>
      obtain ⟨nodup, onceInner⟩ := namesOnce_pattern.mp once
      obtain ⟨members, entries, rfl, rfl, distinct, all⟩ := normalize_pattern_ok nodup accepted
      obtain ⟨_, answer, same, has, deeper⟩ := Json.memberAt?_cons_eq_some.mp found
      cases same
      have listed : name ∈ fields.map Field.name := by
        rw [← names_eq_of_mapM all]
        exact Entries.mem_names_iff.mpr ⟨answer, has⟩
      obtain ⟨⟨name, option⟩, among, rfl⟩ := List.mem_map.mp listed
      obtain ⟨child, _, inValue, inNormal, kind⟩ := exists_get?_of_mapM distinct all among
      cases has.symm.trans inNormal
      rcases kind with ⟨rfl, rfl⟩ | ⟨inner, rfl, answers⟩
      · exact ⟨.untyped rest among, kept,
          Json.memberAt?_cons_eq_some.mpr ⟨_, _, rfl, inValue, deeper⟩, .inl rfl⟩
      · obtain ⟨lists, part, below, origin⟩ :=
          ih name inner among (onceInner name inner among) answers deeper
        refine ⟨.typed among lists, part,
          Json.memberAt?_cons_eq_some.mpr ⟨_, child, rfl, inValue, below⟩, origin.imp_right ?_⟩
        rintro ⟨own, reaches, keeps⟩
        exact ⟨own, .property among reaches, keeps⟩
  | numberLiteral n =>
    refine ⟨.whole path (by simp), ?_⟩
    obtain ⟨rfl, _⟩ := keeps_of_normalize once accepted
    cases path with
    | nil =>
      cases found
      exact ⟨value, rfl, .inr ⟨_, .root _, keeps_of_normalize once accepted⟩⟩
    | cons name rest => cases found
  | _ =>
    have same := eq_of_normalize_leaf (by simp) (by simp) accepted
    rw [same] at found
    exact ⟨.whole path (by simp), kept, found, .inl rfl⟩

/-- Normalization to a rule that names nothing twice neither invents, nor coerces, nor loses what
is listed.  At every position of the rule the answer holds what the rule there makes of the part
that the value holds.  And whatever stands in the answer is listed, and under the same names the
value holds it as it is, or a part that a position of the rule makes it of. -/
theorem normalize_retains {rule : Rule} (once : rule.NamesOnce) {value normal : Json}
    (accepted : rule.normalize value = .ok normal) :
    (∀ path own, rule.Reaches path own →
      ∃ part kept, value.memberAt? path = some part ∧ normal.memberAt? path = some kept ∧
        own.Keeps part kept) ∧
    ∀ path kept, normal.memberAt? path = some kept →
      rule.Lists path ∧ ∃ part, value.memberAt? path = some part ∧
        (kept = part ∨ ∃ own, rule.Reaches path own ∧ own.Keeps part kept) := by
  refine ⟨fun path own reaches => ?_, fun path kept => retained_of_memberAt? once accepted⟩
  obtain ⟨part, kept, inValue, inNormal, onceOwn, answers⟩ :=
    exists_normalize_of_reaches reaches once accepted
  exact ⟨part, kept, inValue, inNormal, keeps_of_normalize onceOwn answers⟩

/-- A pattern with a number literal and a property without a rule inside another pattern. -/
def meteredPattern : Rule :=
  pattern [⟨"at", some (pattern [⟨"x", some (numberLiteral (.integer 0 (by decide)))⟩,
    ⟨"raw", none⟩])⟩, ⟨"items", some array⟩]

/-- An object that `meteredPattern` accepts: another order, more members, and another zero. -/
def meteredObject : Json :=
  .object [("items", .array [.null]), ("more", .null),
    ("at", .object [("raw", .object [("deep", .null)]), ("x", .number (.double (.zero true))),
      ("y", .null)])]

/-- The answer of `meteredPattern` for `meteredObject`. -/
def meteredAnswer : Json :=
  .object [("at", .object [("x", .number (.integer 0 (by decide))),
    ("raw", .object [("deep", .null)])]), ("items", .array [.null])]

/-- The zero of the value is spelled as the rule has it, and what is inside a property without a
rule is taken over. -/
theorem meteredPattern_retains :
    meteredPattern.NamesOnce ∧ meteredPattern.normalize meteredObject = .ok meteredAnswer ∧
      (∃ part kept, meteredObject.memberAt? ["at", "x"] = some part ∧
        meteredAnswer.memberAt? ["at", "x"] = some kept ∧
        (numberLiteral (.integer 0 (by decide))).Keeps part kept) ∧
      meteredPattern.Lists ["at", "raw", "deep"] := by
  have once : meteredPattern.NamesOnce := by simp [meteredPattern, NamesOnce, NamesOnceFields]
  have zeros : (Number.double (.zero true)).agrees (.integer 0 (by decide)) = true := by
    decide +kernel
  have accepted : meteredPattern.normalize meteredObject = .ok meteredAnswer := by
    simp [meteredPattern, meteredObject, meteredAnswer, normalize, normalizeFields, Entries.get?,
      Entries.put, Except.map, zeros]
  obtain ⟨positions, members⟩ := normalize_retains once accepted
  refine ⟨once, accepted, positions _ _ ?_, (members _ .null ?_).1⟩
  · exact .property List.mem_cons_self (.property List.mem_cons_self (.root _))
  · simp [meteredAnswer, Json.memberAt?, Json.member?, Entries.get?]

end Rule

end JsonShape
