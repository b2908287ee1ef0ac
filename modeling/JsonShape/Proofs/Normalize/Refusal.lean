import JsonShape.Proofs.Json.Pointer
import JsonShape.Proofs.Normalize.Positions

/-!
# Refusals

A refusal names a part of the value and a reason.  The path leads to that part of the value and,
along the same names, to a part of the rule; and that part of the rule refuses that part of the
value by itself, for the same reason.

* `Rule.refusal_reaches` says so of the names of the path, whatever the rule lists.
* `Rule.refusal_at_path` says so of the path's text, as a reader of pointers takes it, where no
  pattern lists a name twice.
-/

namespace JsonShape

/-- Names that lead through nested objects lead a pointer to the same part. -/
theorem Json.at?_of_memberAt? {value part : Json} {path : List String}
    (found : value.memberAt? path = some part) : value.at? path = some part := by
  induction path generalizing value with
  | nil => exact found
  | cons name rest ih =>
    obtain ⟨members, child, rfl, has, deeper⟩ := memberAt?_cons_eq_some.mp found
    rw [at?, child?, has]
    exact ih deeper

namespace Rule

/-- A rule that is no pattern refuses a value for its kind, or for not being the one it names. -/
theorem refusal_of_ne_pattern {rule : Rule} {value : Json} {mismatch : Mismatch}
    (leaf : ∀ fields, rule ≠ pattern fields) (refused : rule.normalize value = .error mismatch) :
    mismatch = .here (.wrongKind rule.kinds value.kind) ∨
      mismatch = .here (.notEqual rule value) := by
  have ofKind (other : wrongKind rule value = .error mismatch) :
      mismatch = .here (.wrongKind rule.kinds value.kind) := (Except.error.inj other).symm
  have ofValue {p : Prop} [Decidable p] {answer : Json}
      (other : (if p then .ok answer else notEqual rule value) = Except.error mismatch) :
      mismatch = .here (.notEqual rule value) := by
    split at other
    · cases other
    · exact (Except.error.inj other).symm
  cases rule with
  | pattern fields => exact absurd rfl (leaf fields)
  | _ =>
    cases value <;>
      first
      | exact .inl (ofKind refused)
      | exact .inr (ofValue refused)
      | cases refused

/-- A refusal comes from the rule itself or from a property of a pattern. -/
theorem normalize_error {rule : Rule} {value : Json} {mismatch : Mismatch}
    (refused : rule.normalize value = .error mismatch) :
    mismatch.path = [] ∨
      ∃ fields members name own part inner, rule = pattern fields ∧ value = .object members ∧
        ⟨name, some own⟩ ∈ fields ∧ Entries.get? members name = some part ∧
        own.normalize part = .error inner ∧ mismatch = inner.within name := by
  cases rule with
  | pattern fields =>
    rcases normalize_pattern_error refused with
      ⟨_, rfl⟩ | ⟨members, before, ⟨name, option⟩, after, rfl, rfl, _, fails⟩
    · exact .inl rfl
    · rcases normalizeField_error fails with
        ⟨_, rfl⟩ | ⟨part, own, inner, found, rfl, refuses, rfl⟩
      · exact .inl rfl
      · exact .inr ⟨_, members, name, own, part, inner, rfl, rfl, by simp, found, refuses, rfl⟩
  | _ =>
    rcases refusal_of_ne_pattern (by simp) refused with rfl | rfl
    · exact .inl rfl
    · exact .inl rfl

/-- A property is missing where an object lacks it and a pattern lists it. -/
theorem missingProperty_here {rule : Rule} {value : Json} {name : String}
    (refused : rule.normalize value = .error (.here (.missingProperty name))) :
    ∃ fields members, rule = pattern fields ∧ value = .object members ∧
      name ∈ fields.map Field.name ∧ name ∉ Entries.names members := by
  cases rule with
  | pattern fields =>
    rcases normalize_pattern_error refused with
      ⟨_, same⟩ | ⟨members, before, field, after, rfl, rfl, _, fails⟩
    · cases same
    · rcases normalizeField_error fails with ⟨missing, same⟩ | ⟨_, _, _, _, _, _, same⟩
      · cases same
        exact ⟨_, members, rfl, rfl, by simp, (Entries.get?_eq_none_iff members _).mp missing⟩
      · cases same
  | _ =>
    rcases refusal_of_ne_pattern (by simp) refused with same | same
    · cases same
    · cases same

/-- The path of a refusal leads in the value and in the rule to parts of which the one refuses the
other by itself, also where a pattern lists a name twice. -/
theorem refusal_reaches {rule : Rule} {value : Json} {mismatch : Mismatch}
    (refused : rule.normalize value = .error mismatch) :
    ∃ own part, rule.Reaches mismatch.path own ∧ value.memberAt? mismatch.path = some part ∧
      own.normalize part = .error (.here mismatch.reason) := by
  induction rule using inductionOn generalizing value mismatch with
  | pattern fields ih =>
    rcases normalize_error refused with
      root | ⟨_, members, name, inner, child, deeper, same, rfl, listed, found, refuses, rfl⟩
    · refine ⟨pattern fields, value, by rw [root]; exact .root _, by rw [root]; rfl, ?_⟩
      rw [refused, Mismatch.here, ← root]
    · cases same
      obtain ⟨own, part, reaches, inValue, here⟩ := ih name inner listed refuses
      refine ⟨own, part, .property listed reaches, ?_, here⟩
      exact Json.memberAt?_cons_eq_some.mpr ⟨members, child, rfl, found, inValue⟩
  | _ =>
    rcases normalize_error refused with root | ⟨_, _, _, _, _, _, same, _⟩
    · refine ⟨_, value, by rw [root]; exact .root _, by rw [root]; rfl, ?_⟩
      rw [refused, Mismatch.here, ← root]
    · cases same

/-- Where no pattern lists a name twice, a position is found by its names. -/
theorem Reaches.at?_eq {rule own : Rule} {path : List String} (reaches : rule.Reaches path own)
    (once : rule.NamesOnce) : rule.at? path = some own := by
  induction reaches with
  | root => rfl
  | property listed _ ih =>
    obtain ⟨nodup, onceInner⟩ := namesOnce_pattern.mp once
    rw [at?, child?_of_mem nodup listed]
    exact ih (onceInner _ _ listed)

/-- The path of a refusal leads in the value and in the rule to parts of which the one refuses the
other by itself. -/
theorem refusal_at_names {rule : Rule} (once : rule.NamesOnce) {value : Json}
    {mismatch : Mismatch} (refused : rule.normalize value = .error mismatch) :
    ∃ part own, value.at? mismatch.path = some part ∧ rule.at? mismatch.path = some own ∧
      own.normalize part = .error (.here mismatch.reason) := by
  obtain ⟨own, part, reaches, inValue, here⟩ := refusal_reaches refused
  exact ⟨part, own, Json.at?_of_memberAt? inValue, reaches.at?_eq once, here⟩

/-- A refusal is true.  Its path, read as the text of a pointer, leads to a part of the value; the
same names lead to a part of the rule; and that one refuses this one at its root, for the same
reason.  In particular a missing property is missing in an object there, and listed by a
pattern. -/
theorem refusal_at_path {rule : Rule} (once : rule.NamesOnce) {value : Json}
    {mismatch : Mismatch} (refused : rule.normalize value = .error mismatch) :
    ∃ names part own, Pointer.parse? mismatch.path.render.toList = some names ∧
      value.at? names = some part ∧ rule.at? names = some own ∧
      own.normalize part = .error ⟨[], mismatch.reason⟩ ∧
      ∀ name, mismatch.reason = .missingProperty name →
        ∃ fields members, own = pattern fields ∧ part = .object members ∧
          name ∈ fields.map Field.name ∧ name ∉ Entries.names members := by
  obtain ⟨part, own, inValue, inRule, same⟩ := refusal_at_names once refused
  have read : Pointer.parse? mismatch.path.render.toList = some mismatch.path := by
    rw [Pointer.render, String.toList_ofList, Pointer.parse?_chars]
  refine ⟨mismatch.path, part, own, read, inValue, inRule, same, ?_⟩
  intro name missing
  rw [missing] at same
  exact missingProperty_here same

/-- A pattern with a slash, an escape and an empty name among its names. -/
def slashedNames : Rule :=
  pattern [⟨"a/b", some (pattern [⟨"~1", none⟩, ⟨"", none⟩])⟩]

/-- The empty name is missing behind a name with a slash. -/
theorem refusal_behind_slash :
    slashedNames.NamesOnce ∧
      slashedNames.normalize (.object [("0", .null), ("a/b", .object [("~1", .null)])]) =
        .error ⟨["a/b"], .missingProperty ""⟩ ∧
      ∃ names part own, Pointer.parse? (Pointer.render ["a/b"]).toList = some names ∧
        Json.at? (.object [("0", .null), ("a/b", .object [("~1", .null)])]) names = some part ∧
        slashedNames.at? names = some own ∧
        own.normalize part = .error ⟨[], .missingProperty ""⟩ ∧
        ∀ name, Reason.missingProperty "" = .missingProperty name →
          ∃ fields members, own = pattern fields ∧ part = .object members ∧
            name ∈ fields.map Field.name ∧ name ∉ Entries.names members := by
  have once : slashedNames.NamesOnce := by
    simp [slashedNames, NamesOnce, NamesOnceFields]
  have refused : slashedNames.normalize
      (.object [("0", .null), ("a/b", .object [("~1", .null)])]) =
        .error ⟨["a/b"], .missingProperty ""⟩ := by
    simp [slashedNames, normalize, normalizeFields, Entries.get?, Mismatch.here, Mismatch.within,
      Except.map]
  exact ⟨once, refused, refusal_at_path once refused⟩

end Rule

end JsonShape
