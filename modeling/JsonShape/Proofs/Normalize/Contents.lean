import JsonShape.Proofs.Json.Basic
import JsonShape.Proofs.Normalize.Narrowing
import JsonShape.Proofs.Normalize.Positions

/-!
# What normal forms are made of

A rule builds nothing that is not in the value or in the rule itself.

* `Rule.normalize_cases`: an answer is the value itself, a number literal, or an object of parts of
  the value and of answers of the rules of properties.
* `Rule.normalize_ne_null`: no answer is null.
* `Rule.readable_normalize`: an answer nests no deeper than the value, and its objects name every
  member once.
* `Rule.allNumbers_normalize`: the numbers of an answer are those of the value, and literals.
-/

namespace JsonShape.Rule

variable {rule : Rule} {value normal : Json}

/-- What an accepting rule answers with. -/
theorem normalize_cases (accepted : rule.normalize value = .ok normal) :
    normal = value ∨ (∃ n, rule = numberLiteral n ∧ normal = .number n) ∨
      ∃ fields members entries, rule = pattern fields ∧ value = .object members ∧
        normal = .object (Entries.collect entries) ∧
        ∀ entry ∈ Entries.collect entries, ∃ part, (entry.1, part) ∈ members ∧
          (entry.2 = part ∨
            ∃ inner, ⟨entry.1, some inner⟩ ∈ fields ∧ inner.normalize part = .ok entry.2) := by
  by_cases isPattern : ∃ fields, rule = pattern fields
  · obtain ⟨fields, rfl⟩ := isPattern
    obtain ⟨members, entries, rfl, rfl, all⟩ := exists_of_normalize_pattern accepted
    refine .inr (.inr ⟨fields, members, entries, rfl, rfl, rfl, fun entry collected => ?_⟩)
    obtain ⟨⟨name, own⟩, listed, answer⟩ :=
      exists_step_of_mapM_eq_ok all (Entries.mem_collect collected)
    obtain ⟨named, part, has, kept⟩ := normalizeField_ok answer
    rw [named]
    refine ⟨part, Entries.mem_of_get? has, ?_⟩
    rcases kept with ⟨_, same⟩ | ⟨inner, typed, answers⟩
    · exact .inl same
    · cases typed
      exact .inr ⟨inner, listed, answers⟩
  · by_cases number : ∃ n, rule = numberLiteral n
    · obtain ⟨n, rfl⟩ := number
      obtain ⟨m, rfl, same⟩ := accepts_numberLiteral.mp ⟨normal, accepted⟩
      rw [normalize, if_pos same] at accepted
      exact .inr (.inl ⟨n, rfl, (Except.ok.inj accepted).symm⟩)
    · exact .inl (eq_of_normalize_leaf (fun fields same => isPattern ⟨fields, same⟩)
        (fun n same => number ⟨n, same⟩) accepted)

theorem not_accepts_null (rule : Rule) : ¬rule.Accepts .null := by
  rintro ⟨answer, accepted⟩
  cases rule <;> simp [normalize, wrongKind] at accepted

/-- No rule turns anything into null. -/
theorem normalize_ne_null (rule : Rule) (value : Json) : rule.normalize value ≠ .ok .null := by
  intro accepted
  rcases normalize_cases accepted with rfl | ⟨_, _, same⟩ | ⟨_, _, _, _, _, same, _⟩
  · exact not_accepts_null rule ⟨_, accepted⟩
  · cases same
  · cases same

/-- An answer can be read as far as the value can. -/
theorem readable_normalize {levels : Nat} (readable : value.Readable levels)
    (accepted : rule.normalize value = .ok normal) : normal.Readable levels := by
  induction rule using inductionOn generalizing value normal levels with
  | pattern fields ih =>
    rcases normalize_cases accepted with
      rfl | ⟨n, same, _⟩ | ⟨_, members, entries, same, rfl, rfl, parts⟩
    · exact readable
    · cases same
    · cases same
      cases readable with
      | object _ inner =>
        refine .object (Entries.nodup_names_collect entries) fun entry listed => ?_
        obtain ⟨part, has, same | ⟨own, typed, answers⟩⟩ := parts entry listed
        · rw [same]
          exact inner _ has
        · exact ih _ own typed (inner _ has) answers
  | _ =>
    rcases normalize_cases accepted with rfl | ⟨n, _, rfl⟩ | ⟨_, _, _, same, _⟩
    · exact readable
    · exact .number _ n
    · cases same

/-- What holds of the numbers of a value and of all number literals of a rule holds of the numbers
of the answer. -/
theorem allNumbers_normalize {P : Number → Prop} (all : value.AllNumbers P)
    (literals : ∀ path n, rule.Reaches path (numberLiteral n) → P n)
    (accepted : rule.normalize value = .ok normal) : normal.AllNumbers P := by
  induction rule using inductionOn generalizing value normal with
  | pattern fields ih =>
    rcases normalize_cases accepted with
      rfl | ⟨n, same, _⟩ | ⟨_, members, entries, same, rfl, rfl, parts⟩
    · exact all
    · cases same
    · cases same
      have inner := Json.allNumbers_object.mp all
      refine .object fun entry listed => ?_
      obtain ⟨part, has, same | ⟨own, typed, answers⟩⟩ := parts entry listed
      · rw [same]
        exact inner _ has
      · exact ih _ own typed (inner _ has)
          (fun path n reaches => literals _ n (.property typed reaches)) answers
  | _ =>
    rcases normalize_cases accepted with rfl | ⟨n, same, rfl⟩ | ⟨_, _, _, same, _⟩
    · exact all
    · exact .number (literals [] n (same ▸ .root _))
    · cases same

end JsonShape.Rule
