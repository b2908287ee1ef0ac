import JsonShape.Proofs.Rule.Basic

/-!
# Normalization, property by property

`Rule.normalizeFields` goes through the properties of a pattern and builds the answer on its way.
`Rule.normalizeField` is what it does at one property, and `Rule.normalize_pattern` says that the
whole is nothing but that, property by property, up to the first refusal.

* `mapM_eq_error_iff`, `exists_mapM_eq_ok_iff`: a list of steps fails where its first failing step
  does, and succeeds if all of them do; `exists_mem_of_mapM_eq_ok` finds the result of each.
* `Rule.normalizeField_ok`: what is known of a property that is accepted.
* `Rule.normalize_pattern_error`, `Rule.normalizeField_error`: all ways in which a pattern refuses
  a value.
-/

namespace JsonShape

/-! ## Lists of steps that may fail -/

section Steps

variable {α β ε : Type} {f : α → Except ε β}

theorem mapM_cons_of_ok {a : α} {b : β} (first : f a = .ok b) (as : List α) :
    (a :: as).mapM f = (as.mapM f).map (b :: ·) := by
  rw [List.mapM_cons, first]
  cases as.mapM f <;> rfl

theorem mapM_cons_of_error {a : α} {e : ε} (first : f a = .error e) (as : List α) :
    (a :: as).mapM f = .error e := by
  rw [List.mapM_cons, first]
  rfl

/-- Where all steps succeed, the first one and the others do. -/
theorem mapM_cons_eq_ok {a : α} {as : List α} {bs : List β} (all : (a :: as).mapM f = .ok bs) :
    ∃ b rest, bs = b :: rest ∧ f a = .ok b ∧ as.mapM f = .ok rest := by
  cases first : f a with
  | error e =>
    rw [mapM_cons_of_error first] at all
    cases all
  | ok b =>
    rw [mapM_cons_of_ok first] at all
    cases others : as.mapM f with
    | error e =>
      rw [others] at all
      cases all
    | ok rest =>
      rw [others] at all
      exact ⟨b, rest, (Except.ok.inj all).symm, rfl, rfl⟩

/-- Each step that succeeds is answered by one of the results. -/
theorem exists_mem_of_mapM_eq_ok {as : List α} {bs : List β} (all : as.mapM f = .ok bs) {a : α}
    (listed : a ∈ as) : ∃ b ∈ bs, f a = .ok b := by
  induction as generalizing bs with
  | nil => cases listed
  | cons x as ih =>
    obtain ⟨b, rest, rfl, first, others⟩ := mapM_cons_eq_ok all
    rcases List.mem_cons.mp listed with rfl | later
    · exact ⟨b, List.mem_cons_self, first⟩
    · obtain ⟨c, among, answer⟩ := ih others later
      exact ⟨c, List.mem_cons_of_mem b among, answer⟩

/-- Each result is the answer of one of the steps. -/
theorem exists_step_of_mapM_eq_ok {as : List α} {bs : List β} (all : as.mapM f = .ok bs) {b : β}
    (listed : b ∈ bs) : ∃ a ∈ as, f a = .ok b := by
  induction as generalizing bs with
  | nil =>
    cases all
    cases listed
  | cons a as ih =>
    obtain ⟨c, rest, rfl, first, others⟩ := mapM_cons_eq_ok all
    rcases List.mem_cons.mp listed with rfl | later
    · exact ⟨a, List.mem_cons_self, first⟩
    · obtain ⟨x, among, answer⟩ := ih others later
      exact ⟨x, List.mem_cons_of_mem a among, answer⟩

/-- What each result has in common with its step, all results have with all steps. -/
theorem map_eq_of_mapM_eq_ok {γ : Type} {g : α → γ} {h : β → γ}
    (same : ∀ a b, f a = .ok b → h b = g a) {as : List α} {bs : List β}
    (all : as.mapM f = .ok bs) : bs.map h = as.map g := by
  induction as generalizing bs with
  | nil =>
    cases all
    rfl
  | cons a as ih =>
    obtain ⟨b, rest, rfl, first, others⟩ := mapM_cons_eq_ok all
    rw [List.map_cons, List.map_cons, same a b first, ih others]

/-- Steps that go alike one by one go alike together. -/
theorem mapM_eq_mapM {g : α → Except ε β} {as : List α} (same : ∀ a ∈ as, f a = g a) :
    as.mapM f = as.mapM g := by
  induction as with
  | nil => rfl
  | cons a as ih =>
    rw [List.mapM_cons, List.mapM_cons, same a List.mem_cons_self,
      ih fun b later => same b (List.mem_cons_of_mem a later)]

/-- All steps together succeed exactly if each of them does. -/
theorem exists_mapM_eq_ok_iff {as : List α} :
    (∃ bs, as.mapM f = .ok bs) ↔ ∀ a ∈ as, ∃ b, f a = .ok b := by
  induction as with
  | nil => exact ⟨fun _ => nofun, fun _ => ⟨[], rfl⟩⟩
  | cons a as ih =>
    rw [List.forall_mem_cons, ← ih]
    constructor
    · rintro ⟨bs, all⟩
      obtain ⟨b, rest, _, first, others⟩ := mapM_cons_eq_ok all
      exact ⟨⟨b, first⟩, rest, others⟩
    · rintro ⟨⟨b, first⟩, bs, others⟩
      rw [mapM_cons_of_ok first, others]
      exact ⟨b :: bs, rfl⟩

/-- Where not all steps succeed, the first one fails, or it succeeds and the others fail. -/
theorem mapM_cons_eq_error_iff {a : α} {as : List α} {e : ε} :
    (a :: as).mapM f = .error e ↔
      f a = .error e ∨ (∃ b, f a = .ok b) ∧ as.mapM f = .error e := by
  cases first : f a with
  | error d => simp [mapM_cons_of_error first]
  | ok b =>
    rw [mapM_cons_of_ok first]
    cases as.mapM f <;> simp [Except.map]

/-- The first step that fails decides. -/
theorem mapM_eq_error_iff {as : List α} {e : ε} :
    as.mapM f = .error e ↔
      ∃ before a after, as = before ++ a :: after ∧ (∀ x ∈ before, ∃ b, f x = .ok b) ∧
        f a = .error e := by
  induction as with
  | nil => simp [pure, Except.pure]
  | cons a as ih =>
    rw [mapM_cons_eq_error_iff, ih]
    constructor
    · rintro (fails | ⟨works, before, x, after, rfl, fine, fails⟩)
      · exact ⟨[], a, as, rfl, nofun, fails⟩
      · exact ⟨a :: before, x, after, rfl, List.forall_mem_cons.mpr ⟨works, fine⟩, fails⟩
    · rintro ⟨before, x, after, split, fine, fails⟩
      cases before with
      | nil =>
        obtain ⟨rfl, _⟩ := List.cons.inj split
        exact .inl fails
      | cons y before =>
        obtain ⟨rfl, rfl⟩ := List.cons.inj split
        obtain ⟨works, others⟩ := List.forall_mem_cons.mp fine
        exact .inr ⟨works, before, x, after, rfl, others, fails⟩

end Steps

namespace Rule

/-- What a rule makes of one property of an object: the entry of its answer, or its refusal. -/
def normalizeField (members : List (String × Json)) (field : Field Rule) :
    Except Mismatch (String × Json) :=
  match Entries.get? members field.name with
  | none => .error (.here (.missingProperty field.name))
  | some value =>
    match field.rule with
    | none => .ok (field.name, value)
    | some rule =>
      match rule.normalize value with
      | .ok normalized => .ok (field.name, normalized)
      | .error mismatch => .error (mismatch.within field.name)

theorem normalizeFields_cons (field : Field Rule) (rest : List (Field Rule))
    (members built : List (String × Json)) :
    normalizeFields (field :: rest) members built =
      (normalizeField members field).bind fun entry =>
        normalizeFields rest members (Entries.put built entry.1 entry.2) := by
  obtain ⟨name, _ | rule⟩ := field
  · simp only [normalizeFields, normalizeField]
    cases Entries.get? members name <;> rfl
  · simp only [normalizeFields, normalizeField]
    cases Entries.get? members name with
    | none => rfl
    | some value =>
      dsimp only
      cases rule.normalize value <;> rfl

theorem normalizeFields_eq (fields : List (Field Rule)) (members built : List (String × Json)) :
    normalizeFields fields members built =
      (fields.mapM (normalizeField members)).map (Entries.putAll built) := by
  induction fields generalizing built with
  | nil => rfl
  | cons field rest ih =>
    rw [normalizeFields_cons]
    cases first : normalizeField members field with
    | error mismatch =>
      rw [mapM_cons_of_error first]
      rfl
    | ok entry =>
      rw [mapM_cons_of_ok first]
      simp only [Except.bind, ih]
      cases rest.mapM (normalizeField members) <;> rfl

/-- A pattern normalizes the properties that it lists one by one, and nothing else. -/
theorem normalize_pattern (fields : List (Field Rule)) (members : List (String × Json)) :
    (pattern fields).normalize (.object members) =
      (fields.mapM (normalizeField members)).map fun entries =>
        .object (Entries.collect entries) := by
  simp only [normalize, normalizeFields_eq]
  cases fields.mapM (normalizeField members) <;> rfl

/-- A pattern refuses every value that is no object. -/
theorem normalize_pattern_of_kind_ne (fields : List (Field Rule)) {value : Json}
    (other : value.kind ≠ .object) :
    (pattern fields).normalize value = wrongKind (pattern fields) value := by
  cases value with
  | object members => exact absurd rfl other
  | _ => rfl

/-! ## Acceptance -/

/-- A property that is accepted is there, and its entry bears its name; the entry has the value as
it is if the property has no rule, and what the rule makes of it otherwise. -/
theorem normalizeField_ok {members : List (String × Json)} {field : Field Rule}
    {entry : String × Json} (accepted : normalizeField members field = .ok entry) :
    entry.1 = field.name ∧ ∃ part, Entries.get? members field.name = some part ∧
      ((field.rule = none ∧ entry.2 = part) ∨
        ∃ rule, field.rule = some rule ∧ rule.normalize part = .ok entry.2) := by
  rw [normalizeField] at accepted
  split at accepted
  · cases accepted
  · next part found =>
    split at accepted
    · next untyped =>
      cases accepted
      exact ⟨rfl, part, found, .inl ⟨untyped, rfl⟩⟩
    · next rule typed =>
      split at accepted
      · next normalized answers =>
        cases accepted
        exact ⟨rfl, part, found, .inr ⟨rule, typed, answers⟩⟩
      · cases accepted

/-! ## Refusal -/

/-- A pattern refuses a value that is no object, an object without one of its properties, and an
object in which a property's value is refused; all properties before that one are fine. -/
theorem normalize_pattern_error {fields : List (Field Rule)} {value : Json} {mismatch : Mismatch}
    (refused : (pattern fields).normalize value = .error mismatch) :
    (value.kind ≠ .object ∧ mismatch = .here (.wrongKind [.object] value.kind)) ∨
      ∃ members before field after, value = .object members ∧ fields = before ++ field :: after ∧
        (∀ other ∈ before, ∃ entry, normalizeField members other = .ok entry) ∧
        normalizeField members field = .error mismatch := by
  by_cases kind : value.kind = .object
  · cases value with
    | object members =>
      rw [normalize_pattern] at refused
      have first : fields.mapM (normalizeField members) = .error mismatch := by
        cases all : fields.mapM (normalizeField members) with
        | error other =>
          rw [all] at refused
          rw [Except.error.inj refused]
        | ok entries =>
          rw [all] at refused
          cases refused
      obtain ⟨before, field, after, split, fine, fails⟩ := mapM_eq_error_iff.mp first
      exact .inr ⟨members, before, field, after, rfl, split, fine, fails⟩
    | _ => cases kind
  · rw [normalize_pattern_of_kind_ne fields kind] at refused
    exact .inl ⟨kind, (Except.error.inj refused).symm⟩

/-- A property is refused if it is missing, and otherwise as its value is. -/
theorem normalizeField_error {members : List (String × Json)} {field : Field Rule}
    {mismatch : Mismatch} (refused : normalizeField members field = .error mismatch) :
    (Entries.get? members field.name = none ∧
        mismatch = .here (.missingProperty field.name)) ∨
      ∃ part rule inner, Entries.get? members field.name = some part ∧
        field.rule = some rule ∧ rule.normalize part = .error inner ∧
        mismatch = inner.within field.name := by
  rw [normalizeField] at refused
  split at refused
  · next missing => exact .inl ⟨missing, (Except.error.inj refused).symm⟩
  · next part found =>
    split at refused
    · cases refused
    · next rule own =>
      split at refused
      · cases refused
      · next inner fails =>
        exact .inr ⟨part, rule, inner, found, own, fails, (Except.error.inj refused).symm⟩

end Rule

end JsonShape
