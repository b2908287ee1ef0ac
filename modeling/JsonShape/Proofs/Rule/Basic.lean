import JsonShape.Normalize

/-!
# Rules and their parts

* `Rule.inductionOn`: induction on rules, in which a pattern may use what holds of the rules of
  its properties.
* `Rule.NamesOnce` holds of the rules in which no pattern lists a name twice.  Source text denotes
  no others (`Rule.Distinct.namesOnce`).
* `Rule.at?` follows the names of properties into a rule.
-/

namespace JsonShape.Rule

/-- Induction on rules.  Of a pattern something has to be shown if it holds of the rules of all
its properties. -/
@[elab_as_elim]
theorem inductionOn {motive : Rule → Prop} (rule : Rule) (array : motive array)
    (boolean : motive boolean) (booleanLiteral : ∀ value, motive (booleanLiteral value))
    (enumeration : ∀ members, motive (enumeration members))
    (numberLiteral : ∀ value, motive (numberLiteral value)) (number : motive number)
    (object : motive object)
    (pattern : ∀ fields : List (Field Rule),
      (∀ name rule, ⟨name, some rule⟩ ∈ fields → motive rule) → motive (pattern fields))
    (stringLiteral : ∀ value, motive (stringLiteral value)) (string : motive string) :
    motive rule := by
  refine @Rule.rec motive (fun fields => ∀ name rule, ⟨name, some rule⟩ ∈ fields → motive rule)
    (fun field => ∀ rule, field.rule = some rule → motive rule)
    (fun option => ∀ rule, option = some rule → motive rule)
    array boolean booleanLiteral enumeration numberLiteral number object pattern stringLiteral
    string ?_ ?_ ?_ ?_ ?_ rule
  · intro name rule listed
    cases listed
  · intro field fields first others name rule listed
    rcases List.mem_cons.mp listed with same | later
    · exact first rule (congrArg Field.rule same).symm
    · exact others name rule later
  · intro name option holds
    exact holds
  · intro rule same
    cases same
  · intro own holds rule same
    cases same
    exact holds

/-! ## Names listed once -/

mutual

/-- No pattern of a rule lists a name twice. -/
def NamesOnce : Rule → Prop
  | pattern fields => (fields.map Field.name).Nodup ∧ NamesOnceFields fields
  | _ => True

/-- No pattern of the rules of some properties lists a name twice. -/
def NamesOnceFields : List (Field Rule) → Prop
  | [] => True
  | ⟨_, none⟩ :: rest => NamesOnceFields rest
  | ⟨_, some rule⟩ :: rest => NamesOnce rule ∧ NamesOnceFields rest

end

theorem namesOnceFields_iff {fields : List (Field Rule)} :
    NamesOnceFields fields ↔ ∀ name rule, ⟨name, some rule⟩ ∈ fields → NamesOnce rule := by
  induction fields with
  | nil => simp [NamesOnceFields]
  | cons field rest ih =>
    obtain ⟨own, _ | rule⟩ := field
    · simp [NamesOnceFields, ih]
    · simp only [NamesOnceFields, ih, List.mem_cons, Field.mk.injEq, Option.some.injEq]
      constructor
      · rintro ⟨first, others⟩ name rule (⟨rfl, rfl⟩ | later)
        · exact first
        · exact others name rule later
      · intro all
        exact ⟨all own rule (.inl ⟨rfl, rfl⟩), fun name rule later => all name rule (.inr later)⟩

theorem namesOnce_pattern {fields : List (Field Rule)} :
    (pattern fields).NamesOnce ↔
      (fields.map Field.name).Nodup ∧
        ∀ name rule, ⟨name, some rule⟩ ∈ fields → NamesOnce rule := by
  rw [NamesOnce, namesOnceFields_iff]

mutual

/-- A rule that source text can denote lists no name twice. -/
theorem Distinct.namesOnce : ∀ rule : Rule, rule.Distinct → rule.NamesOnce
  | pattern fields, ⟨_, nodup, inner⟩ => ⟨nodup, DistinctFields.namesOnce fields inner⟩
  | array, _ | boolean, _ | booleanLiteral _, _ | enumeration _, _ | numberLiteral _, _
  | number, _ | object, _ | stringLiteral _, _ | string, _ => trivial

theorem DistinctFields.namesOnce :
    ∀ fields : List (Field Rule), DistinctFields fields → NamesOnceFields fields
  | [], _ => trivial
  | ⟨_, none⟩ :: rest, inner => DistinctFields.namesOnce rest inner
  | ⟨_, some rule⟩ :: rest, ⟨own, inner⟩ =>
    ⟨Distinct.namesOnce rule own, DistinctFields.namesOnce rest inner⟩

end

/-! ## Parts -/

/-- The rule of the property that a name leads to, if it has one. -/
def child? : Rule → String → Option Rule
  | pattern fields, name => (fields.find? fun field => field.name == name).bind Field.rule
  | _, _ => none

/-- The rule that a pointer leads to. -/
def at? (rule : Rule) : Pointer → Option Rule
  | [] => some rule
  | name :: rest => (rule.child? name).bind (·.at? rest)

/-- Where every name is listed once, a name leads to its own property. -/
theorem child?_of_mem {fields : List (Field Rule)} (nodup : (fields.map Field.name).Nodup)
    {name : String} {rule : Rule} (listed : ⟨name, some rule⟩ ∈ fields) :
    (pattern fields).child? name = some rule := by
  induction fields with
  | nil => cases listed
  | cons field rest ih =>
    obtain ⟨fresh, nodup⟩ := List.nodup_cons.mp nodup
    rcases List.mem_cons.mp listed with rfl | later
    · simp [child?]
    · have other : field.name ≠ name := fun same =>
        fresh (List.mem_map.mpr ⟨_, later, same.symm⟩)
      simpa [child?, List.find?_cons, other] using ih nodup later

end JsonShape.Rule
