import JsonShape.Proofs.Normalize.Acceptance
import JsonShape.Proofs.Normalize.Refusal

/-!
# The first refusal

A rule looks at the properties of its patterns one by one, in its own order, and answers with the
first refusal that it meets.

* `Mismatch.trail` names the properties that lead to a refusal.
* `Rule.Refused rule value mismatch` derives a refusal along its trail: in front of the property
  that the trail goes on with, all properties are met.  `Rule.refused_of_normalize` and
  `Rule.Refused.normalize` say that these are the refusals of normalization.
* `Rule.SameAlong` relates two values that agree as far as a rule looks before it refuses one of
  them; `Rule.Refused.of_sameAlong` says that it refuses the other one alike.
* `Rule.refusals` lists everything that a rule could refuse of a value, in the rule's order, and
  `Rule.Refused.head?_refusals` finds the refusal of normalization at its head.
* `Rule.refusal_is_first` puts these together.
-/

namespace JsonShape

/-- The properties that lead to a refusal, from the outside in: those that its path enters, and
behind them the one that is missing, if one is. -/
def Mismatch.trail (mismatch : Mismatch) : List String :=
  match mismatch.reason with
  | .missingProperty name => mismatch.path ++ [name]
  | _ => mismatch.path

theorem Mismatch.trail_within (name : String) (mismatch : Mismatch) :
    (mismatch.within name).trail = name :: mismatch.trail := by
  obtain ⟨path, reason⟩ := mismatch
  cases reason with
  | wrongKind | notEqual | missingProperty => rfl

namespace Rule

/-- An object has a property of a pattern, with a value that the property's rule accepts if it has
one. -/
def Meets (members : List (String × Json)) (field : Field Rule) : Prop :=
  ∃ part, Entries.get? members field.name = some part ∧
    ∀ rule, field.rule = some rule → rule.Accepts part

theorem meets_iff {members : List (String × Json)} {field : Field Rule} :
    Meets members field ↔ ∃ entry, normalizeField members field = .ok entry :=
  exists_normalizeField_iff.symm

/-- Whether a property is met depends on its own member alone. -/
theorem Meets.congr {members others : List (String × Json)} {field : Field Rule}
    (same : Entries.get? members field.name = Entries.get? others field.name)
    (meets : Meets members field) : Meets others field := by
  obtain ⟨part, found, accepts⟩ := meets
  exact ⟨part, same.symm.trans found, accepts⟩

/-! ## Refusals along their trail -/

/-- How a rule comes to refuse a value.  It refuses the value itself, which is no object of a
pattern; or, behind properties that are met, a property of a pattern is missing, or its value is
refused. -/
inductive Refused : Rule → Json → Mismatch → Prop
  | itself {rule : Rule} {value : Json} {mismatch : Mismatch} :
    (∀ fields, rule = pattern fields → value.kind ≠ .object) →
    rule.normalize value = .error mismatch → mismatch.trail = [] → Refused rule value mismatch
  | missing {before after : List (Field Rule)} {field : Field Rule}
      {members : List (String × Json)} :
    (∀ other ∈ before, Meets members other) → Entries.get? members field.name = none →
    Refused (pattern (before ++ field :: after)) (.object members)
      (.here (.missingProperty field.name))
  | inside {before after : List (Field Rule)} {name : String} {own : Rule} {part : Json}
      {members : List (String × Json)} {inner : Mismatch} :
    (∀ other ∈ before, Meets members other) → Entries.get? members name = some part →
    Refused own part inner →
    Refused (pattern (before ++ ⟨name, some own⟩ :: after)) (.object members) (inner.within name)

theorem refused_of_normalize {rule : Rule} {value : Json} {mismatch : Mismatch}
    (refused : rule.normalize value = .error mismatch) : Refused rule value mismatch := by
  induction rule using inductionOn generalizing value mismatch with
  | pattern fields ih =>
    rcases normalize_pattern_error refused with
      ⟨kind, rfl⟩ | ⟨members, before, ⟨name, option⟩, after, rfl, rfl, fine, fails⟩
    · exact .itself (fun _ _ => kind) refused rfl
    · have met (other : Field Rule) (listed : other ∈ before) : Meets members other :=
        meets_iff.mpr (fine other listed)
      rcases normalizeField_error fails with
        ⟨missing, rfl⟩ | ⟨part, own, inner, found, rfl, refuses, rfl⟩
      · exact .missing met missing
      · exact .inside met found (ih name own (by simp) refuses)
  | _ =>
    rcases refusal_of_ne_pattern (by simp) refused with rfl | rfl
    · exact .itself (by simp) refused rfl
    · exact .itself (by simp) refused rfl

/-- Behind properties that are met, the refusal of a property is that of the pattern. -/
theorem normalize_pattern_of_first {before after : List (Field Rule)} {field : Field Rule}
    {members : List (String × Json)} {mismatch : Mismatch}
    (met : ∀ other ∈ before, Meets members other)
    (fails : normalizeField members field = .error mismatch) :
    (pattern (before ++ field :: after)).normalize (.object members) = .error mismatch := by
  have first : (before ++ field :: after).mapM (normalizeField members) = .error mismatch :=
    mapM_eq_error_iff.mpr
      ⟨before, field, after, rfl, fun other listed => meets_iff.mp (met other listed), fails⟩
  rw [normalize_pattern, first]
  rfl

theorem Refused.normalize {rule : Rule} {value : Json} {mismatch : Mismatch}
    (refused : Refused rule value mismatch) : rule.normalize value = .error mismatch := by
  induction refused with
  | itself _ refused _ => exact refused
  | missing met missing =>
    refine normalize_pattern_of_first met ?_
    simp only [normalizeField, missing]
  | inside met found _ ih =>
    refine normalize_pattern_of_first met ?_
    simp only [normalizeField, found, ih]

/-! ## What is met before a refusal -/

/-- At every pattern along the trail of a refusal, the properties in front of the one that the
trail goes on with are met. -/
theorem Refused.met_before {rule : Rule} {value : Json} {mismatch : Mismatch}
    (refused : Refused rule value mismatch) (once : rule.NamesOnce) {outer inner : List String}
    {name : String} (split : mismatch.trail = outer ++ name :: inner) :
    ∃ before field after members,
      rule.at? outer = some (pattern (before ++ field :: after)) ∧ field.name = name ∧
        value.at? outer = some (.object members) ∧ ∀ other ∈ before, Meets members other := by
  induction refused generalizing outer with
  | itself _ _ short =>
    rw [short] at split
    exact absurd split.symm (List.append_ne_nil_of_right_ne_nil _ (List.cons_ne_nil _ _))
  | @missing before after field members met _ =>
    have trail : [field.name] = outer ++ name :: inner := split
    cases outer with
    | nil => exact ⟨before, field, after, members, rfl, (List.cons.inj trail).1, rfl, met⟩
    | cons first rest =>
      have short := (List.cons.inj trail).2
      exact absurd short.symm (List.append_ne_nil_of_right_ne_nil _ (List.cons_ne_nil _ _))
  | @inside before after entered own part members deeper met found _ ih =>
    rw [Mismatch.trail_within] at split
    cases outer with
    | nil => exact ⟨before, _, after, members, rfl, (List.cons.inj split).1, rfl, met⟩
    | cons first rest =>
      obtain ⟨rfl, further⟩ := List.cons.inj split
      obtain ⟨nodup, onceInner⟩ := namesOnce_pattern.mp once
      have listed : ⟨entered, some own⟩ ∈ before ++ ⟨entered, some own⟩ :: after := by simp
      obtain ⟨front, field, behind, others, inRule, named, inValue, all⟩ :=
        ih (onceInner entered own listed) further
      refine ⟨front, field, behind, others, ?_, named, ?_, all⟩
      · simp only [at?, child?_of_mem nodup listed, Option.bind_some, inRule]
      · simp only [Json.at?, Json.child?, found, Option.bind_some, inValue]

/-! ## What is not looked at -/

/-- Two values are the same as far as a rule looks at them along a trail.  At the end of the trail
they are identical.  Where it goes on with a property of a pattern, two objects have the same
members for all properties in front of that one; for the property itself they have values that are
the same along the rest of the trail, or both lack it at the end.  Nothing is asked of the
properties behind it, of members that are not listed, and of the order of the members. -/
inductive SameAlong : Rule → List String → Json → Json → Prop
  | finish (rule : Rule) (value : Json) : SameAlong rule [] value value
  | missing {before after : List (Field Rule)} {field : Field Rule}
      {members others : List (String × Json)} :
    (∀ other ∈ before, Entries.get? members other.name = Entries.get? others other.name) →
    Entries.get? members field.name = none → Entries.get? others field.name = none →
    SameAlong (pattern (before ++ field :: after)) [field.name] (.object members) (.object others)
  | inside {before after : List (Field Rule)} {name : String} {own : Rule} {part other : Json}
      {members others : List (String × Json)} {trail : List String} :
    (∀ other ∈ before, Entries.get? members other.name = Entries.get? others other.name) →
    Entries.get? members name = some part → Entries.get? others name = some other →
    SameAlong own trail part other →
    SameAlong (pattern (before ++ ⟨name, some own⟩ :: after)) (name :: trail) (.object members)
      (.object others)

/-- Where every name is listed once, it is listed in one place. -/
theorem split_unique {before front after behind : List (Field Rule)} {field other : Field Rule}
    (nodup : ((before ++ field :: after).map Field.name).Nodup)
    (same : before ++ field :: after = front ++ other :: behind)
    (named : field.name = other.name) : before = front ∧ field = other ∧ after = behind := by
  induction before generalizing front with
  | nil =>
    cases front with
    | nil => exact ⟨rfl, List.cons.inj same⟩
    | cons first rest =>
      obtain ⟨rfl, rfl⟩ := List.cons.inj same
      rw [List.nil_append, List.map_cons] at nodup
      exact absurd (by simp [named]) (List.nodup_cons.mp nodup).1
  | cons first rest ih =>
    rw [List.cons_append, List.map_cons] at nodup
    obtain ⟨fresh, others⟩ := List.nodup_cons.mp nodup
    cases front with
    | nil =>
      obtain ⟨rfl, rfl⟩ := List.cons.inj same
      exact absurd (by simp [named]) fresh
    | cons other more =>
      obtain ⟨rfl, tails⟩ := List.cons.inj same
      obtain ⟨rfl, rfl, rfl⟩ := ih others tails
      exact ⟨rfl, rfl, rfl⟩

/-- What a rule refuses of a value, it refuses of every value that is the same along the trail. -/
theorem Refused.of_sameAlong {rule : Rule} {value changed : Json} {mismatch : Mismatch}
    (refused : Refused rule value mismatch) (once : rule.NamesOnce)
    (same : SameAlong rule mismatch.trail value changed) : Refused rule changed mismatch := by
  induction refused generalizing changed with
  | itself alone refused short =>
    rw [short] at same
    cases same
    exact .itself alone refused short
  | @missing before after field members met missing =>
    have nodup := (namesOnce_pattern.mp once).1
    generalize whole : pattern (before ++ field :: after) = rule at same
    generalize trail : (Mismatch.here (.missingProperty field.name)).trail = names at same
    cases same with
    | finish => cases trail
    | @missing front behind other _ others agree _ missingToo =>
      obtain ⟨named, _⟩ := List.cons.inj trail
      obtain ⟨rfl, rfl, rfl⟩ := split_unique nodup (Rule.pattern.inj whole) named
      rw [← whole]
      exact .missing (fun other listed => (met other listed).congr (agree other listed)) missingToo
    | inside _ found _ _ =>
      obtain ⟨rfl, _⟩ := List.cons.inj trail
      rw [missing] at found
      cases found
  | @inside before after name own part members inner met found _ ih =>
    obtain ⟨nodup, onceInner⟩ := namesOnce_pattern.mp once
    rw [Mismatch.trail_within] at same
    generalize whole : pattern (before ++ ⟨name, some own⟩ :: after) = rule at same
    generalize trail : name :: inner.trail = names at same
    cases same with
    | finish => cases trail
    | missing _ missing _ =>
      obtain ⟨rfl, _⟩ := List.cons.inj trail
      rw [found] at missing
      cases missing
    | @inside front behind _ other _ _ _ others _ agree foundHere foundThere deeper =>
      obtain ⟨rfl, rfl⟩ := List.cons.inj trail
      obtain ⟨rfl, sameField, rfl⟩ := split_unique nodup (Rule.pattern.inj whole) rfl
      cases sameField
      cases found.symm.trans foundHere
      rw [← whole]
      exact .inside (fun other listed => (met other listed).congr (agree other listed)) foundThere
        (ih (onceInner name own (by simp)) deeper)

/-! ## All refusals -/

mutual

/-- Everything that a rule can refuse of a value, in the rule's own order: what concerns a property
of a pattern, inside and out, stands before what concerns the properties listed behind it. -/
def refusals : Rule → Json → List Mismatch
  | pattern fields, .object members => refusalsOfFields fields members
  | rule, value =>
    match rule.normalize value with
    | .ok _ => []
    | .error mismatch => [mismatch]

/-- Everything that some properties can refuse of an object. -/
def refusalsOfFields : List (Field Rule) → List (String × Json) → List Mismatch
  | [], _ => []
  | ⟨name, none⟩ :: rest, members =>
    (match Entries.get? members name with
      | none => [.here (.missingProperty name)]
      | some _ => []) ++ refusalsOfFields rest members
  | ⟨name, some rule⟩ :: rest, members =>
    (match Entries.get? members name with
      | none => [.here (.missingProperty name)]
      | some part => (refusals rule part).map (·.within name)) ++ refusalsOfFields rest members

end

/-- Everything that one property can refuse of an object. -/
def refusalsOfField (members : List (String × Json)) (field : Field Rule) : List Mismatch :=
  match Entries.get? members field.name, field.rule with
  | none, _ => [.here (.missingProperty field.name)]
  | some _, none => []
  | some part, some rule => (refusals rule part).map (·.within field.name)

theorem refusalsOfFields_eq (fields : List (Field Rule)) (members : List (String × Json)) :
    refusalsOfFields fields members = fields.flatMap (refusalsOfField members) := by
  induction fields with
  | nil => rfl
  | cons field rest ih =>
    obtain ⟨name, _ | rule⟩ := field
    · rw [refusalsOfFields, ih, List.flatMap_cons, refusalsOfField]
      cases Entries.get? members name <;> rfl
    · rw [refusalsOfFields, ih, List.flatMap_cons, refusalsOfField]
      cases Entries.get? members name <;> rfl

/-- A rule with another form, or another value, refuses once at most. -/
theorem refusals_itself {rule : Rule} {value : Json}
    (alone : ∀ fields, rule = pattern fields → value.kind ≠ .object) :
    refusals rule value =
      match rule.normalize value with
      | .ok _ => []
      | .error mismatch => [mismatch] := by
  rw [refusals]
  rintro fields members rfl rfl
  exact alone fields rfl rfl

/-- A value that is accepted has nothing to be refused. -/
theorem refusals_of_accepts {rule : Rule} {value : Json} (accepts : rule.Accepts value) :
    refusals rule value = [] := by
  induction rule using inductionOn generalizing value with
  | pattern fields ih =>
    obtain ⟨members, rfl, met⟩ := accepts_pattern.mp accepts
    rw [refusals, refusalsOfFields_eq, List.flatMap_eq_nil_iff]
    rintro ⟨name, option⟩ listed
    obtain ⟨part, found, inner⟩ := met _ listed
    cases option with
    | none => simp only [refusalsOfField, found]
    | some own =>
      have clean := ih name own listed (inner own rfl)
      simp only [refusalsOfField, found, clean, List.map_nil]
  | _ =>
    obtain ⟨answer, accepted⟩ := accepts
    rw [refusals_itself (by simp), accepted]

theorem refusalsOfField_of_meets {members : List (String × Json)} {field : Field Rule}
    (meets : Meets members field) : refusalsOfField members field = [] := by
  obtain ⟨part, found, accepts⟩ := meets
  obtain ⟨name, _ | own⟩ := field
  · simp only [refusalsOfField, found]
  · have clean := refusals_of_accepts (accepts own rfl)
    simp only [refusalsOfField, found, clean, List.map_nil]

/-- Behind properties that are met, the refusals of a property come first. -/
theorem refusals_pattern_of_met {before after : List (Field Rule)} {field : Field Rule}
    {members : List (String × Json)} (met : ∀ other ∈ before, Meets members other) :
    refusals (pattern (before ++ field :: after)) (.object members) =
      refusalsOfField members field ++ after.flatMap (refusalsOfField members) := by
  have clean : before.flatMap (refusalsOfField members) = [] :=
    List.flatMap_eq_nil_iff.mpr fun other listed => refusalsOfField_of_meets (met other listed)
  rw [refusals, refusalsOfFields_eq, List.flatMap_append, List.flatMap_cons, clean,
    List.nil_append]

/-- The refusal of normalization is the first of all. -/
theorem Refused.head?_refusals {rule : Rule} {value : Json} {mismatch : Mismatch}
    (refused : Refused rule value mismatch) : (refusals rule value).head? = some mismatch := by
  induction refused with
  | itself alone refused _ =>
    rw [refusals_itself alone, refused]
    rfl
  | missing met missing =>
    rw [refusals_pattern_of_met met]
    simp only [refusalsOfField, missing]
    rfl
  | inside met found _ ih =>
    rw [refusals_pattern_of_met met]
    simp only [refusalsOfField, found, List.head?_append, List.head?_map, ih, Option.map_some,
      Option.some_or]

/-- A rule refuses a value for the first reason that its own order comes to, whatever the order of
the members.  At every pattern along the trail of the refusal, the properties listed in front of
the one that the trail goes on with are there, and their rules accept them; values that are changed
behind the trail in any way are refused alike; and of all refusals in the rule's order this one is
the first. -/
theorem refusal_is_first {rule : Rule} (once : rule.NamesOnce) {value : Json}
    {mismatch : Mismatch} (refused : rule.normalize value = .error mismatch) :
    (∀ outer name inner, mismatch.trail = outer ++ name :: inner →
      ∃ before field after members,
        rule.at? outer = some (pattern (before ++ field :: after)) ∧ field.name = name ∧
          value.at? outer = some (.object members) ∧ ∀ other ∈ before, Meets members other) ∧
    (∀ changed, SameAlong rule mismatch.trail value changed →
      rule.normalize changed = .error mismatch) ∧
    (rule.refusals value).head? = some mismatch := by
  have along := refused_of_normalize refused
  refine ⟨fun outer name inner split => along.met_before once split, fun changed same => ?_,
    along.head?_refusals⟩
  exact (along.of_sameAlong once same).normalize

/-- A pattern in a pattern, each with properties behind the one that is refused. -/
def trailingPattern : Rule :=
  pattern [⟨"a", some (pattern [⟨"x", some boolean⟩, ⟨"y", some number⟩, ⟨"z", some string⟩])⟩,
    ⟨"b", some array⟩, ⟨"c", none⟩]

/-- An object that `trailingPattern` refuses in four places. -/
def faultyObject : Json :=
  .object [("b", .string "s"), ("a", .object [("z", .null), ("y", .null), ("x", .bool true)])]

/-- Another one, with the first of these places unchanged and other faults behind it. -/
def mendedObject : Json :=
  .object [("c", .null), ("a", .object [("x", .bool true), ("y", .null)]), ("b", .array [])]

/-- Both are refused at the property `y` of `a`. -/
theorem trailingPattern_refuses_first :
    trailingPattern.NamesOnce ∧
      trailingPattern.normalize faultyObject = .error ⟨["a", "y"], .wrongKind [.number] .null⟩ ∧
      SameAlong trailingPattern ["a", "y"] faultyObject mendedObject ∧
      trailingPattern.normalize mendedObject = .error ⟨["a", "y"], .wrongKind [.number] .null⟩ ∧
      (trailingPattern.refusals faultyObject).length = 4 ∧
      (trailingPattern.refusals faultyObject).head? =
        some ⟨["a", "y"], .wrongKind [.number] .null⟩ := by
  have once : trailingPattern.NamesOnce := by
    simp [trailingPattern, NamesOnce, NamesOnceFields]
  have refused : trailingPattern.normalize faultyObject =
      .error ⟨["a", "y"], .wrongKind [.number] .null⟩ := by
    simp [trailingPattern, faultyObject, normalize, normalizeFields, Entries.get?,
      wrongKind, kinds, Json.kind, Mismatch.here, Mismatch.within, Except.map]
  have inner : SameAlong (pattern ([⟨"x", some boolean⟩] ++ ⟨"y", some number⟩ ::
      [⟨"z", some string⟩])) ["y"] (.object [("z", .null), ("y", .null), ("x", .bool true)])
      (.object [("x", .bool true), ("y", .null)]) :=
    .inside (by simp [Entries.get?]) rfl rfl (.finish number .null)
  have same : SameAlong trailingPattern ["a", "y"] faultyObject mendedObject :=
    @SameAlong.inside [] _ _ _ _ _ _ _ _ (fun _ listed => absurd listed List.not_mem_nil) rfl rfl
      inner
  obtain ⟨_, alike, first⟩ := refusal_is_first once refused
  refine ⟨once, refused, same, alike mendedObject same, ?_, first⟩
  simp [trailingPattern, faultyObject, refusals, refusalsOfFields, normalize, wrongKind,
    Entries.get?]

end Rule

end JsonShape
