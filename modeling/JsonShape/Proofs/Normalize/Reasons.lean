import JsonShape.Proofs.Normalize.Loosening
import JsonShape.Proofs.Normalize.Narrowing
import JsonShape.Proofs.Normalize.Refusal
import JsonShape.Proofs.Source.Scanning

/-!
# What the reasons of a refusal say

A value is refused for its kind, or for being another than the one that the rule names.  Each of
the two reasons is only given where it is the true one, and its message sets two different texts
against each other.

* `Rule.Misses rule value`: the rule names values of the value's kind, and not this one.
  `Rule.refusal_here` says which reason a rule gives by itself, and where.
* `Quoting.eq_of_body_eq`: what was expected is written as in a definition and what was found as in
  a document.  The two escape differently, and still agree on no two different texts.
* `Rule.Misses.chars_ne`: so a rule is never written like a value that it misses.
* `Rule.refusal_reason` puts these together, at the part of the value that a refusal is about.

A text that is quoted in a message may hold `, found ` itself.  So it is the two texts that are
compared, and not the ways to cut the message.
-/

namespace JsonShape

/-! ## Two ways to quote -/

namespace Quoting

/-- Definitions read an escape of documents as what it stands for, if they know it at all. -/
theorem json_eq_some {c : Char} {text : List Char} (escape : json c = some text) :
    ∃ e more, text = '\\' :: e :: more ∧ ∀ d, escaped? e = some d → d = c ∧ more = [] := by
  have known {e : Char} (denotes : escaped? e = some c) :
      ∃ f more, ['\\', e] = '\\' :: f :: more ∧
        ∀ d, escaped? f = some d → d = c ∧ more = [] :=
    ⟨e, [], rfl, fun _ other => ⟨Option.some.inj (other.symm.trans denotes), rfl⟩⟩
  have unknown {e : Char} (more : List Char) (none : escaped? e = none) :
      ∃ f rest, '\\' :: e :: more = '\\' :: f :: rest ∧
        ∀ d, escaped? f = some d → d = c ∧ rest = [] := by
    refine ⟨e, more, rfl, fun d other => ?_⟩
    rw [none] at other
    cases other
  unfold json at escape
  split at escape
  · cases escape
    exact known rfl
  · cases escape
    exact known rfl
  · cases escape
    exact known rfl
  · cases escape
    exact known rfl
  · cases escape
    exact known rfl
  · cases escape
    exact unknown [] rfl
  · cases escape
    exact unknown [] rfl
  · split at escape
    · cases escape
      exact unknown _ rfl
    · cases escape

/-- A text that is quoted for a document denotes nothing else in a definition. -/
theorem eq_of_unescape_json {text inside : List Char}
    (denotes : unescape (json.body text) = .ok inside) : inside = text := by
  induction text generalizing inside with
  | nil =>
    cases denotes
    rfl
  | cons c more ih =>
    -- What remains of either case: the character is read back, and the rest by induction.
    have behind (read : (unescape (json.body more)).map (c :: ·) = .ok inside) :
        inside = c :: more := by
      cases others : unescape (json.body more) with
      | error e =>
        rw [others] at read
        cases read
      | ok rest =>
        rw [others] at read
        rw [← Except.ok.inj read, ih others]
    rcases written : json c with _ | escape
    · have backslash : c ≠ '\\' := by
        rintro rfl
        cases written
      rw [body_plain written, unescape_plain backslash] at denotes
      exact behind denotes
    · obtain ⟨e, tail, rfl, alone⟩ := json_eq_some written
      rw [body, List.flatMap_cons, char, written] at denotes
      cases known : escaped? e with
      | none =>
        rw [Option.getD_some, List.cons_append, List.cons_append, unescape, known] at denotes
        cases denotes
      | some d =>
        obtain ⟨rfl, rfl⟩ := alone d known
        rw [Option.getD_some, List.cons_append, List.cons_append, unescape_escape known] at denotes
        exact behind denotes

/-- A text in a definition and one in a document that are written alike are the same. -/
theorem eq_of_body_eq {a b : List Char} (same : source.body a = json.body b) : a = b :=
  eq_of_unescape_json (by rw [← same, unescape_body])

theorem eq_of_write_eq {s t : String} (same : source.write s.toList = json.write t.toList) :
    s = t := by
  have inside := List.append_cancel_right (List.cons.inj same).2
  exact String.toList_inj.mp (eq_of_body_eq inside)

end Quoting

namespace Rule

/-! ## Reasons of a rule by itself -/

/-- A rule names values, this one is of their kind, and it is none of them. -/
inductive Misses : Rule → Json → Prop
  | boolean {b v : Bool} : v ≠ b → Misses (booleanLiteral b) (.bool v)
  | member {members : List String} {s : String} :
    s ∉ members → Misses (enumeration members) (.string s)
  | number {n v : Number} : v.agrees n = false → Misses (numberLiteral n) (.number v)
  | string {s v : String} : v ≠ s → Misses (stringLiteral s) (.string v)

theorem Misses.kinds {rule : Rule} {value : Json} (misses : rule.Misses value) :
    rule.kinds = [value.kind] := by
  cases misses <;> rfl

/-- A rule that is no pattern refuses the values of other kinds. -/
theorem normalize_of_kind_not_mem {rule : Rule} {value : Json}
    (leaf : ∀ fields, rule ≠ pattern fields) (outside : value.kind ∉ rule.kinds) :
    rule.normalize value = rule.wrongKind value := by
  cases rule with
  | pattern fields => exact absurd rfl (leaf fields)
  | _ =>
    cases value <;>
      first
      | rfl
      | exact absurd (by simp [kinds, Json.kind]) outside

/-- A rule that is no pattern accepts the values of its kinds or misses them. -/
theorem accepts_or_misses {rule : Rule} {value : Json} (leaf : ∀ fields, rule ≠ pattern fields)
    (inside : value.kind ∈ rule.kinds) : rule.Accepts value ∨ rule.Misses value := by
  cases rule with
  | pattern fields => exact absurd rfl (leaf fields)
  | array => exact .inl (accepts_array.mpr (List.mem_singleton.mp inside))
  | boolean | number | object | string =>
    exact .inl (accepts_of_kind_mem inside (by simp))
  | booleanLiteral b =>
    cases value with
    | bool v =>
      by_cases same : v = b
      · exact .inl (accepts_booleanLiteral.mpr (congrArg Json.bool same))
      · exact .inr (.boolean same)
    | _ => simp [kinds, Json.kind] at inside
  | enumeration members =>
    cases value with
    | string s =>
      by_cases listed : s ∈ members
      · exact .inl (accepts_enumeration.mpr ⟨s, listed, rfl⟩)
      · exact .inr (.member listed)
    | _ => simp [kinds, Json.kind] at inside
  | numberLiteral n =>
    cases value with
    | number v =>
      cases agrees : v.agrees n with
      | true => exact .inl (accepts_numberLiteral.mpr ⟨v, rfl, agrees⟩)
      | false => exact .inr (.number agrees)
    | _ => simp [kinds, Json.kind] at inside
  | stringLiteral s =>
    cases value with
    | string v =>
      by_cases same : v = s
      · exact .inl (accepts_stringLiteral.mpr (congrArg Json.string same))
      · exact .inr (.string same)
    | _ => simp [kinds, Json.kind] at inside

theorem Misses.normalize {rule : Rule} {value : Json} (misses : rule.Misses value) :
    rule.normalize value = rule.notEqual value := by
  cases misses with
  | boolean other => exact if_neg other
  | member unlisted => exact if_neg unlisted
  | number other => exact if_neg (Bool.eq_false_iff.mp other)
  | string other => exact if_neg other

/-- The two ways in which a rule refuses a value without looking into it. -/
theorem refusal_here {rule : Rule} {value : Json} {reason : Reason}
    (refused : rule.normalize value = .error (.here reason)) :
    (reason = .wrongKind rule.kinds value.kind ∧ value.kind ∉ rule.kinds) ∨
      (reason = .notEqual rule value ∧ rule.Misses value) ∨
      ∃ name, reason = .missingProperty name := by
  have reason_of {other : Reason}
      (same : rule.normalize value = .error (.here other)) : reason = other :=
    congrArg Mismatch.reason (Except.error.inj (refused.symm.trans same))
  by_cases leaf : ∀ fields, rule ≠ pattern fields
  · by_cases inside : value.kind ∈ rule.kinds
    · rcases accepts_or_misses leaf inside with ⟨answer, accepted⟩ | misses
      · rw [accepted] at refused
        cases refused
      · exact .inr (.inl ⟨reason_of misses.normalize, misses⟩)
    · exact .inl ⟨reason_of (normalize_of_kind_not_mem leaf inside), inside⟩
  · simp only [not_forall, not_not] at leaf
    obtain ⟨fields, rfl⟩ := leaf
    rcases normalize_pattern_error refused with
      ⟨other, same⟩ | ⟨members, before, field, after, rfl, rfl, _, fails⟩
    · cases same
      exact .inl ⟨rfl, by simpa [kinds] using other⟩
    · rcases normalizeField_error fails with ⟨_, same⟩ | ⟨_, _, _, _, _, _, same⟩
      · cases same
        exact .inr (.inr ⟨_, rfl⟩)
      · cases same

theorem wrongKind_here {rule : Rule} {value : Json} {expected : List Kind} {found : Kind}
    (refused : rule.normalize value = .error (.here (.wrongKind expected found))) :
    expected = rule.kinds ∧ found = value.kind ∧ found ∉ rule.kinds := by
  rcases refusal_here refused with ⟨same, outside⟩ | ⟨same, _⟩ | ⟨_, same⟩
  · cases same
    exact ⟨rfl, rfl, outside⟩
  · cases same
  · cases same

theorem notEqual_here {rule expected : Rule} {value found : Json}
    (refused : rule.normalize value = .error (.here (.notEqual expected found))) :
    expected = rule ∧ found = value ∧ rule.Misses value := by
  rcases refusal_here refused with ⟨same, _⟩ | ⟨same, misses⟩ | ⟨_, same⟩
  · cases same
  · cases same
    exact ⟨rfl, rfl, misses⟩
  · cases same

/-! ## Texts -/

/-- No rule is written like a value that it misses. -/
theorem Misses.chars_ne {rule : Rule} {value : Json} (misses : rule.Misses value) :
    rule.chars ≠ value.compactChars := by
  intro same
  cases misses with
  | @boolean b v other =>
    cases b <;> cases v <;> first | exact other rfl | exact absurd same (by decide)
  | member unlisted =>
    -- An enumeration starts with its keyword, a string of a document with a quote.
    have first := congrArg List.head? same
    cases first
  | @number n v other =>
    obtain rfl := Number.chars_injective same
    rw [Number.agrees_self] at other
    cases other
  | string other => exact other (Quoting.eq_of_write_eq same).symm

theorem Misses.render_ne {rule : Rule} {value : Json} (misses : rule.Misses value) :
    rule.render ≠ value.compact := fun same =>
  misses.chars_ne (String.ofList_injective same)

theorem kinds_eq_singleton_or_pair (rule : Rule) :
    (∃ kind, rule.kinds = [kind]) ∨ rule.kinds = [.array, .object] := by
  cases rule with
  | object => exact .inr rfl
  | _ => exact .inl ⟨_, rfl⟩

/-- The kinds of a rule are described without the name of any other kind. -/
theorem name_not_infix_describeKinds {rule : Rule} {found : Kind} (other : found ∉ rule.kinds) :
    ¬found.name.toList <:+: (describeKinds rule.kinds).toList := by
  rcases rule.kinds_eq_singleton_or_pair with ⟨kind, single⟩ | pair
  · rw [single] at other ⊢
    cases kind <;> cases found <;> first | exact absurd (by decide) other | decide +kernel
  · rw [pair] at other ⊢
    cases found <;> first | exact absurd (by decide) other | decide +kernel

end Rule

/-- The two texts of a message: what was expected, and what was found. -/
def Reason.texts? : Reason → Option (String × String)
  | wrongKind expected found => some (Rule.describeKinds expected, found.name)
  | notEqual expected found => some (expected.render, found.compact)
  | missingProperty _ => none

theorem Reason.describe_of_texts? {reason : Reason} {expected found : String}
    (texts : reason.texts? = some (expected, found)) :
    reason.describe = "expected " ++ expected ++ ", found " ++ found := by
  cases reason with
  | missingProperty name => cases texts
  | _ =>
    cases texts
    rfl

namespace Rule

theorem texts_ne {rule : Rule} {value : Json} {reason : Reason} {expected found : String}
    (refused : rule.normalize value = .error (.here reason))
    (texts : reason.texts? = some (expected, found)) : expected ≠ found := by
  cases reason with
  | wrongKind kinds kind =>
    cases texts
    obtain ⟨rfl, _, outside⟩ := wrongKind_here refused
    exact fun same => name_not_infix_describeKinds outside (same ▸ List.infix_rfl)
  | notEqual own part =>
    cases texts
    obtain ⟨rfl, rfl, misses⟩ := notEqual_here refused
    exact misses.render_ne
  | missingProperty name => cases texts

/-- The reason of a refusal is true of the part of the value and of the rule that it is about, and
says something.  If the part is of a wrong kind, this is none of the kinds that are named, in the
message too, and the rule accepts no value of that kind at all.  If it is not equal, it is of the
one kind of values that the rule names.  The message never sets a text against itself. -/
theorem refusal_reason {rule : Rule} {value : Json} {mismatch : Mismatch}
    (refused : rule.normalize value = .error mismatch) :
    ∃ own part, rule.Reaches mismatch.path own ∧ value.memberAt? mismatch.path = some part ∧
      own.normalize part = .error (.here mismatch.reason) ∧
      (∀ expected found, mismatch.reason = .wrongKind expected found →
        expected = own.kinds ∧ found = part.kind ∧ found ∉ expected ∧
          ¬found.name.toList <:+: (describeKinds expected).toList ∧
          ∀ other : Json, other.kind = found → ¬own.Accepts other) ∧
      (∀ expected found, mismatch.reason = .notEqual expected found →
        expected = own ∧ found = part ∧ own.kinds = [part.kind] ∧
          expected.render ≠ found.compact) ∧
      ∀ expected found, mismatch.reason.texts? = some (expected, found) →
        mismatch.reason.describe = "expected " ++ expected ++ ", found " ++ found ∧
          expected ≠ found := by
  obtain ⟨path, reason⟩ := mismatch
  obtain ⟨own, part, reaches, inValue, here⟩ := refusal_reaches refused
  refine ⟨own, part, reaches, inValue, here, ?_, ?_, ?_⟩
  · rintro expected found rfl
    obtain ⟨rfl, rfl, outside⟩ := wrongKind_here here
    refine ⟨rfl, rfl, outside, name_not_infix_describeKinds outside, fun other kind accepted => ?_⟩
    rw [← kind] at outside
    exact outside accepted.kind_mem
  · rintro expected found rfl
    obtain ⟨rfl, rfl, misses⟩ := notEqual_here here
    exact ⟨rfl, rfl, misses.kinds, misses.render_ne⟩
  · intro expected found texts
    exact ⟨Reason.describe_of_texts? texts, texts_ne here texts⟩

/-- A literal of a backslash and a letter, against the one character that a document writes with
these two. -/
theorem refusal_reason_backspace :
    (pattern [⟨"n", some (stringLiteral "\\b")⟩]).normalize (.object [("n", .string "\x08")]) =
        .error ⟨["n"], .notEqual (stringLiteral "\\b") (.string "\x08")⟩ ∧
      (stringLiteral "\\b").render ≠ (Json.string "\x08").compact := by
  have refused : (pattern [⟨"n", some (stringLiteral "\\b")⟩]).normalize
      (.object [("n", .string "\x08")]) =
        .error ⟨["n"], .notEqual (stringLiteral "\\b") (.string "\x08")⟩ := by
    simp [normalize, normalizeFields, notEqual, Entries.get?, Mismatch.here, Mismatch.within,
      Except.map]
  obtain ⟨own, part, _, _, _, _, unequal, _⟩ := refusal_reason refused
  obtain ⟨_, _, _, differ⟩ := unequal _ _ rfl
  exact ⟨refused, differ⟩

end Rule

end JsonShape
