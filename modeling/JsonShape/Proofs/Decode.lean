import JsonShape.Decode
import JsonShape.Proofs.Gathers
import JsonShape.Proofs.Json.Raw

/-!
# What is decoded

* `Decoder.any_eq_ok_iff`, `Decoder.string_eq_ok_iff`, `Decoder.list_eq_ok_iff`: what the decoders
  of values, strings and arrays take.
* `Decoder.Takes decoder default? part value`: a property has the value that its part of a text is
  decoded as, or its default where the text has no part for it.
* `Decoder.takes_of_record`: so has every property of a decoded record, provided that the record's
  other properties have other names and are kept elsewhere.
-/

namespace JsonShape.Decoder

variable {α β σ : Type}

/-! ## Values, strings and arrays -/

theorem any_eq_ok_iff {raw : Raw} {value : Json} :
    any raw = .ok value ↔ raw.value? = some value := by
  unfold any
  split
  · next has => rw [has, Except.ok.injEq, Option.some_inj]
  · next none _ => simp [none]
  · next none _ => simp [none]

theorem string_eq_ok_iff {raw : Raw} {text : String} :
    string raw = .ok text ↔ raw = .string text := by
  constructor
  · intro taken
    cases raw with
    | string own => exact congrArg Raw.string (Except.ok.inj taken)
    | _ => cases taken
  · rintro rfl
    rfl

theorem items_eq_ok_iff {decoder : Decoder α} {closed : Bool} {position : Nat} {raws : List Raw}
    {values : List α} :
    items decoder closed position raws = .ok values ↔
      closed = true ∧ List.Forall₂ (fun raw value => decoder raw = .ok value) raws values := by
  induction raws generalizing position values with
  | nil =>
    rw [items, List.forall₂_nil_left_iff]
    cases closed <;> simp [eq_comm]
  | cons raw rest ih =>
    rw [items, List.forall₂_cons_left_iff]
    cases decoder raw with
    | error complaint => simp
    | ok value =>
      simp only [map_eq_ok_iff, ih, Except.ok.injEq]
      constructor
      · rintro ⟨others, ⟨whole, each⟩, rfl⟩
        exact ⟨whole, value, others, rfl, each, rfl⟩
      · rintro ⟨whole, _, others, rfl, each, rfl⟩
        exact ⟨others, ⟨whole, each⟩, rfl⟩

theorem list_eq_ok_iff {decoder : Decoder α} {raw : Raw} {values : List α} :
    list decoder raw = .ok values ↔
      ∃ raws, raw = .array raws true ∧
        List.Forall₂ (fun raw value => decoder raw = .ok value) raws values := by
  constructor
  · intro taken
    cases raw with
    | array raws closed =>
      obtain ⟨rfl, each⟩ := items_eq_ok_iff.mp taken
      exact ⟨raws, rfl, each⟩
    | _ => cases taken
  · rintro ⟨raws, rfl, each⟩
    exact items_eq_ok_iff.mpr ⟨rfl, each⟩

/-! ## Properties -/

/-- A property's value: what its part of a text is decoded as, or its default where the text has no
part for it. -/
inductive Takes (decoder : Decoder α) (default? : Option α) : Option Raw → α → Prop
  | given {raw : Raw} {value : α} (decoded : decoder raw = .ok value) :
    Takes decoder default? (some raw) value
  | missing {value : α} (default : default? = some value) : Takes decoder default? none value

/-- A property without a default needs a part. -/
theorem takes_required_iff {decoder : Decoder α} {part : Option Raw} {value : α} :
    Takes decoder none part value ↔ ∃ raw, part = some raw ∧ decoder raw = .ok value := by
  constructor
  · rintro (decoded | default)
    · exact ⟨_, rfl, decoded⟩
    · cases default
  · rintro ⟨raw, rfl, decoded⟩
    exact .given decoded

theorem takes_string_iff {part : Option Raw} {text : String} :
    Takes string none part text ↔ part = some (.string text) := by
  simp [takes_required_iff, string_eq_ok_iff]

/-- The state after a slot has taken its part of a text. -/
inductive Slot.Moves (slot : Slot σ) (state : σ) : Option Raw → σ → Prop
  | fill {raw : Raw} {next : σ} (filled : slot.fill raw state = .ok next) :
    Moves slot state (some raw) next
  | absent {next : σ} (passed : slot.absent state = some next) : Moves slot state none next

/-- A slot leaves a property as it is. -/
def Slot.Keeps (slot : Slot σ) (get : σ → Option α) : Prop :=
  ∀ state part next, slot.Moves state part next → get next = get state

/-- A slot is for another property than the one with a name and a place in the state. -/
def Slot.Foreign (slot : Slot σ) (name : String) (get : σ → Option α) : Prop :=
  slot.name ≠ name ∧ slot.Keeps get

section

variable {name : String} {decoder : Decoder α} {get : σ → Option α} {set : α → σ → σ}
  {default? : Option α} {state next : σ} {part : Option Raw}

theorem isFilled_slot_eq_false_iff :
    (slot name decoder get set default?).isFilled state = false ↔ get state = none :=
  Option.isSome_eq_false_iff.trans Option.isNone_iff_eq_none

/-- A slot sets its place to what the property takes. -/
theorem exists_of_moves_slot (moves : (slot name decoder get set default?).Moves state part next) :
    ∃ value, Takes decoder default? part value ∧ next = set value state := by
  cases moves with
  | fill filled =>
    obtain ⟨value, decoded, rfl⟩ := map_eq_ok_iff.mp filled
    exact ⟨value, .given decoded, rfl⟩
  | absent passed =>
    obtain ⟨value, default, rfl⟩ := Option.map_eq_some_iff.mp passed
    exact ⟨value, .missing default, rfl⟩

theorem foreign_slot {wanted : String} {other : σ → Option β} (differ : name ≠ wanted)
    (apart : ∀ value state, other (set value state) = other state) :
    (slot name decoder get set default?).Foreign wanted other := by
  refine ⟨differ, fun state part next moves => ?_⟩
  obtain ⟨value, _, rfl⟩ := exists_of_moves_slot moves
  exact apart value state

end

/-! ## Steps of a record -/

/-- The state after a member is met: a name that no slot has is passed over, and a slot's name is
filled if it was not filled before. -/
inductive Meets (slots : List (Slot σ)) (name : String) (raw : Raw) (state : σ) : σ → Prop
  | unknown (foreign : ∀ slot ∈ slots, slot.name ≠ name) : Meets slots name raw state state
  | fill {slot : Slot σ} {next : σ} (listed : slot ∈ slots) (named : slot.name = name)
      (fresh : slot.isFilled state = false) (moves : slot.Moves state (some raw) next) :
    Meets slots name raw state next

section

variable {slots : List (Slot σ)} {own : Slot σ} {closed : Bool} {state final : σ}

theorem fillMembers_cons {given : Option String} {raw : Raw} {rest : List (Option String × Raw)}
    (filled : fillMembers slots closed state ((given, raw) :: rest) = .ok final) :
    ∃ name next, given = some name ∧ Meets slots name raw state next ∧
      fillMembers slots closed next rest = .ok final := by
  cases given with
  | none => cases filled
  | some name =>
    rw [fillMembers] at filled
    split at filled
    · next none =>
      refine ⟨name, state, rfl, .unknown fun slot listed named => ?_, ?_⟩
      · exact List.find?_eq_none.mp none slot listed (beq_iff_eq.mpr named)
      · split at filled
        · exact filled
        · cases filled
    · next slot found =>
      split at filled
      · cases filled
      · next fresh =>
        split at filled
        · cases filled
        · next next taken =>
          have named := List.find?_some found
          exact ⟨name, next, rfl, .fill (List.mem_of_find?_eq_some found) (beq_iff_eq.mp named)
            (Bool.not_eq_true _ ▸ fresh) (.fill taken), filled⟩

theorem fillAbsent_cons (filled : fillAbsent (own :: slots) state = .ok final) :
    ∃ next, (own.isFilled state = true ∧ next = state ∨
        own.isFilled state = false ∧ own.Moves state none next) ∧
      fillAbsent slots next = .ok final := by
  rw [fillAbsent] at filled
  split at filled
  · next present => exact ⟨state, .inl ⟨present, rfl⟩, filled⟩
  · next fresh =>
    split at filled
    · next next passed =>
      exact ⟨next, .inr ⟨Bool.not_eq_true _ ▸ fresh, .absent passed⟩, filled⟩
    · cases filled

theorem fillItems_cons {expected : String} {position : Nat} {raws : List Raw}
    (filled : fillItems expected closed position (own :: slots) raws state = .ok final) :
    ∃ next, own.Moves state raws.head? next ∧
      fillItems expected closed (position + 1) slots raws.tail next = .ok final := by
  cases raws with
  | nil =>
    rw [fillItems] at filled
    split at filled
    · split at filled
      · next next passed => exact ⟨next, .absent passed, filled⟩
      · cases filled
    · cases filled
  | cons raw rest =>
    rw [fillItems] at filled
    split at filled
    · cases filled
    · next next taken => exact ⟨next, .fill taken, filled⟩

end

/-! ## One property of a record -/

section

variable {name : String} {decoder : Decoder α} {get : σ → Option α} {set : α → σ → σ}
  {default? : Option α} {before after : List (Slot σ)} {closed : Bool} {state final : σ}

/-- Slots that keep a property keep it where values are missing. -/
theorem get_of_fillAbsent (keep : ∀ slot ∈ after, slot.Keeps get)
    (filled : fillAbsent after state = .ok final) : get final = get state := by
  induction after generalizing state with
  | nil => rw [Except.ok.inj filled]
  | cons slot rest ih =>
    obtain ⟨first, others⟩ := List.forall_mem_cons.mp keep
    obtain ⟨next, moves, later⟩ := fillAbsent_cons filled
    rw [ih others later]
    rcases moves with ⟨_, rfl⟩ | ⟨_, moves⟩
    · rfl
    · exact first _ _ _ moves

/-- Slots that keep a property keep it throughout an array. -/
theorem get_of_fillItems {expected : String} {position : Nat} {raws : List Raw}
    (keep : ∀ slot ∈ after, slot.Keeps get)
    (filled : fillItems expected closed position after raws state = .ok final) :
    get final = get state := by
  induction after generalizing position raws state with
  | nil =>
    cases raws with
    | nil =>
      rw [fillItems] at filled
      split at filled
      · rw [Except.ok.inj filled]
      · cases filled
    | cons => cases filled
  | cons slot rest ih =>
    obtain ⟨first, others⟩ := List.forall_mem_cons.mp keep
    obtain ⟨next, moves, later⟩ := fillItems_cons filled
    rw [ih others later]
    exact first _ _ _ moves

/-- Where values are missing, a property keeps its value or takes its default. -/
theorem takes_of_fillAbsent (keep : ∀ slot ∈ before ++ after, slot.Keeps get)
    (law : ∀ value state, get (set value state) = some value)
    (filled : fillAbsent (before ++ slot name decoder get set default? :: after) state =
      .ok final) :
    ∃ value, get final = some value ∧
      (get state = some value ∨ get state = none ∧ Takes decoder default? none value) := by
  induction before generalizing state with
  | nil =>
    obtain ⟨next, moves, later⟩ := fillAbsent_cons filled
    rw [get_of_fillAbsent keep later]
    rcases moves with ⟨present, rfl⟩ | ⟨fresh, moves⟩
    · obtain ⟨value, has⟩ := Option.isSome_iff_exists.mp present
      exact ⟨value, has, .inl has⟩
    · obtain ⟨value, takes, rfl⟩ := exists_of_moves_slot moves
      exact ⟨value, law value state, .inr ⟨isFilled_slot_eq_false_iff.mp fresh, takes⟩⟩
  | cons first rest ih =>
    obtain ⟨own, others⟩ := List.forall_mem_cons.mp keep
    obtain ⟨next, moves, later⟩ := fillAbsent_cons filled
    rcases moves with ⟨_, rfl⟩ | ⟨_, moves⟩
    · exact ih others later
    · rw [← own _ _ _ moves]
      exact ih others later

/-- In an array, a property takes the item at its position, or its default behind the last item. -/
theorem takes_of_fillItems {expected : String} {position : Nat} {raws : List Raw}
    (keep : ∀ slot ∈ before ++ after, slot.Keeps get)
    (law : ∀ value state, get (set value state) = some value)
    (filled : fillItems expected closed position
      (before ++ slot name decoder get set default? :: after) raws state = .ok final) :
    ∃ value, get final = some value ∧ Takes decoder default? raws[before.length]? value := by
  induction before generalizing position raws state with
  | nil =>
    obtain ⟨next, moves, later⟩ := fillItems_cons filled
    obtain ⟨value, takes, rfl⟩ := exists_of_moves_slot moves
    refine ⟨value, (get_of_fillItems keep later).trans (law value state), ?_⟩
    rw [List.length_nil, ← List.head?_eq_getElem?]
    exact takes
  | cons first rest ih =>
    obtain ⟨_, others⟩ := List.forall_mem_cons.mp keep
    obtain ⟨next, _, later⟩ := fillItems_cons filled
    rw [List.length_cons, ← List.getElem?_tail]
    exact ih others later

/-- A member of the property's name fills the property, and no other member changes it. -/
theorem takes_of_meets {met : String} {raw : Raw} {next : σ}
    (others : ∀ slot ∈ before ++ after, slot.Foreign name get)
    (law : ∀ value state, get (set value state) = some value)
    (meets : Meets (before ++ slot name decoder get set default? :: after) met raw state next) :
    met ≠ name ∧ get next = get state ∨
      met = name ∧ get state = none ∧
        ∃ value, Takes decoder default? (some raw) value ∧ get next = some value := by
  cases meets with
  | unknown foreign =>
    have own := foreign (slot name decoder get set default?) (by simp)
    exact .inl ⟨Ne.symm own, rfl⟩
  | @fill filler _ listed named fresh moves =>
    by_cases same : filler = slot name decoder get set default?
    · subst same
      obtain ⟨value, takes, rfl⟩ := exists_of_moves_slot moves
      exact .inr ⟨named.symm, isFilled_slot_eq_false_iff.mp fresh, value, takes, law value state⟩
    · have among : filler ∈ before ++ after := by
        simp only [List.mem_append, List.mem_cons] at listed ⊢
        tauto
      obtain ⟨apart, keeps⟩ := others filler among
      exact .inl ⟨named ▸ apart, keeps _ _ _ moves⟩

/-- In an object, a property takes the one member of its name, or is left as it was. -/
theorem takes_of_fillMembers {members : List (Option String × Raw)}
    (others : ∀ slot ∈ before ++ after, slot.Foreign name get)
    (law : ∀ value state, get (set value state) = some value)
    (filled : fillMembers (before ++ slot name decoder get set default? :: after) closed state
      members = .ok final) :
    members.find? (fun member => member.1 == some name) = none ∧ get final = get state ∨
      get state = none ∧ ∃ member value,
        members.find? (fun member => member.1 == some name) = some member ∧
          Takes decoder default? (some member.2) value ∧ get final = some value := by
  induction members generalizing state with
  | nil =>
    rw [fillMembers] at filled
    split at filled
    · rw [Except.ok.inj filled]
      exact .inl ⟨rfl, rfl⟩
    · cases filled
  | cons member rest ih =>
    obtain ⟨given, raw⟩ := member
    obtain ⟨met, next, rfl, meets, later⟩ := fillMembers_cons filled
    rcases takes_of_meets others law meets with ⟨apart, kept⟩ | ⟨rfl, empty, value, takes, has⟩
    · rw [List.find?_cons_of_neg (by simpa using apart), ← kept]
      exact ih later
    · rw [List.find?_cons_of_pos (by simp)]
      -- The property is filled now, so that no later member of its name would be let in.
      rcases ih later with ⟨_, kept⟩ | ⟨unfilled, _⟩
      · exact .inr ⟨empty, _, value, rfl, takes, kept.trans has⟩
      · cases has.symm.trans unfilled

/-- A property of a decoded record has the value of its part of the text, or its default where the
text has no part for it. -/
theorem takes_of_record {title : String} {raw : Raw}
    (others : ∀ slot ∈ before ++ after, slot.Foreign name get)
    (law : ∀ value state, get (set value state) = some value) (empty : get state = none)
    (decoded : record title (before ++ slot name decoder get set default? :: after) state raw =
      .ok final) :
    ∃ value, get final = some value ∧
      Takes decoder default? (raw.part? name before.length) value := by
  have keep : ∀ slot ∈ before ++ after, slot.Keeps get := fun slot listed => (others slot listed).2
  cases raw with
  | object members closed =>
    rw [record] at decoded
    split at decoded
    · next filled members =>
      obtain ⟨value, has, taken⟩ := takes_of_fillAbsent keep law decoded
      refine ⟨value, has, ?_⟩
      rw [Raw.part?]
      rcases takes_of_fillMembers others law members with
        ⟨unmet, kept⟩ | ⟨_, member, given, found, takes, filled⟩
      · rw [unmet, Option.map_none]
        rcases taken with present | ⟨_, takes⟩
        · cases present.symm.trans (kept.trans empty)
        · exact takes
      · rw [found, Option.map_some]
        rcases taken with present | ⟨absent, _⟩
        · cases present.symm.trans filled
          exact takes
        · cases absent.symm.trans filled
    · cases decoded
  | array items closed => exact takes_of_fillItems keep law decoded
  | _ => cases decoded

end

end JsonShape.Decoder
