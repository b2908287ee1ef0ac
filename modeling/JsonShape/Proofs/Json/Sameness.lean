import JsonShape.Proofs.Json.Basic
import Mathlib.Data.List.Forall2
import Mathlib.Data.List.Nodup
import Mathlib.Data.List.Perm.Subperm

/-!
# Sameness of values

`Json.Same a b` says what the comparison `Json.alike` decides: the same content, with the members of
objects in any order, and numbers in the same representation.

* `Json.alike_iff_same`: values whose objects name every member once are alike exactly if they are
  the same.
* `Json.Same.eq_null`: nothing else is the same as null.
-/

namespace JsonShape

/-- Numbers of one representation and one value: the same integer, or doubles of the same value. -/
inductive Number.Same : Number → Number → Prop
  | integer {n : Int} (fits : Integral n) : Same (.integer n fits) (.integer n fits)
  | double {a b : Double} (values : a.scaled = b.scaled) : Same (.double a) (.double b)

theorem Number.alike_iff_same {a b : Number} : a.alike b = true ↔ a.Same b := by
  constructor
  · intro alike
    cases a with
    | integer n fits =>
      cases b with
      | integer m _ =>
        obtain rfl : n = m := beq_iff_eq.mp alike
        exact .integer fits
      | double => cases alike
    | double d =>
      cases b with
      | integer => cases alike
      | double e => exact .double (beq_iff_eq.mp alike)
  · rintro (_ | values)
    · exact beq_self_eq_true _
    · exact beq_iff_eq.mpr values

namespace Json

/-- Values of the same content.  Arrays are compared item by item; objects have the same names with
the same values, in whatever order. -/
inductive Same : Json → Json → Prop
  | null : Same null null
  | bool (value : Bool) : Same (bool value) (bool value)
  | number {a b : Number} (numbers : a.Same b) : Same (number a) (number b)
  | string (value : String) : Same (string value) (string value)
  | array {items others : List Json} (each : List.Forall₂ Same items others) :
    Same (array items) (array others)
  | object {members ordered others : List (String × Json)} (reordered : others.Perm ordered)
      (names : Entries.names members = Entries.names ordered)
      (each : List.Forall₂ Same (members.map Prod.snd) (ordered.map Prod.snd)) :
    Same (object members) (object others)

/-- Nothing but null is the same as null. -/
theorem Same.eq_null {value : Json} (same : value.Same .null) : value = .null := by
  cases same
  rfl

theorem same_number {a b : Number} : (number a).Same (number b) ↔ a.Same b := by
  refine ⟨fun same => ?_, .number⟩
  cases same with
  | number numbers => exact numbers

theorem same_array {items others : List Json} :
    (array items).Same (array others) ↔ List.Forall₂ Same items others := by
  refine ⟨fun same => ?_, .array⟩
  cases same with
  | array each => exact each

theorem same_object {members others : List (String × Json)} :
    (object members).Same (object others) ↔
      ∃ ordered, others.Perm ordered ∧ Entries.names members = Entries.names ordered ∧
        List.Forall₂ Same (members.map Prod.snd) (ordered.map Prod.snd) := by
  constructor
  · intro same
    cases same with
    | object reordered names each => exact ⟨_, reordered, names, each⟩
  · rintro ⟨ordered, reordered, names, each⟩
    exact .object reordered names each

/-- Relations that agree on the elements of two lists agree on the lists. -/
theorem forall₂_congr_of_mem {R S : Json → Json → Prop} {as bs : List Json}
    (agree : ∀ a ∈ as, ∀ b ∈ bs, R a b ↔ S a b) : List.Forall₂ R as bs ↔ List.Forall₂ S as bs := by
  induction as generalizing bs with
  | nil => rw [List.forall₂_nil_left_iff, List.forall₂_nil_left_iff]
  | cons a as ih =>
    cases bs with
    | nil => exact iff_of_false (fun each => nomatch each) (fun each => nomatch each)
    | cons b bs =>
      rw [List.forall₂_cons, List.forall₂_cons, agree a List.mem_cons_self b List.mem_cons_self]
      exact and_congr_right fun _ => ih fun a listed b among =>
        agree a (List.mem_cons_of_mem _ listed) b (List.mem_cons_of_mem _ among)

/-! ## Arrays -/

theorem alikeItems_iff {items others : List Json} :
    alikeItems items others = true ↔
      List.Forall₂ (fun a b => a.alike b = true) items others := by
  induction items generalizing others with
  | nil =>
    cases others with
    | nil => exact iff_of_true rfl .nil
    | cons b bs => exact iff_of_false Bool.false_ne_true (fun each => nomatch each)
  | cons a as ih =>
    cases others with
    | nil => exact iff_of_false Bool.false_ne_true (fun each => nomatch each)
    | cons b bs => rw [alikeItems, Bool.and_eq_true_iff, ih, List.forall₂_cons]

/-! ## Objects -/

theorem alikeMembers_iff {members others : List (String × Json)} :
    alikeMembers members others = true ↔
      ∀ member ∈ members, ∃ value, Entries.get? others member.1 = some value ∧
        member.2.alike value = true := by
  induction members with
  | nil => exact iff_of_true rfl fun _ listed => absurd listed List.not_mem_nil
  | cons member rest ih =>
    obtain ⟨name, a⟩ := member
    rw [alikeMembers, Bool.and_eq_true_iff, ih, List.forall_mem_cons]
    refine and_congr_left fun _ => ?_
    cases Entries.get? others name with
    | none => simp
    | some b => simp

theorem length_eq_of_names {members ordered : List (String × Json)}
    (names : Entries.names members = Entries.names ordered) : members.length = ordered.length := by
  simpa only [Entries.names, List.length_map] using congrArg List.length names

section

variable {R : Json → Json → Prop}

/-- Members that each have a counterpart can be set against their counterparts, in order. -/
theorem exists_counterparts {members others : List (String × Json)}
    (has : ∀ member ∈ members, ∃ value, Entries.get? others member.1 = some value ∧
      R member.2 value) :
    ∃ ordered, Entries.names members = Entries.names ordered ∧
      List.Forall₂ R (members.map Prod.snd) (ordered.map Prod.snd) ∧ ordered ⊆ others := by
  induction members with
  | nil => exact ⟨[], rfl, .nil, List.nil_subset _⟩
  | cons member rest ih =>
    obtain ⟨⟨value, found, related⟩, later⟩ := List.forall_mem_cons.mp has
    obtain ⟨ordered, names, each, inside⟩ := ih later
    refine ⟨(member.1, value) :: ordered, ?_, .cons related each, ?_⟩
    · rw [Entries.names_cons, Entries.names_cons, names]
    · exact List.cons_subset.mpr ⟨Entries.mem_of_get? found, inside⟩

theorem exists_counterpart {members ordered : List (String × Json)}
    (names : Entries.names members = Entries.names ordered)
    (each : List.Forall₂ R (members.map Prod.snd) (ordered.map Prod.snd))
    {member : String × Json} (listed : member ∈ members) :
    ∃ value, (member.1, value) ∈ ordered ∧ R member.2 value := by
  induction members generalizing ordered with
  | nil => cases listed
  | cons first rest ih =>
    obtain _ | ⟨entry, more⟩ := ordered
    · cases each
    · obtain ⟨same, others⟩ := List.cons.inj names
      obtain ⟨related, sequel⟩ := List.forall₂_cons.mp each
      rcases List.mem_cons.mp listed with rfl | later
      · exact ⟨entry.2, List.mem_cons.mpr (.inl (Prod.ext same rfl)), related⟩
      · obtain ⟨value, among, holds⟩ := ih others sequel later
        exact ⟨value, List.mem_cons_of_mem entry among, holds⟩

/-- Of two objects that name every member once and have equally many, one has a counterpart of every
member of the other exactly if their members can be put in the same order. -/
theorem exists_ordered_iff {members others : List (String × Json)}
    (once : (Entries.names members).Nodup) (onceMore : (Entries.names others).Nodup) :
    (members.length = others.length ∧
        ∀ member ∈ members, ∃ value, Entries.get? others member.1 = some value ∧
          R member.2 value) ↔
      ∃ ordered, others.Perm ordered ∧ Entries.names members = Entries.names ordered ∧
        List.Forall₂ R (members.map Prod.snd) (ordered.map Prod.snd) := by
  constructor
  · rintro ⟨count, has⟩
    obtain ⟨ordered, names, each, inside⟩ := exists_counterparts has
    have distinct : ordered.Nodup := by
      rw [names] at once
      exact once.of_map Prod.fst
    have size : others.length = ordered.length := count.symm.trans (length_eq_of_names names)
    have perm := (List.subperm_of_subset distinct inside).perm_of_length_le (Nat.le_of_eq size)
    exact ⟨ordered, perm.symm, names, each⟩
  · rintro ⟨ordered, perm, names, each⟩
    refine ⟨?_, fun member listed => ?_⟩
    · rw [perm.length_eq]
      exact length_eq_of_names names
    · obtain ⟨value, among, related⟩ := exists_counterpart names each listed
      exact ⟨value, Entries.get?_of_mem onceMore (perm.mem_iff.mpr among), related⟩

end

/-! ## All values -/

/-- Values whose objects name every member once are alike exactly if they are the same. -/
theorem alike_iff_same {a b : Json} {levels more : Nat} (readable : a.Readable levels)
    (readableToo : b.Readable more) : a.alike b = true ↔ a.Same b := by
  induction a using inductionOn generalizing b levels more with
  | null =>
    cases b with
    | null => exact iff_of_true rfl .null
    | _ => exact iff_of_false Bool.false_ne_true (fun same => nomatch same)
  | bool value =>
    cases b with
    | bool other =>
      refine beq_iff_eq.trans ⟨fun same => same ▸ .bool value, fun same => ?_⟩
      cases same
      rfl
    | _ => exact iff_of_false Bool.false_ne_true (fun same => nomatch same)
  | number n =>
    cases b with
    | number m => exact Number.alike_iff_same.trans same_number.symm
    | _ => exact iff_of_false Bool.false_ne_true (fun same => nomatch same)
  | string s =>
    cases b with
    | string other =>
      refine beq_iff_eq.trans ⟨fun same => same ▸ .string s, fun same => ?_⟩
      cases same
      rfl
    | _ => exact iff_of_false Bool.false_ne_true (fun same => nomatch same)
  | array items ih =>
    cases b with
    | array others =>
      cases readable with
      | array inner =>
        cases readableToo with
        | array innerToo =>
          rw [alike, alikeItems_iff, same_array]
          exact forall₂_congr_of_mem fun a listed b among =>
            ih a listed (inner a listed) (innerToo b among)
    | _ => exact iff_of_false Bool.false_ne_true (fun same => nomatch same)
  | object members ih =>
    cases b with
    | object others =>
      cases readable with
      | object once inner =>
        cases readableToo with
        | object onceMore innerToo =>
          have order := @exists_ordered_iff (fun a b => a.alike b = true) members others once
            onceMore
          rw [alike, Bool.and_eq_true_iff, beq_iff_eq, alikeMembers_iff, order, same_object]
          refine exists_congr fun ordered => and_congr_right fun perm => and_congr_right fun _ => ?_
          refine forall₂_congr_of_mem fun a listed b among => ?_
          obtain ⟨member, own, rfl⟩ := List.mem_map.mp listed
          obtain ⟨entry, other, rfl⟩ := List.mem_map.mp among
          exact ih member own (inner member own) (innerToo entry (perm.mem_iff.mpr other))
    | _ => exact iff_of_false Bool.false_ne_true (fun same => nomatch same)

example : (object [("a", null), ("b", bool true)]).alike (object [("b", bool true), ("a", null)]) =
    true := by decide

end Json

end JsonShape
