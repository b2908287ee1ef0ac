import Mathlib.Logic.Basic

/-!
# Answers and their concatenations

`Gathers Has as bs` says that `bs` is put together from what each element of `as` has, in the order
of `as`.

* `map_eq_ok_iff`: an answer under a function is the function's value at an answer.
* `Gathers.exists_iff`: something is gathered exactly if every element has something.
* `Gathers.all_iff`, `Gathers.gathers_iff`: properties of what is gathered, and what is gathered from
  it in turn.
-/

namespace JsonShape

theorem map_eq_ok_iff {ε α β : Type} {x : Except ε α} {f : α → β} {b : β} :
    x.map f = .ok b ↔ ∃ a, x = .ok a ∧ b = f a := by
  cases x <;> simp [Except.map, eq_comm]

/-- The second list is the concatenation of what the elements of the first one have. -/
inductive Gathers {α β : Type} (Has : α → List β → Prop) : List α → List β → Prop
  | nil : Gathers Has [] []
  | cons {a : α} {as : List α} {own others : List β} (first : Has a own)
      (rest : Gathers Has as others) : Gathers Has (a :: as) (own ++ others)

namespace Gathers

variable {α β γ : Type} {Has : α → List β → Prop}

theorem nil_iff {bs : List β} : Gathers Has [] bs ↔ bs = [] := by
  constructor
  · intro gathers
    cases gathers
    rfl
  · intro empty
    rw [empty]
    exact .nil

theorem cons_iff {a : α} {as : List α} {bs : List β} :
    Gathers Has (a :: as) bs ↔
      ∃ own others, Has a own ∧ Gathers Has as others ∧ bs = own ++ others := by
  constructor
  · intro gathers
    cases gathers with
    | cons first rest => exact ⟨_, _, first, rest, rfl⟩
  · intro ⟨own, others, first, rest, same⟩
    rw [same]
    exact .cons first rest

theorem singleton_iff {a : α} {bs : List β} : Gathers Has [a] bs ↔ Has a bs := by
  simp [cons_iff, nil_iff]

theorem append_iff {as bs : List α} {cs : List β} :
    Gathers Has (as ++ bs) cs ↔
      ∃ first second, Gathers Has as first ∧ Gathers Has bs second ∧ cs = first ++ second := by
  induction as generalizing cs with
  | nil => simp [nil_iff]
  | cons a as ih =>
    simp only [List.cons_append, cons_iff, ih]
    constructor
    · intro ⟨own, _, has, ⟨first, second, left, right, same⟩, all⟩
      exact ⟨own ++ first, second, ⟨own, first, has, left, rfl⟩, right, by simp [all, same]⟩
    · intro ⟨_, second, ⟨own, first, has, left, same⟩, right, all⟩
      exact ⟨own, first ++ second, has, ⟨first, second, left, right, rfl⟩, by simp [all, same]⟩

theorem append {as bs : List α} {first second : List β} (left : Gathers Has as first)
    (right : Gathers Has bs second) : Gathers Has (as ++ bs) (first ++ second) :=
  append_iff.mpr ⟨first, second, left, right, rfl⟩

/-- Something is gathered exactly if every element has something. -/
theorem exists_iff {as : List α} :
    (∃ bs, Gathers Has as bs) ↔ ∀ a ∈ as, ∃ own, Has a own := by
  induction as with
  | nil => simp [nil_iff]
  | cons a as ih =>
    simp only [List.forall_mem_cons, ← ih, cons_iff]
    constructor
    · intro ⟨_, own, others, first, rest, _⟩
      exact ⟨⟨own, first⟩, others, rest⟩
    · intro ⟨⟨own, first⟩, others, rest⟩
      exact ⟨_, own, others, first, rest, rfl⟩

/-- What is gathered depends on what the elements have, and on nothing else. -/
theorem congr {Has' : α → List β → Prop} {as : List α} {bs : List β}
    (same : ∀ a ∈ as, ∀ own, Has a own ↔ Has' a own) :
    Gathers Has as bs ↔ Gathers Has' as bs := by
  induction as generalizing bs with
  | nil => simp [nil_iff]
  | cons a as ih =>
    obtain ⟨first, rest⟩ := List.forall_mem_cons.mp same
    simp only [cons_iff, first, ih rest]

/-- What all elements have in another way too is gathered in that way as well. -/
theorem imp {Has' : α → List β → Prop} {as : List α} {bs : List β} (gathers : Gathers Has as bs)
    (also : ∀ a ∈ as, ∀ own, Has a own → Has' a own) : Gathers Has' as bs := by
  induction gathers with
  | nil => exact .nil
  | cons first rest ih =>
    obtain ⟨head, tail⟩ := List.forall_mem_cons.mp also
    exact .cons (head _ first) (ih tail)

theorem unique {as : List α} {bs cs : List β} (left : Gathers Has as bs)
    (once : ∀ a ∈ as, ∀ own other, Has a own → Has a other → own = other)
    (right : Gathers Has as cs) : bs = cs := by
  induction left generalizing cs with
  | nil => exact (nil_iff.mp right).symm
  | cons first rest ih =>
    obtain ⟨own, others, has, more, rfl⟩ := cons_iff.mp right
    obtain ⟨head, tail⟩ := List.forall_mem_cons.mp once
    rw [head _ _ first has, ih tail more]

theorem exists_of_mem {as : List α} {bs : List β} {b : β} (gathers : Gathers Has as bs)
    (inside : b ∈ bs) : ∃ a ∈ as, ∃ own, Has a own ∧ b ∈ own := by
  induction gathers with
  | nil => cases inside
  | cons first rest ih =>
    rcases List.mem_append.mp inside with here | later
    · exact ⟨_, List.mem_cons_self, _, first, here⟩
    · obtain ⟨a, listed, own, has, among⟩ := ih later
      exact ⟨a, List.mem_cons_of_mem _ listed, own, has, among⟩

/-- All of what is gathered has a property exactly if all that the elements have does. -/
theorem all_iff {P : β → Prop} {as : List α} {bs : List β} :
    Gathers Has as bs ∧ (∀ b ∈ bs, P b) ↔
      Gathers (fun a own => Has a own ∧ ∀ b ∈ own, P b) as bs := by
  induction as generalizing bs with
  | nil =>
    rw [nil_iff, nil_iff]
    refine ⟨And.left, fun none => ⟨none, fun b listed => ?_⟩⟩
    rw [none] at listed
    cases listed
  | cons a as ih =>
    simp only [cons_iff, ← ih]
    constructor
    · rintro ⟨⟨own, others, first, rest, rfl⟩, all⟩
      obtain ⟨here, later⟩ := List.forall_mem_append.mp all
      exact ⟨own, others, ⟨first, here⟩, ⟨rest, later⟩, rfl⟩
    · rintro ⟨own, others, ⟨first, here⟩, ⟨rest, later⟩, rfl⟩
      exact ⟨⟨own, others, first, rest, rfl⟩, List.forall_mem_append.mpr ⟨here, later⟩⟩

/-- What is gathered in two stages may be gathered stage by stage. -/
theorem gathers_iff {Then : β → List γ → Prop} {as : List α} {cs : List γ} :
    Gathers (fun a own => ∃ bs, Has a bs ∧ Gathers Then bs own) as cs ↔
      ∃ bs, Gathers Has as bs ∧ Gathers Then bs cs := by
  induction as generalizing cs with
  | nil => simp [nil_iff]
  | cons a as ih =>
    simp only [cons_iff, ih]
    constructor
    · rintro ⟨own, others, ⟨bs, first, behind⟩, ⟨more, rest, sequel⟩, rfl⟩
      exact ⟨bs ++ more, ⟨bs, more, first, rest, rfl⟩, behind.append sequel⟩
    · rintro ⟨_, ⟨bs, more, first, rest, rfl⟩, all⟩
      obtain ⟨own, others, behind, sequel, rfl⟩ := append_iff.mp all
      exact ⟨own, others, ⟨bs, first, behind⟩, ⟨more, rest, sequel⟩, rfl⟩

end Gathers

end JsonShape
