import Mathlib.Computability.Language

/-!
# Longest prefixes

What it means that a split cuts the longest prefix of a language off every text.

* `single` and `several` are the languages of one and of some characters of a class.
* `Cuts split l`: the first part of a split is in `l`, and no prefix of the text that is in `l` is
  longer.  So it does not matter what stands behind a cut (`Cuts.before`).
* `Cuts.mul`: two splits, one behind the other, cut off the longest prefix of the product, if the
  first one goes on only with characters that no text of the second language starts with.
-/

namespace JsonShape

open scoped Computability

/-! ## Classes of characters -/

/-- The texts of one character of a class. -/
def single (p : Char → Bool) : Language Char := {text | ∃ c, p c = true ∧ text = [c]}

/-- The texts of one or more characters of a class. -/
def several (p : Char → Bool) : Language Char := single p * (single p)∗

section Classes

variable {p q : Char → Bool} {text : List Char}

theorem mem_star_single : text ∈ (single p)∗ ↔ ∀ c ∈ text, p c = true := by
  constructor
  · intro inside c listed
    obtain ⟨words, rfl, each⟩ := Language.mem_kstar.mp inside
    obtain ⟨word, among, within⟩ := List.mem_flatten.mp listed
    obtain ⟨d, ofClass, rfl⟩ := each word among
    rw [List.mem_singleton.mp within]
    exact ofClass
  · intro all
    have letters : text = (text.map fun c => [c]).flatten := by
      rw [← List.flatMap_def, List.flatMap_singleton']
    refine Language.mem_kstar.mpr ⟨_, letters, fun word listed => ?_⟩
    obtain ⟨c, among, rfl⟩ := List.mem_map.mp listed
    exact ⟨c, all c among, rfl⟩

theorem append_mem_star {l : Language Char} {unit : List Char} (first : unit ∈ l)
    (others : text ∈ l∗) : unit ++ text ∈ l∗ := by
  obtain ⟨units, rfl, each⟩ := Language.mem_kstar.mp others
  refine Language.mem_kstar.mpr ⟨unit :: units, rfl, fun word listed => ?_⟩
  rcases List.mem_cons.mp listed with rfl | later
  · exact first
  · exact each word later

theorem mem_several : text ∈ several p ↔ text ≠ [] ∧ ∀ c ∈ text, p c = true := by
  constructor
  · intro inside
    obtain ⟨_, ⟨c, ofClass, rfl⟩, rest, others, rfl⟩ := Language.mem_mul.mp inside
    refine ⟨List.cons_ne_nil c rest, fun d listed => ?_⟩
    rcases List.mem_cons.mp listed with rfl | later
    · exact ofClass
    · exact mem_star_single.mp others d later
  · rintro ⟨nonempty, all⟩
    obtain ⟨c, rest, rfl⟩ := List.exists_cons_of_ne_nil nonempty
    refine Language.append_mem_mul (a := [c]) ⟨c, all c List.mem_cons_self, rfl⟩ ?_
    exact mem_star_single.mpr fun d later => all d (List.mem_cons_of_mem c later)

end Classes

/-- All texts of a language that are not empty start with characters of a class. -/
def StartsIn (l : Language Char) (p : Char → Bool) : Prop := ∀ a ∈ l, ∀ c ∈ a.head?, p c = true

namespace StartsIn

variable {l m : Language Char} {p q : Char → Bool}

theorem single (p : Char → Bool) : StartsIn (single p) p := by
  rintro _ ⟨c, ofClass, rfl⟩ d first
  cases Option.some.inj first
  exact ofClass

theorem optional (starts : StartsIn l p) : StartsIn (1 + l) p := by
  rintro a (rfl | inside) c first
  · cases first
  · exact starts a inside c first

/-- A product starts like its first factor, or like the second where the first is empty. -/
theorem mul (left : StartsIn l p) (right : StartsIn m q) :
    StartsIn (l * m) fun c => p c || q c := by
  intro x inside c first
  obtain ⟨a, inLeft, b, inRight, rfl⟩ := Language.mem_mul.mp inside
  cases a with
  | nil => simp [right b inRight c first]
  | cons d more => simp [left _ inLeft c first]

/-- A product of texts that are not empty starts like its first factor. -/
theorem mul_of_nonempty (left : StartsIn l p) (nonempty : [] ∉ l) : StartsIn (l * m) p := by
  intro x inside c first
  obtain ⟨a, inLeft, b, _, rfl⟩ := Language.mem_mul.mp inside
  cases a with
  | nil => exact absurd inLeft nonempty
  | cons d more => exact left _ inLeft c first

end StartsIn

/-! ## Cuts -/

/-- A split cuts the longest prefix of a language off every text. -/
structure Cuts (split : List Char → List Char × List Char) (l : Language Char) : Prop where
  lossless (text : List Char) : (split text).1 ++ (split text).2 = text
  mem (text : List Char) : (split text).1 ∈ l
  longest {a : List Char} (inside : a ∈ l) (rest : List Char) :
    a.length ≤ (split (a ++ rest)).1.length

/-- Behind a text of a language, a split goes on only with characters of a class. -/
def GoesOn (split : List Char → List Char × List Char) (l : Language Char) (p : Char → Bool) :
    Prop :=
  ∀ a ∈ l, ∀ c rest, a.length < (split (a ++ c :: rest)).1.length → p c = true

/-- Two splits, one behind the other. -/
def splitBoth (first second : List Char → List Char × List Char) (text : List Char) :
    List Char × List Char :=
  ((first text).1 ++ (second (first text).2).1, (second (first text).2).2)

namespace Cuts

variable {split first second : List Char → List Char × List Char} {l m : Language Char}
  {p q : Char → Bool}

theorem append_eq (cuts : Cuts split l) {text a rest : List Char} (cut : split text = (a, rest)) :
    a ++ rest = text := by
  have lossless := cuts.lossless text
  rwa [cut] at lossless

theorem eq_of_length_le (cuts : Cuts split l) {a rest : List Char} (inside : a ∈ l)
    (bound : (split (a ++ rest)).1.length ≤ a.length) : split (a ++ rest) = (a, rest) := by
  have same := List.append_inj (cuts.lossless (a ++ rest))
    (Nat.le_antisymm bound (cuts.longest inside rest))
  exact Prod.ext same.1 same.2

/-- What stands behind a text that is cut off makes no difference. -/
theorem before (cuts : Cuts split l) (taken kept rest : List Char)
    (whole : split (taken ++ (kept ++ rest)) = (taken, kept ++ rest)) :
    split (taken ++ kept) = (taken, kept) := by
  have inside : taken ∈ l := by
    have found := cuts.mem (taken ++ (kept ++ rest))
    rwa [whole] at found
  refine cuts.eq_of_length_le inside ?_
  have shorter := cuts.longest (cuts.mem (taken ++ kept)) ((split (taken ++ kept)).2 ++ rest)
  rwa [← List.append_assoc, cuts.lossless, List.append_assoc, whole] at shorter

/-- Before a character that it does not go on with, a split cuts off the whole text in front. -/
theorem split_append (cuts : Cuts split l) (goesOn : GoesOn split l p) {a rest : List Char}
    (inside : a ∈ l) (stops : ∀ c ∈ rest.head?, p c = false) :
    split (a ++ rest) = (a, rest) := by
  refine cuts.eq_of_length_le inside (Nat.le_of_not_lt fun longer => ?_)
  cases rest with
  | nil =>
    have whole := congrArg List.length (cuts.lossless (a ++ []))
    simp only [List.length_append, List.length_nil] at whole
    omega
  | cons c more =>
    have outside := stops c rfl
    rw [goesOn a inside c more longer] at outside
    cases outside

/-- Two splits cut off the longest prefix of the product, if no text of the second language starts
as the first split goes on. -/
theorem mul (left : Cuts first l) (right : Cuts second m) (goesOn : GoesOn first l p)
    (starts : StartsIn m q) (apart : ∀ c, q c = true → p c = false) :
    Cuts (splitBoth first second) (l * m) where
  lossless text := by
    rw [splitBoth, List.append_assoc, right.lossless, left.lossless]
  mem text := Language.append_mem_mul (left.mem text) (right.mem _)
  longest := by
    intro x inside rest
    obtain ⟨a, inLeft, b, inRight, rfl⟩ := Language.mem_mul.mp inside
    rw [List.append_assoc, splitBoth, List.length_append, List.length_append]
    cases b with
    | nil =>
      have bound := left.longest inLeft ([] ++ rest)
      rw [List.length_nil]
      omega
    | cons c more =>
      have stop : first (a ++ (c :: more ++ rest)) = (a, c :: more ++ rest) := by
        refine left.split_append goesOn inLeft fun d head => ?_
        cases Option.some.inj head
        exact apart c (starts _ inRight c rfl)
      rw [stop]
      exact Nat.add_le_add_left (right.longest inRight rest) _

end Cuts

/-! ## Characters of a class -/

/-- The characters of a class at the start of a text are its longest prefix of that class. -/
theorem cuts_takeWhile (p : Char → Bool) :
    Cuts (fun text => (text.takeWhile p, text.dropWhile p)) (single p)∗ where
  lossless _ := List.takeWhile_append_dropWhile
  mem _ := mem_star_single.mpr (List.all_eq_true.mp List.all_takeWhile)
  longest inside rest := by
    rw [List.takeWhile_append_of_pos (mem_star_single.mp inside), List.length_append]
    exact Nat.le_add_right _ _

theorem goesOn_takeWhile (p : Char → Bool) :
    GoesOn (fun text => (text.takeWhile p, text.dropWhile p)) (single p)∗ p := by
  intro a inside c rest longer
  by_contra outside
  dsimp only at longer
  rw [List.takeWhile_append_of_pos (mem_star_single.mp inside),
    List.takeWhile_cons_of_neg outside, List.append_nil] at longer
  exact Nat.lt_irrefl _ longer

end JsonShape
