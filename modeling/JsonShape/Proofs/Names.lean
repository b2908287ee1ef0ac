import Mathlib.Data.List.Induction

/-!
# Names without their repeats

`List.eraseDups` keeps the first of equal names, so the names that are left stand in the order of
their first occurrences.

* `eraseDups_concat`: a name at the end is a repeat and goes, or it stays at the end.
* `nodup_eraseDups`, `eraseDups_of_nodup`: what is left has no repeats, and a list without repeats
  is left as it is.
-/

namespace JsonShape

/-- One more name at the end is a repeat or stays. -/
theorem eraseDups_concat (names : List String) (name : String) :
    (names ++ [name]).eraseDups =
      if name ∈ names then names.eraseDups else names.eraseDups ++ [name] := by
  rw [List.eraseDups_append, List.cons_removeAll]
  by_cases listed : name ∈ names
  · simp [listed, List.removeAll]
  · simp [listed, List.removeAll, List.eraseDups_cons]

theorem nodup_eraseDups (names : List String) : names.eraseDups.Nodup := by
  induction names using List.reverseRecOn with
  | nil => exact List.nodup_nil
  | append_singleton names name ih =>
    rw [eraseDups_concat]
    split
    · exact ih
    · next fresh =>
      refine List.nodup_append.mpr ⟨ih, by simp, ?_⟩
      intro other listed last member same
      rw [same, List.mem_singleton.mp member] at listed
      exact fresh (List.mem_eraseDups.mp listed)

theorem eraseDups_of_nodup {names : List String} (distinct : names.Nodup) :
    names.eraseDups = names := by
  induction names using List.reverseRecOn with
  | nil => rfl
  | append_singleton names name ih =>
    have apart := List.nodup_append.mp distinct
    have fresh : name ∉ names := fun listed => apart.2.2 name listed name (by simp) rfl
    rw [eraseDups_concat, if_neg fresh, ih apart.1]

theorem eraseDups_ne_nil {names : List String} (nonempty : names ≠ []) : names.eraseDups ≠ [] := by
  obtain ⟨name, rest, rfl⟩ := List.exists_cons_of_ne_nil nonempty
  rw [List.eraseDups_cons]
  exact List.cons_ne_nil _ _

end JsonShape
