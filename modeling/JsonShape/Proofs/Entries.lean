import JsonShape.Entries
import JsonShape.Proofs.Names

/-!
# Tables of entries

What becomes of the entries that are put into a table.

* `putAll_of_nodup`: entries whose names are all new go to the end as they are.
* `latest` is the table of a list of entries, read off the list: each name once, at its first
  place, with its last value.  Putting the entries one by one ends there (`collect_eq_latest`).
-/

namespace JsonShape.Entries

variable {α : Type}

theorem put_of_not_mem {entries : List (String × α)} {name : String} (value : α)
    (fresh : name ∉ names entries) : put entries name value = entries ++ [(name, value)] := by
  induction entries with
  | nil => rfl
  | cons entry rest ih =>
    rw [names_cons, List.mem_cons, not_or] at fresh
    rw [put, if_neg (Ne.symm fresh.1), ih fresh.2, List.cons_append]

theorem names_append (a b : List (String × α)) : names (a ++ b) = names a ++ names b :=
  List.map_append

theorem putAll_append (entries a b : List (String × α)) :
    putAll entries (a ++ b) = putAll (putAll entries a) b := List.foldl_append

theorem mem_put {entries : List (String × α)} {name : String} {value : α} {entry : String × α}
    (listed : entry ∈ put entries name value) : entry ∈ entries ∨ entry = (name, value) := by
  induction entries with
  | nil => exact .inr (List.mem_singleton.mp listed)
  | cons first rest ih =>
    obtain ⟨other, old⟩ := first
    rw [put] at listed
    split at listed
    · rcases List.mem_cons.mp listed with here | later
      · exact .inr here
      · exact .inl (List.mem_cons_of_mem _ later)
    · rcases List.mem_cons.mp listed with here | later
      · exact .inl (here ▸ List.mem_cons_self)
      · rcases ih later with earlier | added
        · exact .inl (List.mem_cons_of_mem _ earlier)
        · exact .inr added

theorem mem_putAll {entries additions : List (String × α)} {entry : String × α}
    (listed : entry ∈ putAll entries additions) : entry ∈ entries ∨ entry ∈ additions := by
  induction additions generalizing entries with
  | nil => exact .inl listed
  | cons addition rest ih =>
    have split : entry ∈ put entries addition.1 addition.2 ∨ entry ∈ rest := ih listed
    rcases split with earlier | added
    · rcases mem_put earlier with before | first
      · exact .inl before
      · exact .inr (first ▸ List.mem_cons_self)
    · exact .inr (List.mem_cons_of_mem _ added)

theorem mem_collect {entries : List (String × α)} {entry : String × α}
    (listed : entry ∈ collect entries) : entry ∈ entries :=
  (mem_putAll listed).resolve_left List.not_mem_nil

theorem nodup_names_collect (entries : List (String × α)) : (names (collect entries)).Nodup :=
  nodup_names_putAll [] entries List.nodup_nil

theorem putAll_of_nodup (entries additions : List (String × α))
    (distinct : (names (entries ++ additions)).Nodup) :
    putAll entries additions = entries ++ additions := by
  induction additions generalizing entries with
  | nil => simp [putAll]
  | cons addition rest ih =>
    have fresh : addition.1 ∉ names entries := by
      rw [names_append] at distinct
      intro listed
      exact (List.nodup_append.mp distinct).2.2 _ listed _ List.mem_cons_self rfl
    have step : putAll entries (addition :: rest) =
        putAll (put entries addition.1 addition.2) rest := rfl
    rw [step, put_of_not_mem _ fresh, ih, List.append_assoc, List.cons_append, List.nil_append]
    simpa using distinct

theorem mem_names_iff {entries : List (String × α)} {name : String} :
    name ∈ names entries ↔ ∃ value, get? entries name = some value := by
  rw [← not_iff_not, ← get?_eq_none_iff, Option.eq_none_iff_forall_ne_some, not_exists]

/-- An answer is one of the entries. -/
theorem mem_of_get? {entries : List (String × α)} {name : String} {value : α}
    (found : get? entries name = some value) : (name, value) ∈ entries := by
  induction entries with
  | nil => cases found
  | cons entry rest ih =>
    rw [get?] at found
    split at found
    · next same =>
      cases found
      rw [← same]
      exact List.mem_cons_self
    · exact List.mem_cons_of_mem _ (ih found)

/-- In a table that names nothing twice, each entry is the answer for its name. -/
theorem get?_of_mem {entries : List (String × α)} (distinct : (names entries).Nodup)
    {entry : String × α} (listed : entry ∈ entries) : get? entries entry.1 = some entry.2 := by
  induction entries with
  | nil => cases listed
  | cons first rest ih =>
    obtain ⟨name, value⟩ := first
    obtain ⟨fresh, distinct⟩ := List.nodup_cons.mp distinct
    rcases List.mem_cons.mp listed with rfl | later
    · rw [get?, if_pos rfl]
    · have other : name ≠ entry.1 := fun same =>
        fresh (List.mem_map.mpr ⟨entry, later, same.symm⟩)
      rw [get?, if_neg other, ih distinct later]

theorem collect_of_nodup {entries : List (String × α)} (distinct : (names entries).Nodup) :
    collect entries = entries := putAll_of_nodup [] entries distinct

/-! ## First places and last values -/

/-- The value of the last entry that bears a name. -/
def last? (entries : List (String × α)) (name : String) : Option α := get? entries.reverse name

/-- Each name of some entries once, in the order of first entries, with its last value. -/
def latest (entries : List (String × α)) : List (String × α) :=
  (names entries).eraseDups.filterMap fun name =>
    (last? entries name).map fun value => (name, value)

theorem last?_concat (entries : List (String × α)) (name wanted : String) (value : α) :
    last? (entries ++ [(name, value)]) wanted =
      if name = wanted then some value else last? entries wanted := by
  rw [last?, List.reverse_append, List.reverse_singleton, List.singleton_append, get?]
  rfl

theorem last?_eq_none_iff (entries : List (String × α)) (name : String) :
    last? entries name = none ↔ name ∉ names entries := by
  rw [last?, get?_eq_none_iff, names, List.map_reverse, List.mem_reverse, names]

theorem collect_concat (entries : List (String × α)) (name : String) (value : α) :
    collect (entries ++ [(name, value)]) = put (collect entries) name value :=
  putAll_append [] entries [(name, value)]

theorem names_collect (entries : List (String × α)) :
    names (collect entries) = (names entries).eraseDups := by
  induction entries using List.reverseRecOn with
  | nil => rfl
  | append_singleton entries entry ih =>
    obtain ⟨name, value⟩ := entry
    rw [collect_concat, names_put, ih, names_append, names_cons, names_nil, eraseDups_concat]
    simp only [List.mem_eraseDups]

theorem get?_collect (entries : List (String × α)) (wanted : String) :
    get? (collect entries) wanted = last? entries wanted := by
  induction entries using List.reverseRecOn with
  | nil => rfl
  | append_singleton entries entry ih =>
    obtain ⟨name, value⟩ := entry
    rw [collect_concat, last?_concat]
    by_cases same : name = wanted
    · rw [if_pos same, ← same, get?_put_self]
    · rw [if_neg same, get?_put_of_ne _ _ same, ih]

/-- Tables of the same names in the same order that answer alike are the same. -/
theorem eq_of_get?_eq {a b : List (String × α)} (distinct : (names a).Nodup)
    (order : names a = names b) (answers : ∀ name, get? a name = get? b name) : a = b := by
  induction a generalizing b with
  | nil =>
    cases b with
    | nil => rfl
    | cons entry rest => cases order
  | cons first more ih =>
    cases b with
    | nil => cases order
    | cons entry rest =>
      obtain ⟨name, value⟩ := first
      obtain ⟨other, found⟩ := entry
      rw [names_cons] at distinct
      obtain ⟨same, sequel⟩ := List.cons.inj order
      obtain ⟨fresh, distinct⟩ := List.nodup_cons.mp distinct
      dsimp only at same fresh
      subst same
      have values : value = found := by simpa [get?] using answers name
      have others : ∀ wanted, get? more wanted = get? rest wanted := by
        intro wanted
        by_cases own : name = wanted
        · subst own
          have left := (get?_eq_none_iff more name).mpr fresh
          rw [names, sequel] at fresh
          have right := (get?_eq_none_iff rest name).mpr fresh
          rw [left, right]
        · simpa [get?, own] using answers wanted
      rw [values, ih distinct sequel others]

section Selection

variable (values : String → Option α)

theorem names_filterMap (wanted : List String) (found : ∀ name ∈ wanted, values name ≠ none) :
    names (wanted.filterMap fun name => (values name).map fun value => (name, value)) = wanted := by
  induction wanted with
  | nil => rfl
  | cons name rest ih =>
    obtain ⟨value, has⟩ := Option.ne_none_iff_exists'.mp (found name List.mem_cons_self)
    have others := ih fun other listed => found other (List.mem_cons_of_mem _ listed)
    rw [List.filterMap_cons, has, Option.map_some, names_cons, others]

theorem get?_filterMap (wanted : List String) (name : String) :
    get? (wanted.filterMap fun name => (values name).map fun value => (name, value)) name =
      if name ∈ wanted then values name else none := by
  induction wanted with
  | nil => rfl
  | cons other rest ih =>
    by_cases same : other = name
    · subst same
      rcases has : values other with _ | value
      · simp [has, ih]
      · simp [has, get?]
    · rcases has : values other with _ | value
      · simp [has, ih, Ne.symm same]
      · simp [has, get?, ih, same, Ne.symm same]

end Selection

theorem names_latest (entries : List (String × α)) :
    names (latest entries) = (names entries).eraseDups := by
  refine names_filterMap (last? entries) _ fun name listed absent => ?_
  exact (last?_eq_none_iff entries name).mp absent (List.mem_eraseDups.mp listed)

theorem get?_latest (entries : List (String × α)) (name : String) :
    get? (latest entries) name = last? entries name := by
  rw [latest, get?_filterMap]
  split
  · rfl
  · rename_i absent
    rw [List.mem_eraseDups] at absent
    exact ((last?_eq_none_iff entries name).mpr absent).symm

/-- Entries that are put into a table one by one leave the last value of each name, at the place
of the name's first entry. -/
theorem collect_eq_latest (entries : List (String × α)) : collect entries = latest entries := by
  apply eq_of_get?_eq
  · rw [names_collect]
    exact nodup_eraseDups _
  · rw [names_collect, names_latest]
  · intro name
    rw [get?_collect, get?_latest]

end JsonShape.Entries
